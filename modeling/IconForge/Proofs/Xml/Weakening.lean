import Mathlib
import IconForge.Proofs.Xml.Balance
import IconForge.Proofs.Xml.Trimming

set_option autoImplicit false

/-! # Reading in a larger scope

A document that is read may be read with more prefixes in scope. Each prefix that a tag uses is
looked up inside of its element, and what is found there is found in a larger scope, too, under the
same namespace name: a declaration of the tag or of an element around it still comes first. So every
tag that passes its check passes it in a larger scope, with a larger scope inside
(`Tag.check_extends`). A step keeps this for all elements that are open (`State.Extends.take`), and
hence so does a whole reading, which ends with the same elements (`readContent_extends`). -/

namespace IconForge.Xml

/-! ## Tags -/

section

variable {larger scope inner : Scope} {source : List Char}

theorem checkAttributes_extends (h : larger.Extends scope) {seen : List Name}
    {items : List Attribute} (hcheck : checkAttributes source seen scope items = .ok inner) :
    ∃ inner', checkAttributes source seen larger items = .ok inner' ∧ inner'.Extends inner := by
  induction items generalizing larger scope seen with
  | nil =>
      obtain rfl := Except.ok.inj hcheck
      exact ⟨larger, rfl, h⟩
  | cons item items ih =>
      obtain ⟨hfresh, value, hvalue, hallowed, hrest⟩ := checkAttributes_cons_eq_ok_iff.1 hcheck
      obtain ⟨inner', hrest', hextends⟩ := ih (h.behind item.name value) hrest
      exact ⟨inner', checkAttributes_cons_eq_ok_iff.2 ⟨hfresh, value, hvalue, hallowed, hrest'⟩,
        hextends⟩

/-- Bound prefixes have the same namespace names in a larger scope, and so no new names collide. -/
theorem checkPrefixes_extends (h : larger.Extends scope) {seen : List (List Char × List Char)}
    {names : List Name} (hcheck : checkPrefixes scope seen names = .ok ()) :
    checkPrefixes larger seen names = .ok () := by
  rw [checkPrefixes_eq_ok_iff] at hcheck ⊢
  obtain ⟨hbound, hdistinct⟩ := hcheck
  rw [h.expandedNames hbound]
  exact ⟨fun name hname q hq => h.isSome (hbound name hname q hq), hdistinct⟩

/-- **A tag that passes its check passes it in a larger scope**, and the scope inside is larger. -/
theorem Tag.check_extends (h : larger.Extends scope) {tag : Tag}
    (hcheck : tag.check source scope = .ok inner) :
    ∃ inner', tag.check source larger = .ok inner' ∧ inner'.Extends inner := by
  obtain ⟨hattributes, hprefixes, hname⟩ := Tag.check_eq_ok_iff.1 hcheck
  obtain ⟨inner', hattributes', hextends⟩ := checkAttributes_extends h hattributes
  exact ⟨inner', Tag.check_eq_ok_iff.2 ⟨hattributes', checkPrefixes_extends hextends hprefixes,
    fun q hq => hextends.isSome (hname q hq)⟩, hextends⟩

end

/-! ## Steps -/

/-- An open element with more prefixes in scope than another one of the same name. -/
structure Frame.Extends (larger frame : Frame) : Prop where
  name : larger.name = frame.name
  scope : larger.scope.Extends frame.scope

/-- A state with more prefixes in scope, element by element. -/
structure State.Extends (larger state : State) : Prop where
  frames : List.Forall₂ Frame.Extends larger.frames state.frames
  elements : larger.elements = state.elements

namespace State.Extends

variable {larger state next : State} {source : List Char}

theorem scope (h : larger.Extends state) : larger.scope.Extends state.scope := by
  obtain ⟨frames', elements'⟩ := larger
  obtain ⟨frames, elements⟩ := state
  cases h.frames with
  | nil => exact fun _ _ hlookup => hlookup
  | cons hframe _ => exact hframe.scope

theorem enter (h : larger.Extends state) {tag : Tag} (henter : state.enter tag source = .ok next) :
    ∃ next', larger.enter tag source = .ok next' ∧ next'.Extends next := by
  obtain ⟨inner, hcheck, rfl⟩ := State.enter_eq_ok henter
  obtain ⟨inner', hcheck', hextends⟩ := Tag.check_extends h.scope hcheck
  rw [State.enter, hcheck']
  have helements : tag.element :: larger.elements = tag.element :: state.elements := by
    rw [h.elements]
  cases tag.selfClosing with
  | true => exact ⟨_, rfl, h.frames, helements⟩
  | false => exact ⟨_, rfl, .cons ⟨rfl, hextends⟩ h.frames, helements⟩

theorem leave (h : larger.Extends state) {name : List Char}
    (hleave : state.leave name source = .ok next) :
    ∃ next', larger.leave name source = .ok next' ∧ next'.Extends next := by
  obtain ⟨frames', elements'⟩ := larger
  obtain ⟨frames, elements⟩ := state
  obtain ⟨outer, rest⟩ := next
  obtain ⟨frame, rfl, hname, rfl⟩ := State.leave_eq_ok hleave
  obtain ⟨hframes, helements⟩ := h
  obtain ⟨frame', outer', hframe, houter, rfl⟩ := List.forall₂_cons_right_iff.1 hframes
  exact ⟨⟨outer', elements'⟩, if_pos (hframe.name.trans hname), houter, helements⟩

/-- **A step that is taken is taken with more prefixes in scope.** -/
theorem take (h : larger.Extends state) {token : Token}
    (htake : state.take source token = .ok next) :
    ∃ next', larger.take source token = .ok next' ∧ next'.Extends next := by
  cases token with
  | opening tag => exact h.enter htake
  | closing name => exact h.leave htake
  | declaration => cases htake
  | reference r =>
      rw [State.take] at htake ⊢
      split at htake
      · next hc =>
        obtain rfl := Except.ok.inj htake
        exact ⟨larger, rfl, h⟩
      · cases htake
  | character c =>
      obtain rfl := Except.ok.inj htake
      exact ⟨larger, rfl, h⟩
  | comment =>
      obtain rfl := Except.ok.inj htake
      exact ⟨larger, rfl, h⟩
  | instruction =>
      obtain rfl := Except.ok.inj htake
      exact ⟨larger, rfl, h⟩
  | «section» =>
      obtain rfl := Except.ok.inj htake
      exact ⟨larger, rfl, h⟩

end State.Extends

/-! ## Readings -/

/-- **What is read is read with more prefixes in scope**, and the elements are the same. -/
theorem readContent_extends {larger state : State} {cs : List Char} {result : List Element}
    (h : larger.Extends state) (hread : readContent state cs = .ok result) :
    readContent larger cs = .ok result := by
  induction hlength : cs.length using Nat.strong_induction_on generalizing cs larger state with
  | _ n ih =>
  obtain ⟨token, behind, next, htoken, htake, hon⟩ := readOn_of_readContent hread
  have hlt : behind.length < n := hlength ▸ length_lt_of_readToken htoken
  obtain ⟨next', htake', hextends⟩ := h.take htake
  rw [readContent_eq_readOn htoken htake']
  obtain ⟨frames', elements'⟩ := next'
  obtain ⟨frames, elements⟩ := next
  obtain ⟨hframes, rfl⟩ := hextends
  cases hframes with
  | nil => exact hon
  | @cons frame' frame outer' outer hframe houter =>
      have hinside : readContent ⟨frame :: outer, elements'⟩ behind = .ok result := hon
      have hextends : State.Extends ⟨frame' :: outer', elements'⟩ ⟨frame :: outer, elements'⟩ :=
        ⟨.cons hframe houter, rfl⟩
      exact ih _ hlt hextends hinside rfl

end IconForge.Xml
