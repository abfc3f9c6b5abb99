import Mathlib
import IconForge.Proofs.Xml.Checking
import IconForge.Proofs.Xml.Reading

set_option autoImplicit false

/-! # Steps inside of an element

A tag that keeps to the rules for namespaces passes the check, and the scope inside of its element
is the one that its declarations give (`Tag.check_of_wellFormed`); no other tag passes
(`Tag.wellFormed_of_check`). So an opening tag, a closing tag and a character each take the reader
inside of an element one step further (`readContent_step`): the first opens an element, the second
closes the innermost one and the third changes nothing. A document is read on inside of its root
(`readDocument_opening`). -/

namespace IconForge.Xml

/-! ## Checking a tag -/

/-- **Attributes pass** when their names are new and differ, and what they declare is allowed. What
remains is the scope inside of the element. -/
theorem checkAttributes_eq_ok_iff {items : List Attribute} {attributes : List WrittenAttribute}
    {source : List Char} (hreads : List.Forall₂ Attribute.Reads items attributes)
    {seen : List Name} {scope inner : Scope} :
    checkAttributes source seen scope items = .ok inner ↔
      (attributes.map (·.name)).Nodup ∧ (∀ a ∈ attributes, a.name ∉ seen) ∧
        (∀ a ∈ attributes, ∀ q ∈ a.name.declared?, AllowedDeclaration q a.content) ∧
        inner = scope.declaring attributes := by
  induction hreads generalizing seen scope with
  | nil =>
      rw [checkAttributes, Except.ok.injEq]
      exact ⟨fun h => ⟨List.nodup_nil, List.forall_mem_nil _, List.forall_mem_nil _, h.symm⟩,
        fun h => h.2.2.2.symm⟩
  | @cons item a items attributes hread hreads ih =>
      have hvalue : resolveValue source item.value = .ok a.content :=
        resolveValue_of_reads source hread.value
      rw [checkAttributes_cons_eq_ok_iff, List.map_cons, List.nodup_cons, Scope.declaring_cons,
        List.forall_mem_cons, List.forall_mem_cons, hread.name, hvalue]
      simp only [Except.ok.injEq, exists_eq_left', ih, List.mem_cons, not_or]
      -- A name is new behind the first one when it is new and not the first one's.
      constructor
      · rintro ⟨hfresh, hallowed, hnames, hunseen, hdeclarations, hinner⟩
        refine ⟨⟨fun hmem => ?_, hnames⟩, ⟨hfresh, fun b hb => (hunseen b hb).2⟩,
          ⟨hallowed, hdeclarations⟩, hinner⟩
        obtain ⟨b, hb, hname⟩ := List.mem_map.1 hmem
        exact (hunseen b hb).1 hname
      · rintro ⟨⟨hnew, hnames⟩, ⟨hfresh, hunseen⟩, ⟨hallowed, hdeclarations⟩, hinner⟩
        refine ⟨hfresh, hallowed, hnames, fun b hb => ⟨fun heq => hnew ?_, hunseen b hb⟩,
          hdeclarations, hinner⟩
        rw [← heq]
        exact List.mem_map_of_mem hb

theorem names_of_reads {items : List Attribute} {attributes : List WrittenAttribute}
    (h : List.Forall₂ Attribute.Reads items attributes) :
    items.map (·.name) = attributes.map (·.name) := by
  induction h with
  | nil => rfl
  | cons hread _ ih => rw [List.map_cons, List.map_cons, hread.name, ih]

theorem Tag.Reads.plainNames {tag : Tag} {written : WrittenTag} {selfClosing : Bool}
    (h : tag.Reads written selfClosing) : tag.plainNames = written.plainNames := by
  rw [Tag.plainNames, WrittenTag.plainNames, names_of_reads h.attributes]

theorem Tag.Reads.element {tag : Tag} {written : WrittenTag} {selfClosing : Bool}
    (h : tag.Reads written selfClosing) : tag.element = written.element := by
  rw [Tag.element, WrittenTag.element, h.plainNames, h.name]

/-- **A well-formed tag passes the check.** -/
theorem Tag.check_of_wellFormed {tag : Tag} {written : WrittenTag} {selfClosing : Bool}
    (hreads : tag.Reads written selfClosing) {scope : Scope} (h : written.WellFormed scope)
    (source : List Char) : tag.check source scope = .ok (scope.declaring written.attributes) := by
  rw [Tag.check_eq_ok_iff, checkAttributes_eq_ok_iff hreads.attributes, checkPrefixes_eq_ok_iff,
    hreads.plainNames, hreads.name]
  exact ⟨⟨h.names, fun _ _ => List.not_mem_nil, h.declarations, rfl⟩,
    ⟨h.bound, h.expanded, fun _ _ => List.not_mem_nil⟩, h.nameBound⟩

/-- **Only a well-formed tag passes the check.** -/
theorem Tag.wellFormed_of_check {tag : Tag} {written : WrittenTag} {selfClosing : Bool}
    (hreads : tag.Reads written selfClosing) {source : List Char} {scope inner : Scope}
    (h : tag.check source scope = .ok inner) : written.WellFormed scope := by
  rw [Tag.check_eq_ok_iff, checkAttributes_eq_ok_iff hreads.attributes, checkPrefixes_eq_ok_iff,
    hreads.plainNames, hreads.name] at h
  obtain ⟨⟨hnames, -, hdeclarations, rfl⟩, ⟨hbound, hexpanded, -⟩, hname⟩ := h
  exact ⟨hnames, hdeclarations, hbound, hexpanded, hname⟩

/-! ## Single steps -/

namespace State

variable {tag : Tag} {written : WrittenTag} {frames : List Frame} {elements : List Element}
  {scope : Scope}

theorem enter_open (hscope : (State.mk frames elements).scope = scope)
    (hreads : tag.Reads written false) (h : written.WellFormed scope) (source : List Char) :
    (State.mk frames elements).enter tag source =
      .ok ⟨⟨written.name.written, scope.declaring written.attributes⟩ :: frames,
        written.element :: elements⟩ := by
  rw [enter, hscope, Tag.check_of_wellFormed hreads h]
  simp only [hreads.selfClosing, Bool.false_eq_true, if_false, hreads.element, hreads.name]

theorem enter_leaf (hscope : (State.mk frames elements).scope = scope)
    (hreads : tag.Reads written true) (h : written.WellFormed scope) (source : List Char) :
    (State.mk frames elements).enter tag source =
      .ok ⟨frames, written.element :: elements⟩ := by
  rw [enter, hscope, Tag.check_of_wellFormed hreads h]
  simp only [hreads.selfClosing, if_true, hreads.element]

theorem take_closing (frame : Frame) (outer : List Frame) (elements : List Element)
    (source : List Char) :
    (State.mk (frame :: outer) elements).take source (.closing frame.name) =
      .ok ⟨outer, elements⟩ := by
  rw [take, leave]
  exact if_pos rfl

end State

theorem readContent_step {state next : State} {c : Char} {cs behind : List Char} {token : Token}
    (htoken : readToken (c :: cs) = .ok (token, behind))
    (htake : state.take (c :: cs) token = .ok next) (hopen : next.frames ≠ []) :
    readContent state (c :: cs) = readContent next behind := by
  have hframes : next.frames.isEmpty = false := by
    rw [List.isEmpty_eq_false_iff]
    exact hopen
  rw [readContent]
  split
  · next heq =>
    rw [htoken] at heq
    cases heq
  · next heq =>
    rw [htoken] at heq
    cases heq
    simp only [htake, hframes, Bool.false_eq_true, if_false]

/-- **A document is read on behind the opening tag of its root**, inside of the root. -/
theorem readDocument_opening {root : WrittenTag} (hroot : root.Valid)
    (hwell : root.WellFormed .initial) (rest : List Char) :
    readDocument ('<' :: (root.text ++ (tagEnd false ++ rest))) =
      readContent ⟨[⟨root.name.written, Scope.initial.declaring root.attributes⟩], [root.element]⟩
        rest := by
  obtain ⟨opened, hopening, hreads⟩ := readToken_opening hroot false rest
  have hscope : (State.mk [] []).scope = Scope.initial := rfl
  rw [readDocument, hopening]
  exact readContent_step hopening (State.enter_open hscope hreads hwell _) (List.cons_ne_nil _ _)

/-- A spelled character is read as a token that changes nothing. -/
theorem readToken_spelled {s : Spelled} (h : s.Valid) {rest : List Char}
    (hsection : ¬ (s = .plain ']' ∧ [']', '>'] <+: rest)) :
    ∃ c cs token, s.text ++ rest = c :: cs ∧ readToken (c :: cs) = .ok (token, rest) ∧
      ∀ (state : State) (source : List Char), state.take source token = .ok state := by
  cases hs : s.reference? with
  | none =>
      cases s with
      | plain c =>
          obtain ⟨hlegal, hlt, hamp⟩ := h
          refine ⟨c, rest, .character c, rfl, ?_, fun _ _ => rfl⟩
          unfold readToken
          split
          · next heq => cases heq
          · next heq => exact absurd (List.cons.inj heq).1 hlt
          · next heq => exact absurd (List.cons.inj heq).1 hamp
          · next tail heq =>
            rw [List.cons.injEq] at heq
            exact absurd ⟨by rw [heq.1], tail, heq.2.symm⟩ hsection
          · next heq =>
            rw [List.cons.injEq] at heq
            rw [← heq.1, if_pos hlegal, ← heq.2]
      | named name => cases hs
      | decimal digits => cases hs
      | hexadecimal digits => cases hs
  | some r =>
      obtain ⟨cs, htext, hreference, hcharacter⟩ := readReference_text h hs rest
      refine ⟨'&', cs, .reference r, htext, ?_, ?_⟩
      · rw [readToken, hreference]
        rfl
      · intro state source
        rw [State.take, hcharacter]

end IconForge.Xml
