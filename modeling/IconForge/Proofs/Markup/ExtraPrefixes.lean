import Mathlib
import IconForge.Proofs.Markup.Enclosure
import IconForge.Proofs.Xml.Weakening

set_option autoImplicit false

/-! # More prefixes than the markup needs

The wrapper declares all prefixes of the root, whether the markup uses them or not. That does no
harm: what is read in a wrapper is read in one that declares more (`readDocument_wrap_extends`). Of
two wrappers with the same declarations, in whatever order, each declares all that the other one
does.

A wrapper that is read shows that its declarations may be made (`writable_of_readDocument`): its
opening tag is compared with the text that was written, attribute by attribute. Of several
declarations of one prefix only the last one is written, so nothing is known of the others. -/

namespace IconForge

namespace Xml

/-! ## An attribute and its text -/

theorem IsSimpleName.colon_notMem {name : List Char} (h : IsSimpleName name) : ':' ∉ name :=
  fun hmem => absurd (h.isNameCharacter ':' hmem) (by decide)

theorem Name.Valid.eq_of_written {name : Name} (h : name.Valid) {q localPart : List Char}
    (hq : ':' ∉ q) (hwritten : name.written = q ++ ':' :: localPart) :
    name = ⟨some q, localPart⟩ := by
  obtain ⟨qualifier, rest⟩ := name
  cases qualifier with
  | none =>
      change rest = q ++ ':' :: localPart at hwritten
      exact absurd (by rw [hwritten]; simp) h.localPart.colon_notMem
  | some other =>
      change other ++ ':' :: rest = q ++ ':' :: localPart at hwritten
      obtain ⟨rfl, rfl⟩ := Text.append_cons_inj (h.qualifier other rfl).colon_notMem hq hwritten
      rfl

/-- The characters that end the name of an attribute or stand in its place. -/
def nameEnds : List Char :=
  [' ', '\t', '\n', '\r', '=', '/', '>']

/-- A text without such characters. -/
def NameLike (name : List Char) : Prop :=
  name ≠ [] ∧ ∀ c ∈ name, c ∉ nameEnds

theorem notMem_nameEnds_of_all {cs : List Char} (h : cs.all (!nameEnds.contains ·)) :
    ∀ c ∈ cs, c ∉ nameEnds :=
  fun _ hc hend => notMem_of_all h (List.contains_iff_mem.2 hend) hc

theorem mem_nameEnds_of_isSpace {c : Char} (h : isSpace c) : c ∈ nameEnds :=
  List.contains_iff_mem.1 (of_isSpace (p := nameEnds.contains) (by decide) h)

theorem skipSpace_cons_of_nameLike {name : List Char} (h : NameLike name) (rest : List Char) :
    skipSpace (' ' :: (name ++ rest)) = name ++ rest := by
  obtain ⟨first, tail, rfl⟩ := List.exists_cons_of_ne_nil h.1
  have hone : IsSpaces [' '] := by
    intro c hc
    rw [List.mem_singleton.1 hc]
    decide
  refine skipSpace_append hone ?_
  rintro c ⟨⟩ hspace
  exact h.2 _ List.mem_cons_self (mem_nameEnds_of_isSpace hspace)

namespace WrittenAttribute.Valid

variable {a : WrittenAttribute} {rest : List Char}

/-- Behind a blank, an attribute has the name that stands in front of the equals sign. -/
theorem name_of_text (h : a.Valid) {name behind : List Char} (hname : NameLike name)
    (heq : a.text ++ rest = ' ' :: (name ++ '=' :: behind)) :
    a.name.written = name ∧
      a.afterEquals ++ a.quote :: (a.value.flatMap Spelled.text ++ a.quote :: rest) = behind := by
  have htext : a.text ++ rest = a.gap ++ (a.name.written ++ a.beforeEquals ++ '=' ::
      (a.afterEquals ++ a.quote :: (a.value.flatMap Spelled.text ++ a.quote :: rest))) := by
    simp [WrittenAttribute.text, WrittenAttribute.body]
  have hstart : ∀ c ∈ (a.name.written ++ a.beforeEquals ++ '=' :: (a.afterEquals ++ a.quote ::
      (a.value.flatMap Spelled.text ++ a.quote :: rest))).head?, ¬isSpace c := by
    obtain ⟨first, tail, hwritten, hfirst⟩ := h.name.exists_cons
    rw [hwritten]
    rintro c ⟨⟩ hspace
    exact notMem_nameStops_of_isNameStart hfirst (mem_nameStops_of_isSpace hspace)
  have hskip := congrArg skipSpace heq
  rw [skipSpace_cons_of_nameLike hname, htext, skipSpace_append h.gap hstart] at hskip
  have hnone : '=' ∉ a.name.written ++ a.beforeEquals := by
    rw [List.mem_append, not_or]
    constructor
    · exact fun hmem => absurd (h.name.isClosingNameCharacter '=' hmem) (by decide)
    · exact fun hmem => absurd (h.beforeEquals '=' hmem) (by decide)
  obtain ⟨hwritten, hbehind⟩ :=
    Text.append_cons_inj hnone (fun hmem => hname.2 '=' hmem (by decide)) hskip
  have hbefore : a.beforeEquals = [] :=
    List.eq_nil_iff_forall_not_mem.2 fun c hc =>
      hname.2 c (hwritten ▸ List.mem_append_right _ hc)
        (mem_nameEnds_of_isSpace (h.beforeEquals c hc))
  rw [hbefore, List.append_nil] at hwritten
  exact ⟨hwritten, hbehind⟩

/-- Between double quotes that it does not hold, a value is what stands there. -/
theorem value_of_text (h : a.Valid) {uri more : List Char} (huri : '"' ∉ uri)
    (heq : a.afterEquals ++ a.quote :: (a.value.flatMap Spelled.text ++ a.quote :: rest) =
      '"' :: (uri ++ '"' :: more)) :
    a.quote = '"' ∧ a.value.flatMap Spelled.text = uri ∧ rest = more := by
  have hstart : ¬isSpace a.quote := by
    rcases h.quote with hquote | hquote
    · rw [hquote]
      decide
    · rw [hquote]
      decide
  have hskip := congrArg skipSpace heq
  rw [skipSpace_append h.afterEquals (by rintro c ⟨⟩; exact hstart)] at hskip
  obtain ⟨hquote, hrest⟩ := List.cons.inj (show _ :: _ = '"' :: (uri ++ '"' :: more) from hskip)
  rw [hquote] at hrest
  have hnone : '"' ∉ a.value.flatMap Spelled.text := by
    rw [List.mem_flatMap]
    rintro ⟨s, hs, hmem⟩
    obtain ⟨hvalid, hne⟩ := h.value s hs
    exact hvalid.notMem_text (by decide) (hquote ▸ hne) hmem
  exact ⟨hquote, Text.append_cons_inj hnone huri hrest⟩

end WrittenAttribute.Valid

/-- Attributes whose text begins like declarations of the wrapper are these declarations, and maybe
more. -/
theorem exists_attribute_of_text {attributes : List WrittenAttribute}
    {declared : List (Name × List Char)} {trailing rest more : List Char} {selfClosing : Bool}
    (hvalid : ∀ a ∈ attributes, a.Valid) (htrailing : IsSpaces trailing)
    (hdeclared : ∀ pair ∈ declared, NameLike pair.1.written ∧ '"' ∉ pair.2)
    (heq : attributes.flatMap WrittenAttribute.text ++ (trailing ++ (tagEnd selfClosing ++ rest)) =
      (declared.map fun pair => Markup.declaration pair.1 pair.2).flatMap WrittenAttribute.text ++
        more) :
    ∀ pair ∈ declared, ∃ a ∈ attributes, a.name.written = pair.1.written ∧ a.quote = '"' ∧
      a.value.flatMap Spelled.text = pair.2 := by
  induction declared generalizing attributes with
  | nil => exact fun pair hmem => absurd hmem List.not_mem_nil
  | cons first declared ih =>
      obtain ⟨⟨hname, huri⟩, hdeclared⟩ := List.forall_mem_cons.1 hdeclared
      rw [List.map_cons, List.flatMap_cons, Markup.text_declaration, List.append_assoc,
        List.cons_append, List.append_assoc, List.cons_append, List.cons_append, List.append_assoc,
        List.singleton_append] at heq
      cases attributes with
      | nil =>
          -- A tag does not end where the name of an attribute stands.
          exfalso
          obtain ⟨c, cs, hend, hc⟩ : ∃ c cs, tagEnd selfClosing ++ rest = c :: cs ∧
              c ∈ ['/', '>'] := by
            cases selfClosing with
            | false => exact ⟨'>', rest, rfl, by decide⟩
            | true => exact ⟨'/', '>' :: rest, rfl, by decide⟩
          have hskip := congrArg skipSpace heq
          rw [skipSpace_cons_of_nameLike hname, List.flatMap_nil, List.nil_append, hend,
            skipSpace_append htrailing] at hskip
          · obtain ⟨letter, letters, hletters⟩ := List.exists_cons_of_ne_nil hname.1
            rw [hletters, List.cons_append] at hskip
            refine hname.2 letter (hletters ▸ List.mem_cons_self) ?_
            rw [← (List.cons.inj hskip).1]
            exact List.mem_append_right [' ', '\t', '\n', '\r', '='] hc
          · rintro d ⟨⟩ hspace
            exact notMem_of_all (by decide) hspace hc
      | cons a attributes =>
          obtain ⟨ha, hvalid⟩ := List.forall_mem_cons.1 hvalid
          rw [List.flatMap_cons, List.append_assoc] at heq
          obtain ⟨hwritten, hbody⟩ := ha.name_of_text hname heq
          obtain ⟨hquote, hvalue, hbehind⟩ := ha.value_of_text huri hbody
          refine List.forall_mem_cons.2
            ⟨⟨a, List.mem_cons_self, hwritten, hquote, hvalue⟩, fun pair hmem => ?_⟩
          obtain ⟨b, hb, hrest⟩ := ih hvalid hdeclared hbehind pair hmem
          exact ⟨b, List.mem_cons_of_mem a hb, hrest⟩

end Xml

namespace Markup

open Xml

/-! ## What a wrapper that is read declares -/

/-- A prefix and a namespace name that the wrapper may declare. -/
def Writable (pair : String × String) : Prop :=
  ∃ binding : Binding, binding.Valid ∧ binding.written = pair

section

variable {namespaces others : List (String × String)} {content : String} {elements : List Element}

/-- The declarations of a wrapper with the names of their attributes. -/
def namedDeclarations (namespaces : List (String × String)) : List (Name × List Char) :=
  (⟨none, xmlnsName⟩, svgNamespace.toList) ::
    (wrapperDeclarations namespaces).map fun pair =>
      (⟨some xmlnsName, pair.1.toList⟩, pair.2.toList)

theorem attributes_wrapperTag : (wrapperTag namespaces).attributes =
    (namedDeclarations namespaces).map fun pair => declaration pair.1 pair.2 := by
  rw [namedDeclarations, List.map_cons, List.map_map]
  rfl

theorem nameLike_of_mem_namedDeclarations (hnamespaces : ∀ pair ∈ namespaces, Extracted pair) :
    ∀ pair ∈ namedDeclarations namespaces, NameLike pair.1.written ∧ '"' ∉ pair.2 := by
  have hdefault : NameLike (Name.mk none xmlnsName).written :=
    ⟨List.cons_ne_nil _ _, notMem_nameEnds_of_all (by decide)⟩
  have huri : '"' ∉ svgNamespace.toList := by decide
  refine List.forall_mem_cons.2 ⟨⟨hdefault, huri⟩, ?_⟩
  rw [List.forall_mem_map]
  intro pair hpair
  have hextracted := extracted_of_mem hnamespaces pair hpair
  refine ⟨⟨List.cons_ne_nil _ _, fun c hc => ?_⟩, fun hquote => ?_⟩
  · rcases List.mem_append.1 (show c ∈ (xmlnsName ++ [':']) ++ pair.1.toList from hc) with hc | hc
    · exact notMem_nameEnds_of_all (by decide) c hc
    · exact notMem_of_all (by decide +kernel) (hextracted.name c hc)
  · exact absurd (hextracted.uri '"' hquote).1 (by decide)

/-- **What is declared in a wrapper that is read may be declared.** -/
theorem writable_of_readDocument (hnamespaces : ∀ pair ∈ namespaces, Extracted pair)
    (h : readDocument (wrap namespaces content).toList = .ok elements) :
    ∀ pair ∈ wrapperDeclarations namespaces, Writable pair := by
  obtain ⟨tag, behind, next, -, hread, htake, -⟩ := opening_of_readDocument h
  obtain ⟨scope, hcheck, -⟩ := State.enter_eq_ok htake
  obtain ⟨-, hname⟩ := end_of_readTag_wrapperTag hnamespaces hread (known_of_check hcheck)
  obtain ⟨written, hvalid, htext, hreads⟩ := written_of_readTag hread (known_of_check hcheck)
  have hallowed := (Tag.wellFormed_of_check hreads hcheck).declarations
  -- The tag was written, and it was read: both spell the same attributes behind the same name.
  have hattributes : written.attributes.flatMap WrittenAttribute.text ++
      (written.trailing ++ (tagEnd tag.selfClosing ++ behind)) =
        (wrapperTag namespaces).attributes.flatMap WrittenAttribute.text ++
          (tagEnd false ++ (content.toList ++ wrapperEnd.toList)) := by
    have hwritten : written.name.written = (wrapperTag namespaces).name.written := by
      rw [← hreads.name, hname]
      rfl
    rw [WrittenTag.text, WrittenTag.text, hwritten] at htext
    simp only [List.append_assoc] at htext
    exact (List.append_cancel_left htext).symm
  rw [attributes_wrapperTag] at hattributes
  intro pair hpair
  obtain ⟨a, ha, hwritten, hquote, hvalue⟩ := exists_attribute_of_text hvalid.attributes
    hvalid.trailing (nameLike_of_mem_namedDeclarations hnamespaces) hattributes
    (⟨some xmlnsName, pair.1.toList⟩, pair.2.toList)
    (List.mem_cons_of_mem _ (List.mem_map_of_mem hpair))
  have ha' := hvalid.attributes a ha
  have hname := ha'.name.eq_of_written isSimpleName_xmlnsName.colon_notMem hwritten
  refine ⟨(pair.1.toList, a.value), ⟨?_, ?_, ?_⟩, ?_⟩
  · have hlocal := ha'.name.localPart
    rwa [hname] at hlocal
  · exact hquote ▸ ha'.value
  · exact hallowed a ha _ (by rw [hname]; exact declared?_xmlns _)
  · rw [Binding.written, hvalue, String.ofList_toList, String.ofList_toList]

/-! ## Wrappers that declare more -/

theorem wrapperDeclarations_wrapperDeclarations (namespaces : List (String × String)) :
    wrapperDeclarations (wrapperDeclarations namespaces) = wrapperDeclarations namespaces :=
  KeyedList.setAll_setAll _ _

theorem wrap_wrapperDeclarations (namespaces : List (String × String)) (content : String) :
    wrap (wrapperDeclarations namespaces) content = wrap namespaces content := by
  rw [wrap, wrap, wrapperStart, wrapperStart, wrapperDeclarations_wrapperDeclarations]

/-- The state inside of a wrapper with its prefixes in scope. -/
def insideWrapper (scope : Scope) : State :=
  ⟨[⟨wrapperName.toList, scope⟩], [⟨wrapperName.toList, []⟩]⟩

theorem extends_insideWrapper {larger scope : Scope} (h : larger.Extends scope) :
    (insideWrapper larger).Extends (insideWrapper scope) where
  frames := .cons ⟨rfl, h⟩ .nil
  elements := rfl

theorem readDocument_wrap_eq {given : List Binding} (h : ∀ binding ∈ given, binding.Valid)
    (content : String) : readDocument (wrap (given.map Binding.written) content).toList =
      readContent (insideWrapper (Scope.initial.declaring (boundTag given).attributes))
        (content.toList ++ wrapperEnd.toList) := by
  have htext : (wrap (given.map Binding.written) content).toList =
      '<' :: ((boundTag given).text ++ (tagEnd false ++
        (content.toList ++ wrapperEnd.toList))) := by
    rw [wrap, String.toList_append, String.toList_append, toList_wrapperStart_written]
    simp [tagEnd]
  rw [htext, readDocument_opening (valid_boundTag h) (wellFormed_boundTag h), element_boundTag]
  rfl

/-- **More bindings bind all that fewer ones do.** -/
theorem extends_boundTag {given larger : List Binding} (hvalid : ∀ binding ∈ larger, binding.Valid)
    (hnodup : (given.map (·.1)).Nodup) (hnodup' : (larger.map (·.1)).Nodup)
    (hxlink : Binding.xlink.resolved.1 ∈ given.map (·.1))
    (hsubset : ∀ binding ∈ given, binding ∈ larger) :
    (Scope.initial.declaring (boundTag larger).attributes).Extends
      (Scope.initial.declaring (boundTag given).attributes) := by
  have hkeys : ∀ bindings : List Binding,
      (bindings.map Binding.resolved).map (·.1) = bindings.map (·.1) := by
    intro bindings
    rw [List.map_map]
    rfl
  rw [← hkeys] at hnodup hnodup' hxlink
  intro q uri hlookup
  rw [lookup?_boundTag, boundScope, Scope.lookup?, KeyedList.get?_append,
    KeyedList.get?_reverse hnodup] at hlookup
  rw [lookup?_boundTag, boundScope, Scope.lookup?, KeyedList.get?_append,
    KeyedList.get?_reverse hnodup']
  cases hget : KeyedList.get? (given.map Binding.resolved) q with
  | some found =>
      rw [hget, Option.some_or, Option.some.injEq] at hlookup
      obtain ⟨binding, hmem, hresolved⟩ := List.mem_map.1 (KeyedList.mem_of_get? hget)
      have hfound := KeyedList.get?_of_mem hnodup' (List.mem_map_of_mem (hsubset binding hmem))
      rw [hresolved] at hfound
      rw [hfound, Option.some_or, hlookup]
  | none =>
      -- The prefix is the one that needs no declaration, and no declaration changes it.
      have hne : Binding.xlink.resolved.1 ≠ q := by
        rintro rfl
        obtain ⟨pair, hpair, hkey⟩ := List.mem_map.1 hxlink
        rw [← hkey, KeyedList.get?_of_mem hnodup hpair] at hget
        cases hget
      rw [hget, Option.none_or, KeyedList.get?, if_neg hne] at hlookup
      obtain ⟨rfl, rfl⟩ := Prod.mk.inj (List.mem_singleton.1 (KeyedList.mem_of_get? hlookup))
      cases hdeclared : KeyedList.get? (larger.map Binding.resolved) xmlPrefix with
      | none => rfl
      | some found =>
          obtain ⟨binding, hmem, hresolved⟩ := List.mem_map.1 (KeyedList.mem_of_get? hdeclared)
          obtain ⟨hname, hfound⟩ := Prod.mk.inj hresolved
          have hxml := (hvalid binding hmem).allowed.xml.1 (congrArg some hname)
          rw [Option.some_or, ← hxml, ← hfound]
          rfl

theorem nodup_wrapperDeclarations (namespaces : List (String × String)) :
    ((wrapperDeclarations namespaces).map (·.1)).Nodup :=
  KeyedList.nodup_setAll (List.nodup_singleton "xlink")

section

-- Each declaration is taken for one and the same binding in all wrappers.
variable {binding : String × String → Binding}
  (hbinding : ∀ pair, Writable pair → (binding pair).Valid ∧ (binding pair).written = pair)

include hbinding

theorem keys_bindings {declarations : List (String × String)}
    (h : ∀ pair ∈ declarations, Writable pair) :
    (declarations.map binding).map (·.1) = (declarations.map (·.1)).map String.toList := by
  rw [List.map_map, List.map_map]
  refine List.map_congr_left fun pair hmem => ?_
  have hwritten := congrArg Prod.fst (hbinding pair (h pair hmem)).2
  show (binding pair).1 = pair.1.toList
  rw [← hwritten]
  exact String.toList_ofList.symm

theorem readDocument_wrap_bindings (h : ∀ pair ∈ wrapperDeclarations namespaces, Writable pair)
    (content : String) : readDocument (wrap namespaces content).toList =
      readContent (insideWrapper (Scope.initial.declaring
          (boundTag ((wrapperDeclarations namespaces).map binding)).attributes))
        (content.toList ++ wrapperEnd.toList) := by
  have hvalid : ∀ b ∈ (wrapperDeclarations namespaces).map binding, b.Valid := by
    rw [List.forall_mem_map]
    exact fun pair hmem => (hbinding pair (h pair hmem)).1
  have hwritten : ((wrapperDeclarations namespaces).map binding).map Binding.written =
      wrapperDeclarations namespaces := by
    rw [List.map_map]
    refine (List.map_congr_left fun pair hmem => ?_).trans (List.map_id' _)
    exact (hbinding pair (h pair hmem)).2
  rw [← readDocument_wrap_eq hvalid, hwritten, wrap_wrapperDeclarations]

theorem extends_bindings (h : ∀ pair ∈ wrapperDeclarations namespaces, Writable pair)
    (h' : ∀ pair ∈ wrapperDeclarations others, Writable pair)
    (hkeep : ∀ pair ∈ wrapperDeclarations namespaces, pair ∈ wrapperDeclarations others) :
    (Scope.initial.declaring
      (boundTag ((wrapperDeclarations others).map binding)).attributes).Extends
      (Scope.initial.declaring
        (boundTag ((wrapperDeclarations namespaces).map binding)).attributes) := by
  have hnodup : ∀ namespaces : List (String × String),
      (((wrapperDeclarations namespaces).map (·.1)).map String.toList).Nodup := fun namespaces =>
    (nodup_wrapperDeclarations namespaces).map fun _ _ heq => String.toList_injective heq
  refine extends_boundTag ?_ ?_ ?_ ?_ ?_
  · rw [List.forall_mem_map]
    exact fun pair hmem => (hbinding pair (h' pair hmem)).1
  · rw [keys_bindings hbinding h]
    exact hnodup _
  · rw [keys_bindings hbinding h']
    exact hnodup _
  · rw [keys_bindings hbinding h]
    obtain ⟨value, rest, hfirst⟩ := KeyedList.setAll_cons ("xlink", xlinkNamespace) [] namespaces
    rw [wrapperDeclarations, hfirst]
    exact List.mem_cons_self
  · rw [List.forall_mem_map]
    exact fun pair hmem => List.mem_map_of_mem (hkeep pair hmem)

end

/-- **What is read in a wrapper is read in one that declares more.** -/
theorem readDocument_wrap_extends (hnamespaces : ∀ pair ∈ namespaces, Extracted pair)
    (hkeep : ∀ pair ∈ wrapperDeclarations namespaces, pair ∈ wrapperDeclarations others)
    (hnew : ∀ pair ∈ wrapperDeclarations others,
      pair ∈ wrapperDeclarations namespaces ∨ Writable pair)
    (h : readDocument (wrap namespaces content).toList = .ok elements) :
    readDocument (wrap others content).toList = .ok elements := by
  have hold := writable_of_readDocument hnamespaces h
  have hall : ∀ pair ∈ wrapperDeclarations others, Writable pair := fun pair hmem =>
    (hnew pair hmem).elim (hold pair) id
  have hchoice : ∀ pair, ∃ binding : Binding,
      Writable pair → binding.Valid ∧ binding.written = pair := by
    intro pair
    by_cases hpair : Writable pair
    · exact hpair.imp fun binding hbinding _ => hbinding
    · exact ⟨Binding.xlink, fun hno => absurd hno hpair⟩
  choose binding hbinding using hchoice
  rw [readDocument_wrap_bindings hbinding hold] at h
  rw [readDocument_wrap_bindings hbinding hall]
  exact readContent_extends
    (extends_insideWrapper (extends_bindings hbinding hold hall hkeep)) h

/-! ## Declarations of both wrappers -/

/-- What a wrapper declares for a prefix is what is given for it last. -/
theorem mem_wrapperDeclarations_iff {pair : String × String} :
    pair ∈ wrapperDeclarations namespaces ↔ (KeyedList.get? namespaces.reverse pair.1).or
      (KeyedList.get? [("xlink", xlinkNamespace)] pair.1) = some pair.2 := by
  rw [KeyedList.mem_iff_get? (nodup_wrapperDeclarations namespaces), wrapperDeclarations,
    KeyedList.get?_setAll]

section

variable {front behind : List (String × String)} {pair : String × String}

theorem get?_reverse_insert (hnew : pair.1 ∉ (front ++ behind).map (·.1)) (q : String) :
    KeyedList.get? (front ++ pair :: behind).reverse q =
      if pair.1 = q then some pair.2 else KeyedList.get? (front ++ behind).reverse q := by
  have hbehind : KeyedList.get? behind.reverse pair.1 = none := by
    rw [List.map_append, List.mem_append, not_or] at hnew
    refine KeyedList.get?_of_notMem ?_
    rw [List.map_reverse, List.mem_reverse]
    exact hnew.2
  rw [List.reverse_append, List.reverse_cons, List.reverse_append, KeyedList.get?_append,
    KeyedList.get?_append, KeyedList.get?_append, KeyedList.get?]
  by_cases heq : pair.1 = q
  · rw [if_pos heq, if_pos heq, ← heq, hbehind]
    rfl
  · rw [if_neg heq, if_neg heq, KeyedList.get?, Option.or_none]

theorem mem_wrapperDeclarations_insert (hxlink : pair.1 ≠ "xlink")
    (hnew : pair.1 ∉ (front ++ behind).map (·.1)) {other : String × String} :
    other ∈ wrapperDeclarations (front ++ pair :: behind) ↔
      other = pair ∨ other ∈ wrapperDeclarations (front ++ behind) := by
  rw [mem_wrapperDeclarations_iff, mem_wrapperDeclarations_iff, get?_reverse_insert hnew]
  by_cases heq : pair.1 = other.1
  · have hnone : KeyedList.get? (front ++ behind).reverse other.1 = none := by
      refine KeyedList.get?_of_notMem ?_
      rwa [List.map_reverse, List.mem_reverse, ← heq]
    have hlinks : KeyedList.get? [("xlink", xlinkNamespace)] other.1 = none :=
      if_neg fun hkey => hxlink (heq.trans hkey.symm)
    rw [if_pos heq, hnone, hlinks, Option.some_or, Option.some.injEq, or_iff_left (by rintro ⟨⟩)]
    exact ⟨fun huri => Prod.ext heq.symm huri.symm, fun h => h ▸ rfl⟩
  · have hne : other ≠ pair := fun h => heq (h ▸ rfl)
    rw [if_neg heq, or_iff_right hne]

end

/-- The order of declarations of different prefixes does not count. -/
theorem mem_wrapperDeclarations_of_filter
    (h : ∀ q, others.filter (·.1 = q) = namespaces.filter (·.1 = q)) {pair : String × String} :
    pair ∈ wrapperDeclarations others ↔ pair ∈ wrapperDeclarations namespaces := by
  rw [mem_wrapperDeclarations_iff, mem_wrapperDeclarations_iff, ← KeyedList.get?_filter,
    List.filter_reverse, h, ← List.filter_reverse, KeyedList.get?_filter]

/-! ## Answers -/

theorem structureOffence?_of_read (hcontent : content.isEmpty = false)
    (h : readDocument (wrap namespaces content).toList = .ok elements) :
    structureOffence? namespaces content = elements.findSome? elementOffence? := by
  rw [structureOffence?, hcontent]
  simp only [Bool.false_eq_true, if_false, h]

/-- Whether an answer is that the markup is not well-formed in its wrapper. -/
def IsMalformed (answer : Except LimitFault (Option Offence)) : Prop :=
  ∃ problem position, answer = .ok (some (.malformed problem position))

/-- Markup that is well-formed in both of two wrappers has one answer in both. -/
theorem offence?_eq_of_read {limit : Json}
    (h : ∀ elements, readDocument (wrap namespaces content).toList = .ok elements →
      readDocument (wrap others content).toList = .ok elements)
    (hanswer : ¬IsMalformed (offence? limit namespaces content)) :
    offence? limit others content = offence? limit namespaces content := by
  rw [offence?] at hanswer ⊢
  rw [offence?]
  cases hsize : limit.exceededBy? content.utf8ByteSize with
  | none => rfl
  | some exceeded =>
      cases exceeded with
      | true => rfl
      | false =>
          simp only [hsize] at hanswer ⊢
          cases hcontent : content.isEmpty with
          | true => simp only [structureOffence?, hcontent, if_true]
          | false =>
              cases hread : readDocument (wrap namespaces content).toList with
              | ok elements =>
                  rw [structureOffence?_of_read hcontent hread,
                    structureOffence?_of_read hcontent (h elements hread)]
              | error fault =>
                  refine absurd ⟨fault.problem, fault.position (wrap namespaces content).toList, ?_⟩
                    hanswer
                  rw [structureOffence?, hcontent]
                  simp only [Bool.false_eq_true, if_false, hread]

/-- **More prefixes and another order do no harm.** Unless the answer is that markup is not
well-formed in its wrapper, one more prefix that may be declared gives the same answer, wherever it
stands among the others. No other answer depends on the order of different prefixes, either. -/
theorem offence_under_more_prefixes (hnamespaces : ∀ pair ∈ namespaces, Extracted pair)
    (limit : Json) (content : String) :
    (¬IsMalformed (offence? limit namespaces content) →
      ∀ front behind, namespaces = front ++ behind → ∀ pair, Declarable pair →
        pair.1 ≠ "xlink" → pair.1 ∉ namespaces.map (·.1) →
        offence? limit (front ++ pair :: behind) content = offence? limit namespaces content) ∧
    ∀ others, (∀ q, others.filter (·.1 = q) = namespaces.filter (·.1 = q)) →
      ∀ answer, ¬IsMalformed answer →
        (offence? limit others content = answer ↔ offence? limit namespaces content = answer) := by
  constructor
  · rintro hanswer front behind rfl pair hpair hxlink hnew
    refine offence?_eq_of_read (fun elements => ?_) hanswer
    refine readDocument_wrap_extends hnamespaces (fun other hmem => ?_) fun other hmem => ?_
    · exact (mem_wrapperDeclarations_insert hxlink hnew).2 (Or.inr hmem)
    · refine ((mem_wrapperDeclarations_insert hxlink hnew).1 hmem).symm.imp_right ?_
      rintro rfl
      exact ⟨Binding.plain other, hpair.valid, written_plain other⟩
  · intro others hothers answer hanswer
    have hextracted : ∀ pair ∈ others, Extracted pair := by
      intro pair hpair
      have hmem : pair ∈ others.filter (·.1 = pair.1) := List.mem_filter.2 ⟨hpair, by simp⟩
      rw [hothers] at hmem
      exact hnamespaces pair (List.mem_filter.1 hmem).1
    have hmem : ∀ {pair}, pair ∈ wrapperDeclarations others ↔
        pair ∈ wrapperDeclarations namespaces := mem_wrapperDeclarations_of_filter hothers
    constructor
    · rintro rfl
      exact offence?_eq_of_read (fun elements => readDocument_wrap_extends hextracted
        (fun pair => hmem.1) fun pair hpair => Or.inl (hmem.2 hpair)) hanswer
    · rintro rfl
      exact offence?_eq_of_read (fun elements => readDocument_wrap_extends hnamespaces
        (fun pair => hmem.2) fun pair hpair => Or.inl (hmem.1 hpair)) hanswer

/-- A group with a prefix of its own, and with two attributes of one local name. -/
def shadowedGroup : String :=
  "<b:g xmlns:b=\"v\" a:x=\"1\" b:x=\"2\" onclick=\"3\"/>"

/-- The group is read with its own prefix, also when the wrapper declares that prefix for the
namespace name of the other one. -/
theorem offence_under_more_prefixes_shadowed :
    offence? (.integer 100) [("a", "u"), ("c", "w")] shadowedGroup =
        .ok (some (.eventHandler "onclick" "g")) ∧
      offence? (.integer 100) [("a", "u"), ("b", "u"), ("c", "w")] shadowedGroup =
        .ok (some (.eventHandler "onclick" "g")) ∧
      offence? (.integer 100) [("c", "w"), ("a", "u")] shadowedGroup =
        .ok (some (.eventHandler "onclick" "g")) := by
  have hextracted : ∀ pair ∈ [("a", "u"), ("c", "w")], Extracted pair := by
    have hall : [("a", "u"), ("c", "w")].all fun pair =>
        pair.1.toList.all Graphic.isPrefixCharacter &&
          pair.2.toList.all fun c => !Graphic.isQuote c && c ≠ '>' := by
      decide
    intro pair hpair
    have hboth := List.all_eq_true.1 hall pair hpair
    rw [Bool.and_eq_true, List.all_eq_true, List.all_eq_true] at hboth
    exact ⟨hboth.1, fun c hc => by simpa using hboth.2 c hc⟩
  have hread : readDocument (wrap [("a", "u"), ("c", "w")] shadowedGroup).toList =
      .ok [⟨wrapperName.toList, []⟩, ⟨['g'], [['x'], ['x'], "onclick".toList]⟩] := by
    decide +kernel
  -- One answer is computed; the others follow without reading again.
  have hanswer : offence? (.integer 100) [("a", "u"), ("c", "w")] shadowedGroup =
      .ok (some (.eventHandler "onclick" "g")) := by
    have hsize : Json.exceededBy? (.integer 100) shadowedGroup.utf8ByteSize = some false := by
      decide
    rw [offence?]
    simp only [hsize]
    rw [structureOffence?_of_read (by decide) hread]
    rfl
  have hmalformed : ¬IsMalformed (.ok (some (.eventHandler "onclick" "g"))) := by
    rintro ⟨problem, position, ⟨⟩⟩
  have hpair : Declarable ("b", "u") := {
    name := isSimpleName_of_all (by decide) (by decide)
    not_xml := by decide
    not_xmlns := by decide
    uri_ne := by decide
    uri := by
      intro c hc
      rw [List.mem_singleton.1 hc]
      decide
    not_xmlNamespace := by decide
    not_xmlnsNamespace := by decide }
  obtain ⟨hmore, horder⟩ := offence_under_more_prefixes hextracted (.integer 100) shadowedGroup
  refine ⟨hanswer, ?_, (horder _ (fun q => ?_) _ hmalformed).2 hanswer⟩
  · exact (hmore (hanswer ▸ hmalformed) [("a", "u")] [("c", "w")] rfl ("b", "u") hpair (by decide)
      (by decide)).trans hanswer
  · by_cases ha : "a" = q
    · simp [← ha]
    · simp [List.filter_cons, ha]

end

end Markup

end IconForge
