import Mathlib
import IconForge.Proofs.Graphic.Extraction
import IconForge.Proofs.Markup.Wrapper

set_option autoImplicit false

/-! # Clean icons pass the check

The markup of an icon is checked in a wrapper that copies the declarations of the root, and those
were found by a search through the plain text of the opening tag. For an icon that is written from
attributes and a forest both views agree: the search finds the attributes that were written, and
the forest that is well-formed under the root is read through in the wrapper. So a clean icon is
extracted and its markup has no offence (`extract_and_check_clean`). -/

namespace IconForge.Markup

open Xml Graphic Text

/-! ## No closing tag of the root in a forest -/

theorem isBlank_of_isNameCharacter {c : Char} (h : isNameCharacter c) : isBlank c = false := by
  have hall : blankCodes.all (fun code => !isNameCharacter (Char.ofNat code)) := by
    decide
  rw [← Bool.not_eq_true]
  intro hblank
  have hno := List.all_eq_true.1 hall c.toNat (mem_blankCodes hblank)
  rw [Char.ofNat_toNat, h] at hno
  cases hno

theorem of_mem_written {name : Name} (h : name.Valid) {c : Char} (hc : c ∈ name.written) :
    isBlank c = false ∧ c ≠ '>' ∧ c ≠ '<' := by
  have hname := h.isClosingNameCharacter c hc
  refine ⟨?_, ?_, ?_⟩
  · rw [isClosingNameCharacter, Bool.or_eq_true, decide_eq_true_eq] at hname
    rcases hname with hname | rfl
    · exact isBlank_of_isNameCharacter hname
    · decide
  · rintro rfl
    rw [isClosingNameCharacter_of_mem_nameStops (by decide) (by decide)] at hname
    cases hname
  · rintro rfl
    rw [isClosingNameCharacter_of_mem_nameStops (by decide) (by decide)] at hname
    cases hname

/-- A closing tag closes the root only when it has the root's name. -/
theorem eq_of_isCloser {name : Name} {trailing rest : List Char} (h : name.Valid)
    (htrailing : IsSpaces trailing)
    (hcloser : isCloser ('<' :: '/' :: (name.written ++ (trailing ++ '>' :: rest)))) :
    name.written.map foldCase = ['s', 'v', 'g'] := by
  obtain ⟨tag, behind, ⟨front, blanks, rfl, hfront, hblanks⟩, heq⟩ := isCloser_iff.1 hcloser
  obtain ⟨a, front, rfl, -, hfront⟩ := List.map_eq_cons_iff.1 hfront
  obtain ⟨b, front, rfl, -, hfront⟩ := List.map_eq_cons_iff.1 hfront
  have hsplit : name.written ++ (trailing ++ '>' :: rest) = front ++ (blanks ++ '>' :: behind) := by
    simp only [List.cons_append, List.cons.injEq, List.append_assoc, List.nil_append] at heq
    exact heq.2.2
  obtain ⟨d, cs, hcs, hd, -⟩ := exists_stop_of_spaces htrailing
    (show '>' ∈ nameStops by decide) (by decide) rest
  -- The name of the tag does not go on with white space or a bracket.
  have hstop : d ∉ front := by
    intro hmem
    have hletter : foldCase d ∈ ['s', 'v', 'g'] := by
      rw [← hfront]
      exact List.mem_map_of_mem hmem
    have hlower : (foldCase d).isLower := by
      simp only [List.mem_cons, List.not_mem_nil, or_false] at hletter
      rcases hletter with hletter | hletter | hletter
      · rw [hletter]; decide
      · rw [hletter]; decide
      · rw [hletter]; decide
    rw [nameStops] at hd
    simp only [List.mem_cons, List.not_mem_nil, or_false] at hd
    rcases hd with rfl | rfl | rfl | rfl | rfl | rfl | rfl | rfl | rfl | rfl | rfl | rfl | rfl |
      rfl | rfl | rfl
    all_goals exact absurd hlower (by decide)
  rw [hcs] at hsplit
  obtain ⟨more, hmore, hbehind⟩ := exists_append_of_notMem hsplit hstop
  cases more with
  | nil => rwa [hmore, List.append_nil]
  | cons c more =>
      -- The name would go on where the tag has a blank or its bracket.
      exfalso
      have hc := of_mem_written h (c := c) (by rw [hmore]; simp)
      cases blanks with
      | nil =>
          rw [List.nil_append, List.cons_append, List.cons.injEq] at hbehind
          exact hc.2.1 hbehind.1.symm
      | cons d blanks =>
          rw [List.cons_append, List.cons_append, List.cons.injEq] at hbehind
          rw [← hbehind.1, hblanks d List.mem_cons_self] at hc
          cases hc.1

theorem notMem_of_isSpaces {spaces : List Char} (h : IsSpaces spaces) : '<' ∉ spaces :=
  fun hmem => absurd (h '<' hmem) (by decide)

theorem lt_notMem_spelled {s : Spelled} (h : s.Valid) : '<' ∉ s.text := by
  refine h.notMem_text (by decide) ?_
  rintro rfl
  exact h.2.1 rfl

theorem lt_notMem_attribute {a : WrittenAttribute} (h : a.Valid) : '<' ∉ a.text := by
  have hquote : '<' ≠ a.quote := by
    intro heq
    rcases h.quote with hquote | hquote
    · rw [hquote] at heq
      cases heq
    · rw [hquote] at heq
      cases heq
  simp only [WrittenAttribute.text, WrittenAttribute.body, List.mem_append, List.mem_cons,
    List.mem_flatMap, List.not_mem_nil, or_false]
  rintro (hmem | hmem | hmem | heq | hmem | heq | ⟨s, hs, hmem⟩ | heq)
  · exact notMem_of_isSpaces h.gap hmem
  · exact (of_mem_written h.name hmem).2.2 rfl
  · exact notMem_of_isSpaces h.beforeEquals hmem
  · cases heq
  · exact notMem_of_isSpaces h.afterEquals hmem
  · exact hquote heq
  · exact lt_notMem_spelled (h.value s hs).1 hmem
  · exact hquote heq

theorem lt_notMem_tag {tag : WrittenTag} (h : tag.Valid) : '<' ∉ tag.text := by
  simp only [WrittenTag.text, List.mem_append, List.mem_flatMap]
  rintro (hmem | ⟨a, ha, hmem⟩ | hmem)
  · exact (of_mem_written h.name hmem).2.2 rfl
  · exact lt_notMem_attribute (h.attributes a ha) hmem
  · exact notMem_of_isSpaces h.trailing hmem

theorem not_isCloser_opening {tag : WrittenTag} (h : tag.Valid) (rest : List Char) :
    ¬ isCloser ('<' :: (tag.text ++ rest)) := by
  intro hcloser
  obtain ⟨closing, behind, ⟨front, blanks, rfl, hfront, -⟩, heq⟩ := isCloser_iff.1 hcloser
  obtain ⟨a, front, rfl, -, hfront⟩ := List.map_eq_cons_iff.1 hfront
  obtain ⟨b, front, rfl, hb, -⟩ := List.map_eq_cons_iff.1 hfront
  obtain ⟨first, tail, hname, hfirst⟩ := h.name.exists_cons
  rw [WrittenTag.text, hname] at heq
  simp only [List.cons_append, List.cons.injEq] at heq
  have hsolidus : b = '/' := eq_of_foldCase_eq hb (by decide)
  rw [heq.2.1, hsolidus] at hfirst
  exact notMem_nameStops_of_isNameStart hfirst (by decide)

/-- A tag that opens an element, or that closes itself, is no closing tag and holds none. -/
theorem not_holdsClosingTag_opening {tag : WrittenTag} (h : tag.Valid) {stop rest : List Char}
    (hstop : '<' ∉ stop) (hrest : ¬ HoldsClosingTag rest) :
    ¬ HoldsClosingTag ('<' :: ((tag.text ++ stop) ++ rest)) := by
  have hopening : ¬ isCloser ('<' :: ((tag.text ++ stop) ++ rest)) := by
    rw [List.append_assoc]
    exact not_isCloser_opening h _
  rw [holdsClosingTag_cons, not_or]
  refine ⟨hopening, fun hbehind => hrest (hbehind.of_append ?_)⟩
  rw [List.mem_append, not_or]
  exact ⟨lt_notMem_tag h, hstop⟩

/-- The closing tag of an element that is not named like the root. -/
theorem not_holdsClosingTag_closing {name : Name} (h : name.Valid)
    (hname : name.written.map foldCase ≠ ['s', 'v', 'g']) {trailing rest : List Char}
    (htrailing : IsSpaces trailing) (hrest : ¬ HoldsClosingTag rest) :
    ¬ HoldsClosingTag ('<' :: '/' :: (name.written ++ (trailing ++ '>' :: rest))) := by
  have hsplit : '/' :: (name.written ++ (trailing ++ '>' :: rest)) =
      ('/' :: (name.written ++ (trailing ++ ['>']))) ++ rest := by
    simp
  rw [holdsClosingTag_cons, not_or]
  refine ⟨fun hcloser => hname (eq_of_isCloser h htrailing hcloser), ?_⟩
  rw [hsplit]
  refine fun hbehind => hrest (hbehind.of_append ?_)
  simp only [List.mem_cons, List.mem_append, List.not_mem_nil, or_false]
  rintro (heq | hmem | hmem | heq)
  · cases heq
  · exact (of_mem_written h hmem).2.2 rfl
  · exact notMem_of_isSpaces htrailing hmem
  · cases heq

/-- **The text of a forest holds no closing tag of the root** when no element has the root's
name. -/
theorem not_holdsClosingTag_text {forest : Forest} (hvalid : forest.Valid)
    (hnames : ∀ name ∈ forest.closedNames, name.written.map foldCase ≠ ['s', 'v', 'g'])
    {rest : List Char} (hrest : ¬ HoldsClosingTag rest) :
    ¬ HoldsClosingTag (forest.text ++ rest) := by
  induction forest generalizing rest with
  | empty => exact hrest
  | character s forest ih =>
      rw [Forest.text, List.append_assoc]
      intro h
      exact ih hvalid.2.2 hnames hrest (h.of_append (lt_notMem_spelled hvalid.1))
  | element tag content trailing forest ihContent ihForest =>
      obtain ⟨htag, hcontent, htrailing, hforest⟩ := hvalid
      simp only [Forest.closedNames, List.mem_cons, List.mem_append] at hnames
      -- From behind: what follows the element, its closing tag, its content and its own tag.
      have hbehind : ¬ HoldsClosingTag (forest.text ++ rest) :=
        ihForest hforest (fun name hmem => hnames name (Or.inr (Or.inr hmem))) hrest
      have hclosing := not_holdsClosingTag_closing htag.name (hnames tag.name (Or.inl rfl))
        htrailing hbehind
      have hinside := ihContent hcontent
        (fun name hmem => hnames name (Or.inr (Or.inl hmem))) hclosing
      simpa [Forest.text] using not_holdsClosingTag_opening htag (by decide : '<' ∉ ['>']) hinside
  | leaf tag forest ih =>
      obtain ⟨htag, hforest⟩ := hvalid
      have hbehind := ih hforest hnames hrest
      simpa [Forest.text] using
        not_holdsClosingTag_opening htag (by decide : '<' ∉ ['/', '>']) hbehind

/-! ## Clean roots and clean forests -/

/-- The prefixes that the attributes of a root declare, with their namespace names. -/
def namespacesOf (attributes : List RootAttribute) : List (String × String) :=
  (Graphic.declarationsOf attributes).map fun (name, value) =>
    (String.ofList name, String.ofList value)

/-- The name of the view box without case. -/
def viewBoxName : List Char :=
  "viewbox".toList

/-- The attributes of a root have different names, legal values and declarations that keep to the
rules, and a view box among them is four finite numbers. -/
structure CleanRoot (attributes : List RootAttribute) : Prop where
  valid : ∀ a ∈ attributes, a.Valid
  distinct : (attributes.map fun a => a.name.text.map foldCase).Nodup
  legal : ∀ a ∈ attributes, ∀ c ∈ a.value, isLegal c
  prefixes : ∀ a ∈ attributes, ∀ word, a.name = .declared word →
    word ≠ xmlPrefix ∧ word ≠ xmlnsName ∧ word.map foldCase ≠ viewBoxName
  namespaces : ∀ a ∈ attributes, ∀ word, a.name = .declared word →
    a.value ≠ [] ∧ a.value ≠ xmlNamespace ∧ a.value ≠ xmlnsNamespace
  viewBox : ∀ a ∈ attributes, a.name.text.map foldCase = viewBoxName →
    (viewBoxOfValue? a.value).isSome

/-- A forest may be written, keeps to the rules for namespaces, closes no element with the name of
the root and has neither scripts nor event handlers. -/
structure CleanForest (scope : Scope) (forest : Forest) : Prop where
  valid : forest.Valid
  wellFormed : forest.WellFormed scope
  noRoot : ∀ name ∈ forest.closedNames, name.written.map foldCase ≠ ['s', 'v', 'g']
  noScript : ∀ element ∈ forest.elements, small element.name ≠ ['s', 'c', 'r', 'i', 'p', 't']
  noHandler : ∀ element ∈ forest.elements, ∀ name ∈ element.attributes,
    ¬ ['o', 'n'] <+: small name

section CleanRoot

variable {attributes : List RootAttribute}

theorem mem_namespacesOf {pair : String × String} (h : pair ∈ namespacesOf attributes) :
    ∃ a ∈ attributes, a.name = .declared pair.1.toList ∧ a.value = pair.2.toList := by
  obtain ⟨⟨word, value⟩, hmem, rfl⟩ := List.mem_map.1 h
  obtain ⟨a, ha, hdeclared⟩ := List.mem_filterMap.1 hmem
  refine ⟨a, ha, ?_⟩
  cases hname : a.name with
  | plain word =>
      rw [hname] at hdeclared
      cases hdeclared
  | declared word =>
      rw [hname] at hdeclared
      cases hdeclared
      simp only [String.toList_ofList, and_self]

theorem isNameStart_of_ascii {c : Char} (h : isNameInitial c) : isNameStart c := by
  rw [isNameInitial, Bool.or_eq_true, decide_eq_true_eq] at h
  rw [isNameStart, Bool.or_eq_true, Bool.or_eq_true, decide_eq_true_eq]
  rcases h with h | h
  · refine Or.inl (Or.inr ?_)
    have hranges : [(0x41, 0x5a), (0x61, 0x7a)].all (baseCharacters.ranges.contains ·) := by
      decide
    rw [List.all_eq_true] at hranges
    rw [CharTable.contains, CharTable.rangeOf?, List.find?_isSome]
    have hletter : (0x41 ≤ c.toNat ∧ c.toNat ≤ 0x5a) ∨ (0x61 ≤ c.toNat ∧ c.toNat ≤ 0x7a) := by
      simp only [Char.isAlpha, Char.isUpper, Char.isLower, Bool.or_eq_true, Bool.and_eq_true,
        decide_eq_true_eq] at h
      exact h
    rcases hletter with hletter | hletter
    · exact ⟨(0x41, 0x5a), List.contains_iff_mem.1 (hranges _ (by simp)), by simpa using hletter⟩
    · exact ⟨(0x61, 0x7a), List.contains_iff_mem.1 (hranges _ (by simp)), by simpa using hletter⟩
  · exact Or.inl (Or.inl h)

theorem isNameCharacter_of_ascii {c : Char} (h : isDeclaredCharacter c) : isNameCharacter c := by
  rw [isDeclaredCharacter, Char.isAlphanum, Bool.or_eq_true, Bool.or_eq_true] at h
  have hstart : isNameInitial c → isNameCharacter c := fun hc =>
    isNameCharacter_of_isNameStart (isNameStart_of_ascii hc)
  rcases h with (h | h) | h
  · exact hstart (by rw [isNameInitial, h, Bool.true_or])
  · have hrange : digits.ranges.contains (0x30, 0x39) := by
      decide
    have hdigit : digits.contains c := by
      rw [CharTable.contains, CharTable.rangeOf?, List.find?_isSome]
      refine ⟨(0x30, 0x39), List.contains_iff_mem.1 hrange, ?_⟩
      simp only [Char.isDigit, Bool.and_eq_true, decide_eq_true_eq] at h ⊢
      exact h
    simp only [isNameCharacter, hdigit, Bool.or_true, Bool.true_or]
  · exact hstart (by rw [isNameInitial, h, Bool.or_true])

/-- The declarations of a clean root may be copied into the wrapper. -/
theorem CleanRoot.declarable (h : CleanRoot attributes) :
    ∀ pair ∈ namespacesOf attributes, Declarable pair := by
  intro pair hpair
  obtain ⟨a, ha, hname, hvalue⟩ := mem_namespacesOf hpair
  have hvalid := h.valid a ha
  obtain ⟨hxml, hxmlns, -⟩ := h.prefixes a ha _ hname
  obtain ⟨hne, hxmlNamespace, hxmlnsNamespace⟩ := h.namespaces a ha _ hname
  rw [hvalue] at hne hxmlNamespace hxmlnsNamespace
  constructor
  · obtain ⟨first, rest, hword, hfirst, hrest⟩ := hvalid.name
    rw [hname] at hword hrest
    exact ⟨first, rest, hword, isNameStart_of_ascii hfirst,
      fun c hc => isNameCharacter_of_ascii (hrest c hc)⟩
  · exact hxml
  · exact hxmlns
  · exact hne
  · intro c hc
    rw [← hvalue] at hc
    -- No character of a value would have to be escaped in the wrapper.
    have hcharacter := hvalid.value c hc
    simp only [isValueCharacter, isQuote, Bool.not_eq_true', Bool.or_eq_false_iff,
      decide_eq_false_iff_not] at hcharacter
    obtain ⟨⟨⟨⟨⟨⟨hquote, -⟩, -⟩, hlt⟩, -⟩, hamp⟩, hbrace⟩ := hcharacter
    exact ⟨h.legal a ha c hc, hlt, hamp, hquote, hbrace⟩
  · exact hxmlNamespace
  · exact hxmlnsNamespace

/-- Names that differ when case is ignored declare different prefixes. -/
theorem CleanRoot.nodup (h : CleanRoot attributes) :
    ((namespacesOf attributes).map (·.1)).Nodup := by
  have hdistinct := h.distinct
  -- Only a declaration adds a prefix.
  have hplain : ∀ (a : RootAttribute) (rest : List RootAttribute) (word : List Char),
      a.name = .plain word →
        (namespacesOf (a :: rest)).map (·.1) = (namespacesOf rest).map (·.1) := by
    intro a rest word hname
    rw [namespacesOf, Graphic.declarationsOf, List.filterMap_cons, hname]
    rfl
  have hdeclared : ∀ (a : RootAttribute) (rest : List RootAttribute) (word : List Char),
      a.name = .declared word → (namespacesOf (a :: rest)).map (·.1) =
        String.ofList word :: (namespacesOf rest).map (·.1) := by
    intro a rest word hname
    rw [namespacesOf, Graphic.declarationsOf, List.filterMap_cons, hname]
    rfl
  clear h
  induction attributes with
  | nil => exact List.nodup_nil
  | cons a rest ih =>
      rw [List.map_cons, List.nodup_cons] at hdistinct
      cases hname : a.name with
      | plain word =>
          rw [hplain a rest word hname]
          exact ih hdistinct.2
      | declared word =>
          rw [hdeclared a rest word hname]
          refine List.nodup_cons.2 ⟨?_, ih hdistinct.2⟩
          intro hmem
          obtain ⟨pair, hpair, heq⟩ := List.mem_map.1 hmem
          obtain ⟨b, hb, hbname, -⟩ := mem_namespacesOf hpair
          -- An attribute with the same prefix would have the same name.
          apply hdistinct.1
          have hword : a.name = b.name := by
            rw [hname, hbname, heq, String.toList_ofList]
          rw [hword]
          exact List.mem_map_of_mem hb

theorem CleanRoot.exists_viewBox (h : CleanRoot attributes) {trailing : List Char}
    (htrailing : ∀ c ∈ trailing, isBlank c) (defaultSize : Json) :
    ∃ box, viewBoxOf defaultSize (tagText attributes trailing) = .ok box := by
  have hlower : ∀ k ∈ viewBoxName, k.isLower :=
    List.all_eq_true.1 (show viewBoxName.all Char.isLower by decide)
  have hfind : attribute? "viewbox" (tagText attributes trailing) =
      (attributes.find? fun a => a.name.word.map foldCase = viewBoxName ∧ a.value ≠ []).map
        RootAttribute.value :=
    findAttribute?_tagText (fun a ha => (h.valid a ha).regular) htrailing (by decide) hlower
  rw [viewBoxOf, declaredViewBox?, hfind]
  cases hfound : attributes.find?
      fun a => a.name.word.map foldCase = viewBoxName ∧ a.value ≠ [] with
  | none => exact ⟨_, rfl⟩
  | some a =>
      have ha := List.mem_of_find?_eq_some hfound
      have hmatch := List.find?_some hfound
      rw [decide_eq_true_eq] at hmatch
      -- A declaration is found only under its whole name, so this is the view box itself.
      have hname : a.name.text.map foldCase = viewBoxName := by
        cases hname : a.name with
        | plain word =>
            rw [hname] at hmatch
            exact hmatch.1
        | declared word =>
            rw [hname] at hmatch
            exact absurd hmatch.1 (h.prefixes a ha word hname).2.2
      obtain ⟨box, hbox⟩ := Option.isSome_iff_exists.1 (h.viewBox a ha hname)
      refine ⟨box, ?_⟩
      simp only [Option.map_some, hbox]

end CleanRoot

theorem CleanForest.elementOffence? {scope : Scope} {forest : Forest}
    (h : CleanForest scope forest) :
    ∀ element ∈ forest.elements, Markup.elementOffence? element = none :=
  fun element helement =>
    elementOffence?_eq_none_iff.2 ⟨h.noScript element helement, h.noHandler element helement⟩

/-- Trimming leaves a clean forest without offences in its wrapper. -/
theorem structureOffence?_eq_none {namespaces : List (String × String)} {forest : Forest}
    (h : ∀ pair ∈ namespaces, Declarable pair) (hnodup : (namespaces.map (·.1)).Nodup)
    (hforest : CleanForest (declaredScope namespaces) forest) :
    structureOffence? namespaces (String.ofList (strip forest.text)) = none := by
  have hread := readDocument_wrap_forest h hnodup hforest.valid.trim hforest.wellFormed.trim
  rw [Forest.text_trim, Forest.elements_trim] at hread
  rw [structureOffence?]
  split
  · rfl
  · simp only [hread]
    rw [List.findSome?_cons, List.findSome?_eq_none_iff.2 hforest.elementOffence?]
    rfl

/-- The document of a clean root and a clean forest gives the trimmed text of the forest and all
declarations. -/
theorem extract_clean {attributes : List RootAttribute} {trailing : List Char} {forest : Forest}
    {scope : Scope} (hroot : CleanRoot attributes) (htrailing : ∀ c ∈ trailing, isBlank c)
    (hforest : CleanForest scope forest) (defaultSize : Json) :
    ∃ box, extract defaultSize (String.ofList (documentText attributes trailing forest.text)) =
      .ok ⟨box, String.ofList (strip forest.text), namespacesOf attributes⟩ := by
  have hcontent : ¬ HoldsClosingTag forest.text := by
    have happend := not_holdsClosingTag_text hforest.valid hforest.noRoot not_holdsClosingTag_nil
    rwa [List.append_nil] at happend
  obtain ⟨box, hbox⟩ := hroot.exists_viewBox htrailing defaultSize
  refine ⟨box, ?_⟩
  rw [extract_documentText (fun a ha => (hroot.valid a ha).regular) htrailing hcontent, hbox]
  rfl

/-- **A clean icon is extracted and its markup has no offence.** The document of a clean root and a
forest that is clean under its declarations gives a graphic with the trimmed text of the forest and
all declarations; and when this markup does not exceed the limit, the check of it with these
namespaces finds nothing. -/
theorem extract_and_check_clean {attributes : List RootAttribute} {trailing : List Char}
    {forest : Forest} (hroot : CleanRoot attributes) (htrailing : ∀ c ∈ trailing, isBlank c)
    (hforest : CleanForest (declaredScope (namespacesOf attributes)) forest)
    (defaultSize limit : Json) :
    ∃ graphic, extract defaultSize (String.ofList (documentText attributes trailing forest.text)) =
        .ok graphic ∧
      graphic.inner = String.ofList (strip forest.text) ∧
      graphic.namespaces = namespacesOf attributes ∧
      (limit.exceededBy? graphic.inner.utf8ByteSize = some false →
        offence? limit graphic.namespaces graphic.inner = .ok none) := by
  obtain ⟨box, hextract⟩ := extract_clean hroot htrailing hforest defaultSize
  refine ⟨_, hextract, rfl, rfl, fun hsize => ?_⟩
  rw [offence?]
  simp only [hsize]
  rw [structureOffence?_eq_none hroot.declarable hroot.nodup hforest]

/-- A root that declares the prefix `i`. -/
def labelledRoot : List RootAttribute :=
  [⟨[' '], .declared ['i'], [], [], '"', ['u']⟩]

/-- A group with an attribute that has this prefix. -/
def labelledForest : Forest :=
  .leaf ⟨⟨none, ['g']⟩, [⟨[' '], ⟨some ['i'], ['l']⟩, [], [], '"', [.plain 'x']⟩], []⟩ .empty

theorem cleanRoot_labelledRoot : CleanRoot labelledRoot := by
  have hblank : ∀ c ∈ [' '], isBlank c := List.forall_mem_singleton.2 (by decide)
  have hvalid : (RootAttribute.mk [' '] (.declared ['i']) [] [] '"' ['u']).Valid :=
    ⟨List.cons_ne_nil _ _, hblank, ⟨'i', [], rfl, by decide, List.forall_mem_nil _⟩,
      List.forall_mem_nil _, List.forall_mem_nil _, (by decide : isQuote '"'),
      List.forall_mem_singleton.2 (by decide)⟩
  refine ⟨List.forall_mem_singleton.2 hvalid, List.nodup_singleton _,
    List.forall_mem_singleton.2 (List.forall_mem_singleton.2 (by decide)), ?_, ?_, ?_⟩
  · intro a ha word hword
    rw [List.mem_singleton.1 ha] at hword
    cases hword
    decide
  · intro a ha word hword
    rw [List.mem_singleton.1 ha]
    decide
  · intro a ha hname
    rw [List.mem_singleton.1 ha] at hname
    exact absurd hname (by decide)

theorem valid_labelledAttribute :
    (WrittenAttribute.mk [' '] ⟨some ['i'], ['l']⟩ [] [] '"' [.plain 'x']).Valid := by
  refine ⟨List.cons_ne_nil _ _, List.forall_mem_singleton.2 (by decide), ⟨?_, ?_⟩,
    List.forall_mem_nil _, List.forall_mem_nil _, Or.inl rfl,
    List.forall_mem_singleton.2 ⟨⟨by decide, by decide, by decide⟩, by decide⟩⟩
  · rintro q ⟨⟩
    exact isSimpleName_singleton (by decide)
  · exact isSimpleName_singleton (by decide)

theorem cleanForest_labelledForest :
    CleanForest (declaredScope (namespacesOf labelledRoot)) labelledForest := by
  -- The parts are valid, the tag is well-formed, and its names are harmless.
  refine ⟨⟨⟨⟨?_, isSimpleName_singleton (by decide)⟩,
      List.forall_mem_singleton.2 valid_labelledAttribute, List.forall_mem_nil _⟩, trivial⟩,
    ⟨⟨List.nodup_singleton _, ?_, ?_, List.nodup_singleton _, ?_⟩, trivial⟩,
    List.forall_mem_nil _, List.forall_mem_singleton.2 (by decide), ?_⟩
  · rintro q ⟨⟩
  · intro a ha q hq
    rw [List.mem_singleton.1 ha] at hq
    cases hq
  · intro name hmem q hq
    rw [List.mem_singleton.1 hmem] at hq
    cases hq
    rfl
  · rintro q ⟨⟩
  · intro element helement name hmem
    rw [List.mem_singleton.1 helement] at hmem
    rw [List.mem_singleton.1 hmem]
    decide

/-- A labelled icon is extracted, and its markup has no offence when thirteen bytes are allowed. -/
theorem extract_and_check_labelled :
    ∃ graphic, extract .null "<svg xmlns:i=\"u\"><g i:l=\"x\"/></svg>" = .ok graphic ∧
      graphic.inner = "<g i:l=\"x\"/>" ∧ graphic.namespaces = [("i", "u")] ∧
      offence? (.integer 13) graphic.namespaces graphic.inner = .ok none := by
  obtain ⟨graphic, hextract, hinner, hnamespaces, hcheck⟩ := extract_and_check_clean
    cleanRoot_labelledRoot (fun c hc => absurd hc List.not_mem_nil) cleanForest_labelledForest
    .null (.integer 13)
  have hmarkup : graphic.inner = "<g i:l=\"x\"/>" := by
    rw [hinner]
    decide
  refine ⟨graphic, hextract, hmarkup, hnamespaces, hcheck ?_⟩
  rw [hmarkup]
  decide

end IconForge.Markup
