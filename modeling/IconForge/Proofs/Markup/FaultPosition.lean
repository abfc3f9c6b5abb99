import Mathlib
import IconForge.Proofs.Markup.Decision
import IconForge.Proofs.Number.Digits
import IconForge.Proofs.Xml.FaultPlaces
import IconForge.Proofs.Xml.Lines

set_option autoImplicit false

/-! # Positions of malformed markup

When markup is malformed in its wrapper, the answer gives a position in the wrapped text. If the
opening tag of the wrapper is well-formed by itself (`IsStartTag`), it is read whatever stands
behind it, and the fault lies behind it (`suffix_of_readDocument`): in the markup or in the closing
tag.

The position is that of the wrapped text. It is one of the markup as long as the opening tag stands
on one line: on the first line the column is that in the markup and the length of the tag together,
and on other lines nothing changes (`position_of_malformed`). White space may stand behind the name
of an attribute, so a prefix with a line end at its end gives a well-formed tag on two lines, and
then the lines of the wrapped text are not those of the markup (`position_below_markup`). -/

namespace IconForge

namespace Text

/-- What stands behind the last sign of one kind is told apart from what stands in front of it. -/
theorem append_cons_inj_of_last {c : Char} {front other behind more : List Char}
    (hbehind : c ∉ behind) (hmore : c ∉ more) (h : front ++ c :: behind = other ++ c :: more) :
    front = other ∧ behind = more := by
  have hreverse : behind.reverse ++ c :: front.reverse = more.reverse ++ c :: other.reverse := by
    simpa using congrArg List.reverse h
  obtain ⟨hback, hfront⟩ := append_cons_inj (by rwa [List.mem_reverse]) (by rwa [List.mem_reverse])
    hreverse
  exact ⟨List.reverse_injective hfront, List.reverse_injective hback⟩

/-- A number behind a blank is read off the end of a text. -/
theorem append_number_inj {front other : String} {n k : Nat}
    (h : front ++ " " ++ toString n = other ++ " " ++ toString k) : front = other ∧ n = k := by
  have hblank : ∀ n : Nat, ' ' ∉ Nat.toDigits 10 n := fun n hmem =>
    absurd (isDigit_of_mem_toDigits hmem) (by decide)
  have hspace : " ".toList = [' '] := rfl
  have hlist := congrArg String.toList h
  simp only [String.toList_append, toList_toString, hspace, List.append_assoc,
    List.singleton_append] at hlist
  obtain ⟨hfront, hdigits⟩ := append_cons_inj_of_last (hblank n) (hblank k) hlist
  refine ⟨String.toList_injective hfront, ?_⟩
  rw [← Nat.ofDigitChars_ten_toDigits (n := n), hdigits, Nat.ofDigitChars_ten_toDigits]

theorem head?_append {front : String} {c : Char} (h : front.toList.head? = some c) (s : String) :
    (front ++ s).toList.head? = some c := by
  rw [String.toList_append, List.head?_append, h]
  rfl

end Text

namespace Xml

/-! ## Behind an opening tag -/

/-- A text is a well-formed opening tag: that of a tag that may be written, leaves its element open
and keeps to the rules for namespaces. -/
def IsStartTag (cs : List Char) : Prop :=
  ∃ tag : WrittenTag, tag.Valid ∧ tag.WellFormed .initial ∧ cs = '<' :: (tag.text ++ tagEnd false)

/-- Whether a text is read as an opening tag that passes its check, with nothing behind it. -/
def readsAsStartTag (cs : List Char) : Bool :=
  match readToken cs with
  | .ok (.opening tag, []) => !tag.selfClosing && (tag.check cs .initial).isOk
  | _ => false

theorem isStartTag_iff {cs : List Char} : IsStartTag cs ↔ readsAsStartTag cs := by
  constructor
  · rintro ⟨written, hvalid, hwell, rfl⟩
    obtain ⟨tag, htag, hreads⟩ := readToken_opening hvalid false []
    rw [List.append_nil] at htag
    rw [readsAsStartTag, htag]
    simp only
    rw [hreads.selfClosing, Tag.check_of_wellFormed hreads hwell]
    rfl
  · intro h
    rw [readsAsStartTag] at h
    split at h
    · -- A tag that passes its check is one that may be written, and its text is what was read.
      next tag htoken =>
      obtain ⟨hopen, hcheck⟩ := Bool.and_eq_true_iff.1 h
      rw [Bool.not_eq_true'] at hopen
      cases hresult : tag.check cs .initial with
      | error fault =>
          rw [hresult] at hcheck
          cases hcheck
      | ok scope =>
          cases Token.from_of_readToken htoken with
          | opening hread =>
              obtain ⟨written, hvalid, htext, hreads⟩ :=
                written_of_readTag hread (known_of_check hresult)
              rw [hopen, List.append_nil] at htext
              exact ⟨written, hvalid, Tag.wellFormed_of_check hreads hresult, by rw [htext]⟩
    · cases h

instance : DecidablePred IsStartTag := fun _ => decidable_of_iff _ isStartTag_iff.symm

/-- **Behind a well-formed opening tag a fault lies behind the tag.** -/
theorem suffix_of_readDocument {opening rest : List Char} {fault : Fault}
    (hopening : IsStartTag opening) (h : readDocument (opening ++ rest) = .error fault) :
    fault.rest <:+ rest := by
  obtain ⟨tag, hvalid, hwell, rfl⟩ := hopening
  rw [List.cons_append, List.append_assoc, readDocument_opening hvalid hwell] at h
  exact suffix_of_readContent h

theorem Fault.isEndOf_position {front : List Char} (fault : Fault) :
    (fault.position (front ++ fault.rest)).IsEndOf front := by
  have hfront : (front ++ fault.rest).take ((front ++ fault.rest).length - fault.rest.length) =
      front := by
    rw [List.length_append, Nat.add_sub_cancel, List.take_left]
  rw [Fault.position, Position.ofRest, hfront]
  exact Position.isEndOf_advance front

end Xml

namespace Markup

open Text Xml

/-! ## The wording of an answer -/

/-- The wording of an answer has its position at its end. -/
theorem position_inj_of_wording {wording other : String} {line column otherLine otherColumn : Nat}
    (h : s!"Invalid XML: {wording}: line {line}, column {column}" =
      s!"Invalid XML: {other}: line {otherLine}, column {otherColumn}") :
    line = otherLine ∧ column = otherColumn := by
  have hparts : ∀ (wording : String) (line column : Nat),
      s!"Invalid XML: {wording}: line {line}, column {column}" =
        "Invalid XML: " ++ wording ++ ": line" ++ " " ++ toString line ++ ", column" ++ " " ++
          toString column := by
    intro wording line column
    show "Invalid XML: " ++ wording ++ (": line" ++ " ") ++ toString line ++ (", column" ++ " ") ++
      toString column = _
    simp only [String.append_assoc]
  rw [hparts, hparts] at h
  obtain ⟨hfront, hcolumn⟩ := append_number_inj h
  exact ⟨(append_number_inj ((String.append_left_inj ", column").1 hfront)).2, hcolumn⟩

/-- The letter that the wording of an offence begins with. -/
def Offence.initial : Offence → Char
  | .tooLarge _ _ => 'M'
  | .malformed _ _ => 'I'
  | .scriptElement => 'S'
  | .eventHandler _ _ => 'E'

theorem Offence.head?_message (offence : Offence) :
    offence.message.toList.head? = some offence.initial := by
  cases offence with
  | tooLarge size limit =>
      exact head?_append (head?_append (head?_append (head?_append rfl _) _) _) _
  | malformed problem position =>
      exact head?_append (head?_append (head?_append (head?_append (head?_append rfl _) _)
        _) _) _
  | scriptElement => decide
  | eventHandler attributeName elementName =>
      exact head?_append (head?_append (head?_append rfl _) _) _

/-- **Only malformed markup is answered by a position**, and the position can be read off. -/
theorem malformed_of_message {offence : Offence} {wording : String} {line column : Nat}
    (h : offence.message = s!"Invalid XML: {wording}: line {line}, column {column}") :
    ∃ problem, offence = .malformed problem ⟨line, column⟩ := by
  -- The wordings of the other offences begin with other letters.
  have hinitial : some offence.initial = some 'I' := by
    rw [← offence.head?_message, h]
    exact head?_append (head?_append (head?_append (head?_append (head?_append (by decide) _) _) _)
      _) _
  cases offence with
  | malformed problem position =>
      obtain ⟨otherLine, otherColumn⟩ := position
      obtain ⟨rfl, rfl⟩ := position_inj_of_wording h
      exact ⟨problem, rfl⟩
  | tooLarge size limit => cases hinitial
  | scriptElement => cases hinitial
  | eventHandler attributeName elementName => cases hinitial

/-! ## The position of an answer -/

section

variable {namespaces : List (String × String)} {content : String} {limit : Json}

/-- **Markup is malformed where its wrapped text cannot be read.** -/
theorem offence?_eq_malformed_iff {problem : Problem} {position : Position} :
    offence? limit namespaces content = .ok (some (.malformed problem position)) ↔
      limit.exceededBy? content.utf8ByteSize = some false ∧ content.isEmpty = false ∧
        ∃ fault, readDocument (wrap namespaces content).toList = .error fault ∧
          fault.problem = problem ∧ fault.position (wrap namespaces content).toList = position := by
  constructor
  · intro h
    rw [offence?] at h
    split at h
    · cases h
    · obtain ⟨_, -, ⟨⟩⟩ := sizeOffence_eq_ok h
    · next hsize =>
      have hstructure := Except.ok.inj h
      rw [structureOffence?] at hstructure
      split at hstructure
      · cases hstructure
      · next hcontent =>
        refine ⟨hsize, eq_false_of_ne_true hcontent, ?_⟩
        simp only at hstructure
        split at hstructure
        · next fault hread =>
          cases hstructure
          exact ⟨fault, hread, rfl, rfl⟩
        · -- An element that is read has another offence.
          obtain ⟨element, -, helement⟩ := List.exists_of_findSome?_eq_some hstructure
          rcases elementOffence?_eq_some_iff.1 helement with
            ⟨-, ⟨⟩⟩ | ⟨-, -, -, -, -, -, -, ⟨⟩⟩
  · rintro ⟨hsize, hcontent, fault, hread, rfl, rfl⟩
    rw [offence?]
    simp only [hsize]
    rw [structureOffence?, hcontent]
    simp only [Bool.false_eq_true, if_false, hread]

theorem toList_wrap_start : (wrap namespaces content).toList =
    (wrapperStart namespaces).toList ++ (content.toList ++ wrapperEnd.toList) := by
  rw [wrap, String.toList_append, String.toList_append, List.append_assoc]

theorem not_isLineEnd_declaration {name : Name} {uri : List Char}
    (hname : ∀ c ∈ name.written, ¬ IsLineEnd c) (huri : ∀ c ∈ uri, ¬ IsLineEnd c) :
    ∀ c ∈ (declaration name uri).text, ¬ IsLineEnd c := by
  have htext : (declaration name uri).text =
      [' '] ++ (name.written ++ (['=', '"'] ++ (uri ++ ['"']))) := text_declaration name uri
  rw [htext]
  simp only [List.forall_mem_append]
  exact ⟨not_isLineEnd_of_all rfl, hname, not_isLineEnd_of_all rfl, huri, not_isLineEnd_of_all rfl⟩

/-- The opening tag of the wrapper stands on one line when no prefix and no namespace name holds a
line end. -/
theorem not_isLineEnd_wrapperStart
    (h : ∀ pair ∈ namespaces, ∀ c ∈ pair.1.toList ++ pair.2.toList, ¬ IsLineEnd c) :
    ∀ c ∈ (wrapperStart namespaces).toList, ¬ IsLineEnd c := by
  have hprefixes : ∀ a ∈ declarationsOf (wrapperDeclarations namespaces), ∀ c ∈ a.text,
      ¬ IsLineEnd c := by
    intro a ha
    obtain ⟨pair, hpair, rfl⟩ := List.mem_map.1 ha
    have hboth : ∀ c ∈ pair.1.toList ++ pair.2.toList, ¬ IsLineEnd c := by
      rcases KeyedList.mem_setAll hpair with hpair | hpair
      · rw [List.mem_singleton.1 hpair]
        exact not_isLineEnd_of_all (by decide)
      · exact h pair hpair
    obtain ⟨hname, huri⟩ := List.forall_mem_append.1 hboth
    have hwritten : (Name.mk (some xmlnsName) pair.1.toList).written =
        (xmlnsName ++ [':']) ++ pair.1.toList := rfl
    exact not_isLineEnd_declaration
      (hwritten ▸ List.forall_mem_append.2 ⟨not_isLineEnd_of_all rfl, hname⟩) huri
  -- The tag is its own words, the default namespace and the declarations of the prefixes.
  have hstart : (wrapperStart namespaces).toList = "<fragment".toList ++
      ((declaration ⟨none, xmlnsName⟩ svgNamespace.toList).text ++
        ((declarationsOf (wrapperDeclarations namespaces)).flatMap WrittenAttribute.text ++
          ['>'])) := by
    rw [toList_wrapperStart]
    simp [WrittenTag.text, wrapperTag, Name.written, wrapperName]
  rw [hstart]
  simp only [List.forall_mem_append, List.forall_mem_flatMap]
  have hdefault : ∀ c ∈ (declaration ⟨none, xmlnsName⟩ svgNamespace.toList).text, ¬ IsLineEnd c :=
    not_isLineEnd_declaration (not_isLineEnd_of_all rfl) (not_isLineEnd_of_all (by decide))
  exact ⟨not_isLineEnd_of_all rfl, hdefault, hprefixes, not_isLineEnd_of_all rfl⟩

/-- **A position of malformed markup lies behind the opening tag of the wrapper**, if that tag is
well-formed by itself: in front of it stand the tag and some front of what follows the tag, which is
the markup with the closing tag. If nothing that is declared holds a line end, the position of the
end of that front differs only on the first line, and there by the length of the tag. -/
theorem position_of_malformed {offence : Offence} {wording : String} {line column : Nat}
    (hstart : IsStartTag (wrapperStart namespaces).toList)
    (h : offence? limit namespaces content = .ok (some offence))
    (hmessage : offence.message = s!"Invalid XML: {wording}: line {line}, column {column}") :
    ∃ front, front <+: content.toList ++ wrapperEnd.toList ∧
      (⟨line, column⟩ : Position).IsEndOf ((wrapperStart namespaces).toList ++ front) ∧
      ((∀ pair ∈ namespaces, ∀ c ∈ pair.1.toList ++ pair.2.toList, ¬ IsLineEnd c) →
        (line = 1 → (wrapperStart namespaces).length ≤ column ∧
          (⟨1, column - (wrapperStart namespaces).length⟩ : Position).IsEndOf front) ∧
        (2 ≤ line → (⟨line, column⟩ : Position).IsEndOf front)) := by
  obtain ⟨problem, rfl⟩ := malformed_of_message hmessage
  obtain ⟨-, -, fault, hread, -, hposition⟩ := offence?_eq_malformed_iff.1 h
  rw [toList_wrap_start] at hread hposition
  obtain ⟨front, hfront⟩ := suffix_of_readDocument hstart hread
  -- The front is what the reader has left behind it since the opening tag.
  have hend : (⟨line, column⟩ : Position).IsEndOf ((wrapperStart namespaces).toList ++ front) := by
    rw [← hposition, ← hfront, ← List.append_assoc]
    exact fault.isEndOf_position
  refine ⟨front, ⟨fault.rest, hfront⟩, hend, fun hlines => ?_⟩
  rw [← String.length_toList]
  exact Position.isEndOf_of_append (not_isLineEnd_wrapperStart hlines) hend

/-- A closing tag on the second line that does not match has its position on this line. -/
theorem position_of_malformed_second_line :
    IsStartTag (wrapperStart [("i", "u")]).toList ∧
      offence? (.integer 100) [("i", "u")] "<g>\r\n<i:a></g>" =
        .ok (some (.malformed .mismatchedTag ⟨2, 7⟩)) ∧
      ∃ front, front <+: "<g>\r\n<i:a></g></fragment>".toList ∧
        (⟨2, 7⟩ : Position).IsEndOf front := by
  obtain ⟨hstart, hread, hplace⟩ : IsStartTag (wrapperStart [("i", "u")]).toList ∧
      readDocument (wrap [("i", "u")] "<g>\r\n<i:a></g>").toList =
        .error ⟨.mismatchedTag, "g></fragment>".toList⟩ ∧
      (Fault.mk .mismatchedTag "g></fragment>".toList).position
        (wrap [("i", "u")] "<g>\r\n<i:a></g>").toList = ⟨2, 7⟩ := by
    rw [toList_wrap_start, toList_wrapperStart]
    decide +kernel
  have hanswer : offence? (.integer 100) [("i", "u")] "<g>\r\n<i:a></g>" =
      .ok (some (.malformed .mismatchedTag ⟨2, 7⟩)) :=
    offence?_eq_malformed_iff.2 ⟨by decide, by decide, _, hread, rfl, hplace⟩
  have hlines : ∀ pair ∈ [("i", "u")], ∀ c ∈ pair.1.toList ++ pair.2.toList, ¬ IsLineEnd c := by
    intro pair hpair
    rw [List.mem_singleton.1 hpair]
    exact not_isLineEnd_of_all rfl
  obtain ⟨front, hfront, -, hbehind⟩ :=
    @position_of_malformed _ _ _ _ "mismatched tag" 2 7 hstart hanswer (by decide)
  exact ⟨hstart, hanswer, front, hfront, (hbehind hlines).2 (Nat.le_refl 2)⟩

/-- White space may follow the name of an attribute, so a prefix can hold a line end at its end. The
opening tag then stands on two lines, and markup of a single line is malformed on the second one. -/
theorem position_below_markup :
    IsStartTag (wrapperStart [("a\n", "u")]).toList ∧
      (∀ pair ∈ [("a\n", "u")], ∀ c ∈ pair.2.toList, ¬ IsLineEnd c) ∧
      (∃ offence, offence? (.integer 100) [("a\n", "u")] "<b>" = .ok (some offence) ∧
        offence.message = "Invalid XML: mismatched tag: line 2, column 10") ∧
      ¬ ∃ front, front <+: "<b>".toList ++ wrapperEnd.toList ∧
        (⟨2, 10⟩ : Position).IsEndOf front := by
  obtain ⟨hstart, hread, hplace⟩ : IsStartTag (wrapperStart [("a\n", "u")]).toList ∧
      readDocument (wrap [("a\n", "u")] "<b>").toList =
        .error ⟨.mismatchedTag, "fragment>".toList⟩ ∧
      (Fault.mk .mismatchedTag "fragment>".toList).position
        (wrap [("a\n", "u")] "<b>").toList = ⟨2, 10⟩ := by
    rw [toList_wrap_start, toList_wrapperStart]
    decide +kernel
  have hanswer : offence? (.integer 100) [("a\n", "u")] "<b>" =
      .ok (some (.malformed .mismatchedTag ⟨2, 10⟩)) :=
    offence?_eq_malformed_iff.2 ⟨by decide, by decide, _, hread, rfl, hplace⟩
  refine ⟨hstart, fun pair hpair => ?_, ⟨_, hanswer, by decide⟩, ?_⟩
  · rw [List.mem_singleton.1 hpair]
    exact not_isLineEnd_of_all rfl
  · rintro ⟨front, hfront, hline, -⟩
    have hmarkup : ∀ c ∈ "<b>".toList ++ wrapperEnd.toList, ¬ IsLineEnd c :=
      not_isLineEnd_of_all (by decide)
    rw [lines_eq_singleton fun c hc => hmarkup c (hfront.subset hc), List.length_singleton] at hline
    exact absurd hline (by decide)

end

end Markup

end IconForge
