import Mathlib
import IconForge.Proofs.Markup.Wrapper

set_option autoImplicit false

/-! # The check decides markup

Markup that is written from content, well-formed under the bindings that are given and not larger
than the limit, is decided by its elements alone: the check has nothing against it when none of them
is a script and no attribute handles an event, and else reports the first offence in the order of
the document (`offence_verdict`). What looks like markup inside of a comment, an instruction, a
section or a value belongs to no element and is never reported.

The reader gives the elements of the content behind that of the wrapper (`readDocument_wrap`), and
the wrapper has no offence. What is left is a search for the first offence in a list, which finds
what `Verdict` says (`verdict_iff`). -/

namespace IconForge.Markup

open Xml

/-! ## The first offence -/

/-- An element that may be put into a component. -/
structure Harmless (element : Element) : Prop where
  noScript : small element.name ≠ "script".toList
  noHandler : ∀ name ∈ element.attributes, ¬ ['o', 'n'] <+: small name

/-- What is to be said against elements in the order of their opening tags: nothing, or the message
of the first offence. The name of an element counts before its attributes. -/
inductive Verdict : List Element → Option String → Prop where
  | harmless {elements : List Element} (h : ∀ element ∈ elements, Harmless element) :
      Verdict elements none
  | script {before after : List Element} {element : Element}
      (hbefore : ∀ earlier ∈ before, Harmless earlier)
      (hscript : small element.name = "script".toList) :
      Verdict (before ++ element :: after)
        (some "Script elements cannot be embedded in a component")
  | handler {before after : List Element} {element : Element} {front back : List (List Char)}
      {name : List Char} (hbefore : ∀ earlier ∈ before, Harmless earlier)
      (hscript : small element.name ≠ "script".toList)
      (hattributes : element.attributes = front ++ name :: back)
      (hfront : ∀ earlier ∈ front, ¬ ['o', 'n'] <+: small earlier)
      (hname : ['o', 'n'] <+: small name) :
      Verdict (before ++ element :: after)
        (some ("Event handler attribute not allowed: " ++ String.ofList name ++ " on element " ++
          String.ofList element.name))

theorem harmless_iff {element : Element} : elementOffence? element = none ↔ Harmless element := by
  rw [elementOffence?_eq_none_iff]
  exact ⟨fun h => ⟨h.1, h.2⟩, fun h => ⟨h.noScript, h.noHandler⟩⟩

/-- An element has the offence of its name, else that of its first attribute that handles an
event. -/
theorem elementOffence?_eq_some_iff {element : Element} {offence : Offence} :
    elementOffence? element = some offence ↔
      (small element.name = "script".toList ∧ offence = .scriptElement) ∨
        (small element.name ≠ "script".toList ∧ ∃ front name back,
          element.attributes = front ++ name :: back ∧
            (∀ earlier ∈ front, ¬ ['o', 'n'] <+: small earlier) ∧ ['o', 'n'] <+: small name ∧
            offence = .eventHandler (String.ofList name) (String.ofList element.name)) := by
  have hscript : isScript element = true ↔ small element.name = "script".toList := by
    rw [isScript, decide_eq_true_eq]
    rfl
  have hhandler : ∀ name, isEventHandler name = true ↔ ['o', 'n'] <+: small name := by
    intro name
    rw [isEventHandler, List.isPrefixOf_iff_prefix]
  rw [elementOffence?]
  -- The name of an element is judged before its attributes.
  by_cases h : isScript element
  · rw [if_pos h]
    rw [hscript] at h
    constructor
    · rintro ⟨⟩
      exact Or.inl ⟨h, rfl⟩
    · rintro (⟨-, rfl⟩ | ⟨hno, -⟩)
      · rfl
      · exact absurd h hno
  · rw [if_neg h]
    rw [hscript] at h
    rw [Option.map_eq_some_iff]
    constructor
    · rintro ⟨name, hfind, rfl⟩
      obtain ⟨hname, front, back, hattributes, hfront⟩ := List.find?_eq_some_iff_append.1 hfind
      refine Or.inr ⟨h, front, name, back, hattributes, fun earlier hearlier => ?_,
        (hhandler name).1 hname, rfl⟩
      rw [← hhandler]
      simpa using hfront earlier hearlier
    · rintro (⟨hyes, -⟩ | ⟨-, front, name, back, hattributes, hfront, hname, rfl⟩)
      · exact absurd hyes h
      · refine ⟨name, List.find?_eq_some_iff_append.2 ⟨(hhandler name).2 hname, front, back,
          hattributes, fun earlier hearlier => ?_⟩, rfl⟩
        have := hfront earlier hearlier
        rw [← hhandler] at this
        simpa using this

theorem findSome?_of_harmless {before after : List Element} {element : Element} {offence : Offence}
    (hbefore : ∀ earlier ∈ before, Harmless earlier) (h : elementOffence? element = some offence) :
    (before ++ element :: after).findSome? elementOffence? = some offence :=
  List.findSome?_eq_some_iff.2
    ⟨before, element, after, rfl, h, fun earlier hearlier => harmless_iff.2 (hbefore earlier hearlier)⟩

/-- **The search for an offence finds the verdict.** -/
theorem verdict_iff {elements : List Element} {verdict : Option String} :
    Verdict elements verdict ↔
      (elements.findSome? elementOffence?).map Offence.message = verdict := by
  constructor
  · intro h
    cases h with
    | harmless h =>
        rw [List.findSome?_eq_none_iff.2 fun element helement => harmless_iff.2 (h element helement)]
        rfl
    | script hbefore hscript =>
        rw [findSome?_of_harmless hbefore (elementOffence?_eq_some_iff.2 (Or.inl ⟨hscript, rfl⟩))]
        rfl
    | handler hbefore hscript hattributes hfront hname =>
        rw [findSome?_of_harmless hbefore (elementOffence?_eq_some_iff.2
          (Or.inr ⟨hscript, _, _, _, hattributes, hfront, hname, rfl⟩))]
        rfl
  · rintro rfl
    cases hfind : elements.findSome? elementOffence? with
    | none =>
        refine .harmless fun element helement => ?_
        exact harmless_iff.1 (List.findSome?_eq_none_iff.1 hfind element helement)
    | some offence =>
        obtain ⟨before, element, after, rfl, helement, hbefore⟩ :=
          List.findSome?_eq_some_iff.1 hfind
        -- The search stopped at the first element with an offence.
        have hharmless : ∀ earlier ∈ before, Harmless earlier :=
          fun earlier hearlier => harmless_iff.1 (hbefore earlier hearlier)
        rcases elementOffence?_eq_some_iff.1 helement with
          ⟨hscript, rfl⟩ | ⟨hscript, front, name, back, hattributes, hfront, hname, rfl⟩
        · exact .script hharmless hscript
        · exact .handler hharmless hscript hattributes hfront hname

/-! ## The check of written content -/

/-- The structure of written content has the first offence of its elements. Content without text has
no elements. -/
theorem structureOffence?_written {given : List Binding} {content : Content}
    (hgiven : ∀ binding ∈ given, binding.Valid) (hvalid : content.Valid)
    (hwell : content.WellFormed (boundScope given)) :
    structureOffence? (given.map Binding.written) (String.ofList content.text) =
      content.elements.findSome? elementOffence? := by
  rw [structureOffence?]
  split
  · next hempty =>
    -- An empty text is not read at all, so its content must be shown to have no elements.
    have htext : content.text = [] := by
      rw [String.isEmpty_iff] at hempty
      rw [← String.toList_ofList (l := content.text), hempty]
      rfl
    cases content with
    | empty => rfl
    | part item rest =>
        obtain ⟨c, cs, token, hcons, -⟩ := readToken_part hvalid.1 hvalid.2.1
        rw [Content.text, hcons] at htext
        cases htext
    | element tag inner trailing rest => cases htext
    | leaf tag rest => cases htext
  · simp only [readDocument_wrap hgiven hvalid hwell]
    -- The first element is that of the wrapper.
    rw [List.findSome?_cons]
    rfl

/-- **The check decides written markup.** It answers, and its answer has the message of the first
offence in the order of the document, and none when there is no offence. -/
theorem offence_verdict {given : List Binding} {content : Content} {limit : Json}
    (hgiven : ∀ binding ∈ given, binding.Valid) (hvalid : content.Valid)
    (hwell : content.WellFormed (boundScope given))
    (hsize : limit.exceededBy? (String.ofList content.text).utf8ByteSize = some false) :
    ∃ answer, offence? limit (given.map Binding.written) (String.ofList content.text) =
        .ok answer ∧
      ∀ verdict, Verdict content.elements verdict ↔ answer.map Offence.message = verdict := by
  refine ⟨content.elements.findSome? elementOffence?, ?_, fun verdict => verdict_iff⟩
  rw [offence?]
  simp only [hsize]
  rw [structureOffence?_written hgiven hvalid hwell]

/-- A prefix whose namespace name is spelled with a reference. -/
def referringBinding : Binding :=
  (['i'], [.plain 'a', .named ['a', 'm', 'p'], .plain 'b'])

/-- A tag with an attribute that has this prefix and handles events. -/
def handlerTag : WrittenTag :=
  ⟨⟨none, ['g']⟩, [⟨[' '], ⟨some ['i'], ['o', 'n', 'X']⟩, [], [], '"', []⟩], []⟩

/-- A script in a comment, and an element with this tag. -/
def handlerContent : Content :=
  .part (.comment ['<', 's', 'c', 'r', 'i', 'p', 't', '>']) (.leaf handlerTag .empty)

theorem valid_referringBinding : referringBinding.Valid where
  name := isSimpleName_singleton (by decide)
  value := by
    intro s hs
    simp only [referringBinding, List.mem_cons, List.not_mem_nil, or_false] at hs
    rcases hs with rfl | rfl | rfl
    · exact ⟨⟨by decide, by decide, by decide⟩, by decide⟩
    · exact ⟨rfl, by decide⟩
    · exact ⟨⟨by decide, by decide, by decide⟩, by decide⟩
  allowed := ⟨fun _ => by decide, by decide, by decide, by decide, by decide⟩

theorem valid_handlerContent : handlerContent.Valid := by
  have hattribute : ∀ a ∈ handlerTag.attributes, a.Valid := by
    intro a ha
    rw [List.mem_singleton.1 ha]
    refine valid_of_declaration rfl ⟨rfl, rfl⟩ rfl
      ⟨?_, isSimpleName_of_all (by decide) (by decide)⟩ ?_
    · rintro q ⟨⟩
      exact isSimpleName_singleton (by decide)
    · intro s hs
      cases hs
  refine ⟨⟨?_, by decide⟩, ?_, ⟨⟨?_, isSimpleName_singleton (by decide)⟩, hattribute, ?_⟩, trivial⟩
  · exact List.all_eq_true.1 (by decide)
  · rintro ⟨⟨⟩, -⟩
  · rintro q ⟨⟩
  · intro c hc
    cases hc

theorem wellFormed_handlerContent :
    handlerContent.WellFormed (boundScope [referringBinding]) := by
  refine ⟨⟨List.nodup_singleton _, ?_, ?_, List.nodup_singleton _, ?_⟩, trivial⟩
  · intro a ha q hq
    rw [List.mem_singleton.1 ha] at hq
    cases hq
  · intro name hname q hq
    rw [List.mem_singleton.1 hname] at hq
    cases hq
    rfl
  · rintro q ⟨⟩

/-- The script in the comment is none, but the attribute with the prefix handles events. -/
theorem offence_verdict_prefixed :
    ∃ answer, offence? (.integer 40) [("i", "a&amp;b")] "<!--<script>--><g i:onX=\"\"/>" =
        .ok answer ∧
      answer.map Offence.message =
        some "Event handler attribute not allowed: onX on element g" := by
  have hgiven : ∀ binding ∈ [referringBinding], binding.Valid := by
    intro binding hmem
    rw [List.mem_singleton.1 hmem]
    exact valid_referringBinding
  have hsize : (Json.integer 40).exceededBy?
      (String.ofList handlerContent.text).utf8ByteSize = some false := by
    decide
  obtain ⟨answer, hanswer, hverdict⟩ :=
    offence_verdict hgiven valid_handlerContent wellFormed_handlerContent hsize
  refine ⟨answer, hanswer, (hverdict _).1 ?_⟩
  have hattributes : [['o', 'n', 'X']] = [] ++ ['o', 'n', 'X'] :: [] := rfl
  have hnone : ∀ earlier ∈ ([] : List Element), Harmless earlier := by
    intro earlier hearlier
    cases hearlier
  have helement : Verdict ([] ++ ⟨['g'], [['o', 'n', 'X']]⟩ :: [])
      (some ("Event handler attribute not allowed: " ++ String.ofList ['o', 'n', 'X'] ++
        " on element " ++ String.ofList ['g'])) :=
    .handler hnone (by decide) hattributes (by simp) (by decide)
  exact helement

end IconForge.Markup
