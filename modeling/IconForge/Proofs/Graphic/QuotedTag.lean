import Mathlib
import IconForge.Proofs.Graphic.Extraction
import IconForge.Proofs.Graphic.RootPlace

set_option autoImplicit false

/-! # Where the opening tag of a root ends

An attribute may hold any character in its value but the quote that it stands between, the opening
bracket and the ampersand. A closing bracket is among them, and there the tag is cut: its end is the
first closing bracket in the plain text, quoted or not. So the content of a root is what stands
between its tags exactly when no value of the opening tag holds a closing bracket; otherwise the
rest of the tag, with its own bracket, comes in front of that content (`inner_eq_iff_no_bracket`).

That the two never agree by accident is seen by counting: stripping a text takes blanks only, and
the rest of the tag has a character more that is none. -/

namespace IconForge

namespace Text

/-! ## What stripping leaves -/

theorem filter_dropWhile (class? : Char → Bool) (cs : List Char) :
    (cs.dropWhile class?).filter (!class? ·) = cs.filter (!class? ·) := by
  have hfront : (cs.takeWhile class?).filter (!class? ·) = [] := by
    rw [List.filter_eq_nil_iff]
    intro c hc
    simp [List.mem_takeWhile_imp hc]
  calc (cs.dropWhile class?).filter (!class? ·)
      = (cs.takeWhile class? ++ cs.dropWhile class?).filter (!class? ·) := by
        rw [List.filter_append, hfront, List.nil_append]
    _ = cs.filter (!class? ·) := by rw [List.takeWhile_append_dropWhile]

theorem filter_strip (cs : List Char) :
    (strip cs).filter (!isBlank ·) = cs.filter (!isBlank ·) := by
  rw [strip, stripBy, dropTrailing, List.filter_reverse, filter_dropWhile, ← List.filter_reverse,
    List.reverse_reverse, filter_dropWhile]

/-- A text has not the same characters as its end with another one in front, unless that is a
blank. -/
theorem strip_append_cons_ne {c : Char} (hc : isBlank c = false) (front cs : List Char) :
    strip (front ++ c :: cs) ≠ strip cs := by
  intro h
  have hcount : ((front ++ c :: cs).filter (!isBlank ·)).length =
      (cs.filter (!isBlank ·)).length := by
    rw [← filter_strip, h, filter_strip]
  rw [List.filter_append, List.filter_cons_of_pos (by rw [hc]; rfl), List.length_append,
    List.length_cons] at hcount
  omega

end Text

namespace Graphic

open Text

/-! ## Attributes with any values -/

namespace RootAttribute

/-- An attribute as a document may have it: a name of any characters but quotes, brackets and the
equals sign, and a value of any characters but its own quotes and the opening bracket. A name with a
prefix counts as a plain one here. -/
structure Quoted (a : RootAttribute) : Prop extends a.Spaced where
  name : ∀ c ∈ a.name.text, c ≠ '=' ∧ c ≠ '<' ∧ c ≠ '>' ∧ isQuote c = false
  value : ∀ c ∈ a.value, c ≠ a.quote ∧ c ≠ '<'

theorem quoted_iff (a : RootAttribute) :
    a.Quoted ↔ (!a.gap.isEmpty && a.gap.all isBlank && a.beforeEquals.all isBlank &&
      a.afterEquals.all isBlank && isQuote a.quote &&
      (a.name.text.all fun c => !(c = '=' || c = '<' || c = '>' || isQuote c)) &&
      a.value.all fun c => !(c = a.quote || c = '<')) := by
  simp only [Bool.and_eq_true, List.all_eq_true, Bool.not_eq_true', List.isEmpty_eq_false_iff,
    Bool.or_eq_false_iff, decide_eq_false_iff_not, and_assoc]
  constructor
  · intro h
    exact ⟨h.gap_ne, h.gap, h.beforeEquals, h.afterEquals, h.quote, h.name, h.value⟩
  · rintro ⟨hgapNe, hgap, hbefore, hafter, hquote, hname, hvalue⟩
    exact ⟨⟨hgapNe, hgap, hbefore, hafter, hquote⟩, hname, hvalue⟩

instance (a : RootAttribute) : Decidable a.Quoted :=
  decidable_of_iff' _ a.quoted_iff

end RootAttribute

section Tag

variable {attributes : List RootAttribute} {trailing content : List Char}

/-- No tag begins inside of an opening tag. -/
theorem less_notMem_tagText (hattributes : ∀ a ∈ attributes, a.Quoted)
    (htrailing : ∀ c ∈ trailing, isBlank c) : '<' ∉ tagText attributes trailing := by
  intro hmem
  rcases of_mem_tagText (fun a ha => (hattributes a ha).toSpaced) htrailing hmem with
    hblank | hquote | hequals | ⟨a, ha, hname | hvalue⟩
  · exact absurd hblank (by decide)
  · exact absurd hquote (by decide)
  · exact absurd hequals (by decide)
  · exact ((hattributes a ha).name '<' hname).2.1 rfl
  · exact ((hattributes a ha).value '<' hvalue).2 rfl

theorem greater_mem_tagText_iff (hattributes : ∀ a ∈ attributes, a.Quoted)
    (htrailing : ∀ c ∈ trailing, isBlank c) :
    '>' ∈ tagText attributes trailing ↔ ∃ a ∈ attributes, '>' ∈ a.value := by
  constructor
  · intro hmem
    rcases of_mem_tagText (fun a ha => (hattributes a ha).toSpaced) htrailing hmem with
      hblank | hquote | hequals | ⟨a, ha, hname | hvalue⟩
    · exact absurd hblank (by decide)
    · exact absurd hquote (by decide)
    · exact absurd hequals (by decide)
    · exact absurd rfl ((hattributes a ha).name '>' hname).2.2.1
    · exact ⟨a, ha, hvalue⟩
  · rintro ⟨a, ha, hvalue⟩
    rw [tagText, List.mem_append, List.mem_flatMap]
    exact Or.inl ⟨a, ha, by simp [RootAttribute.text, hvalue]⟩

/-! ## The root of a document -/

/-- **An opening tag without a closing bracket in its values is read as a whole.** -/
theorem root?_of_no_bracket (hattributes : ∀ a ∈ attributes, a.Quoted)
    (htrailing : ∀ c ∈ trailing, isBlank c) (hcontent : ¬ HoldsClosingTag content)
    (hbracket : ∀ a ∈ attributes, '>' ∉ a.value) :
    root? (documentText attributes trailing content) =
      some ⟨tagText attributes trailing, content⟩ := by
  refine root?_of_spaced (fun a ha => (hattributes a ha).toSpaced) htrailing ?_ hcontent
  rw [greater_mem_tagText_iff hattributes htrailing]
  rintro ⟨a, ha, hvalue⟩
  exact hbracket a ha hvalue

/-- **An opening tag is cut at the first closing bracket**, and the rest of it goes to the
content. -/
theorem root?_of_bracket (hattributes : ∀ a ∈ attributes, a.Quoted)
    (htrailing : ∀ c ∈ trailing, isBlank c) (hcontent : ¬ HoldsClosingTag content)
    {front rest : List Char} (htag : tagText attributes trailing = front ++ '>' :: rest)
    (hfront : '>' ∉ front) :
    root? (documentText attributes trailing content) = some ⟨front, rest ++ '>' :: content⟩ := by
  have hdocument : documentText attributes trailing content = ['<', 's', 'v', 'g'] ++ front ++
      '>' :: ((rest ++ '>' :: content) ++ ['<', '/', 's', 'v', 'g', '>']) := by
    rw [documentText, htag]
    simp
  have hrest : '<' ∉ rest ++ ['>'] := by
    intro hmem
    apply less_notMem_tagText hattributes htrailing
    rw [htag]
    rcases List.mem_append.1 hmem with hmem | hmem
    · simp [hmem]
    · exact absurd hmem (by decide)
  rw [hdocument]
  apply root?_rendered
  · intro c hc
    -- A tag begins with a blank, so there is something in front of its first bracket.
    have hhead : c ∈ (tagText attributes trailing).head? := by
      rw [htag]
      exact List.mem_head?_append_of_mem_head? hc
    rw [endsRootName, head?_tagText (fun a ha => (hattributes a ha).toSpaced) htrailing c hhead]
    rfl
  · exact hfront
  · intro hholds
    rw [show rest ++ '>' :: content = rest ++ ['>'] ++ content by simp] at hholds
    exact hcontent (hholds.of_append hrest)
  · decide

/-- **The content of a root is what stands between its tags** exactly when no value in the opening
tag holds a closing bracket. In any case there is a root, and when the tag holds such a bracket, all
of the tag behind the first one stands in front of the content. -/
theorem inner_eq_iff_no_bracket (hattributes : ∀ a ∈ attributes, a.Quoted)
    (htrailing : ∀ c ∈ trailing, isBlank c) (hcontent : ¬ HoldsClosingTag content)
    (defaultSize : Json) :
    looksLikeSvg (String.ofList (documentText attributes trailing content)) ∧
    ∀ graphic, extract defaultSize (String.ofList (documentText attributes trailing content)) =
      .ok graphic →
        (graphic.inner = String.ofList (strip content) ↔ ∀ a ∈ attributes, '>' ∉ a.value) ∧
        ∀ front rest, tagText attributes trailing = front ++ '>' :: rest → '>' ∉ front →
          graphic.inner = String.ofList (strip (rest ++ '>' :: content)) := by
  have hinner : ∀ {root : Root} {graphic : Graphic},
      root? (documentText attributes trailing content) = some root →
      extract defaultSize (String.ofList (documentText attributes trailing content)) = .ok graphic →
        graphic.inner = String.ofList (strip root.content) := by
    intro root graphic hroot hgraphic
    rw [extract, String.toList_ofList, hroot] at hgraphic
    exact inner_of_ofRoot hgraphic
  rw [looksLikeSvg, String.toList_ofList]
  -- The first closing bracket ends the tag, whether it is its own or that of a value.
  by_cases hbracket : ∀ a ∈ attributes, '>' ∉ a.value
  · have hroot := root?_of_no_bracket hattributes htrailing hcontent hbracket
    refine ⟨by rw [hroot]; rfl, fun graphic hgraphic => ⟨iff_of_true ?_ hbracket, ?_⟩⟩
    · exact hinner hroot hgraphic
    · intro front rest htag hfront
      have hmem : '>' ∈ tagText attributes trailing := by
        rw [htag]
        simp
      obtain ⟨a, ha, hvalue⟩ := (greater_mem_tagText_iff hattributes htrailing).1 hmem
      exact absurd hvalue (hbracket a ha)
  · have hmem : '>' ∈ tagText attributes trailing := by
      rw [greater_mem_tagText_iff hattributes htrailing]
      push Not at hbracket
      exact hbracket
    obtain ⟨front, rest, htag, hfront⟩ := List.eq_append_cons_of_mem hmem
    have hroot := root?_of_bracket hattributes htrailing hcontent htag hfront
    refine ⟨by rw [hroot]; rfl, fun graphic hgraphic => ⟨iff_of_false ?_ hbracket, ?_⟩⟩
    · rw [hinner hroot hgraphic]
      intro hsame
      exact strip_append_cons_ne (by decide) rest content (String.ofList_injective hsame)
    · intro otherFront otherRest hother hotherFront
      have hotherRoot := root?_of_bracket hattributes htrailing hcontent hother hotherFront
      exact hinner hotherRoot hgraphic

end Tag

/-- A label with a closing bracket and, between single quotes, one with the other signs that a value
may hold. -/
def labelAttributes : List RootAttribute :=
  [⟨[' '], .plain "label".toList, [], [' '], '"', "a>b".toList⟩,
    ⟨['\n'], .plain "x:y".toList, [' '], [], '\'', "\"c=d/".toList⟩]

set_option maxRecDepth 4000 in
/-- The bracket in a label cuts the tag, so that the label's end and the next attribute come in
front of the content; the signs in the other value are no matter. -/
theorem inner_eq_iff_no_bracket_label :
    (∃ graphic, extract .null "<svg label= \"a>b\"\nx:y ='\"c=d/' > <g/></svg>" = .ok graphic ∧
      graphic.inner = "b\"\nx:y ='\"c=d/' > <g/>" ∧ graphic.inner ≠ "<g/>") ∧
    ∃ graphic, extract .null "<svg\nx:y ='\"c=d/'> <g/></svg>" = .ok graphic ∧
      graphic.inner = "<g/>" := by
  have hall : ∀ a ∈ labelAttributes, a.Quoted := by
    decide
  have hrest : ∀ a ∈ labelAttributes.drop 1, a.Quoted :=
    fun a ha => hall a (List.mem_of_mem_drop ha)
  have hblank : ∀ c ∈ [' '], isBlank c := List.all_eq_true.1 (by decide)
  constructor
  · obtain ⟨graphic, hgraphic⟩ : ∃ graphic,
        extract .null "<svg label= \"a>b\"\nx:y ='\"c=d/' > <g/></svg>" = .ok graphic := ⟨_, rfl⟩
    obtain ⟨-, hinner⟩ := inner_eq_iff_no_bracket hall hblank
      (show ¬ HoldsClosingTag " <g/>".toList by decide) .null
    obtain ⟨hiff, hcut⟩ := hinner graphic hgraphic
    refine ⟨graphic, hgraphic, ?_, ?_⟩
    · exact hcut " label= \"a".toList "b\"\nx:y ='\"c=d/' ".toList (by decide) (by decide)
    · exact fun heq => hiff.1 heq ⟨_, _, _, _, _, _⟩ List.mem_cons_self (by decide)
  · obtain ⟨graphic, hgraphic⟩ : ∃ graphic,
        extract .null "<svg\nx:y ='\"c=d/'> <g/></svg>" = .ok graphic := ⟨_, rfl⟩
    obtain ⟨-, hinner⟩ := inner_eq_iff_no_bracket hrest (show ∀ c ∈ [], isBlank c from nofun)
      (show ¬ HoldsClosingTag " <g/>".toList by decide) .null
    exact ⟨graphic, hgraphic, (hinner graphic hgraphic).1.2 (by decide)⟩

end Graphic

end IconForge
