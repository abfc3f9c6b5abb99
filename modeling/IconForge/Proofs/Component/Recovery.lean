import Mathlib
import IconForge.Component.Source
import IconForge.Conversion.Settings
import IconForge.Proofs.Component.Identifier
import IconForge.Proofs.Number.ReadBack
import IconForge.Proofs.Results

set_option autoImplicit false

/-! # What a component source keeps

A component source is a concatenation of fixed texts, which hold the settings, with a name, a view
box and the markup of a graphic between them. Any of these may look like the fixed texts: the markup
may hold a whole component, and the settings are free. Still the parts can be told from the source
(`generate_recovery`), since each is cut off where its mark first stands.

* The mark behind the identifier begins with the suffix of components and holds a parenthesis. An
  identifier is made of letters and digits, so no mark begins in it, whatever the suffix is.
* The mark behind the view box begins with a quotation mark, of which a view box has none.
* The markup is all that is left in front of the closing text, which is as long for every
  component.

The first two are one argument about marks (`dropInfix?_mark`): the characters in front of a mark
are all of a kind, and some character of the mark is not. -/

namespace IconForge

open Text

/-! ## Cutting a text at a mark -/

section Marks

variable {α : Type} [DecidableEq α] {front mark rest : List α}

/-- A text is cut where its mark first stands: when the characters in front of the mark are all of a
kind of which the mark has another, the mark does not stand any earlier. -/
theorem dropInfix?_mark (kind : α → Bool) (hfront : ∀ a ∈ front, kind a)
    (hmark : ∃ a ∈ mark, kind a = false) :
    (front ++ mark ++ rest).dropInfix? mark = some (front, rest) := by
  -- The characters of the kind at the front of a mark end in the mark.
  have htake : ∀ tail : List α, (mark ++ tail).takeWhile kind = mark.takeWhile kind := by
    intro tail
    obtain ⟨a, ha, hkind⟩ := hmark
    rw [List.takeWhile_append, if_neg]
    intro hlength
    have hall : mark.takeWhile kind = mark :=
      (List.takeWhile_prefix kind).eq_of_length hlength
    have hpos : kind a := List.mem_takeWhile_imp (p := kind) (by rw [hall]; exact ha)
    rw [hkind] at hpos
    cases hpos
  rw [List.dropInfix?_eq_some_iff]
  refine ⟨⟨mark, rfl, beq_self_eq_true mark⟩, ?_⟩
  intro early mark' tail heq hbeq
  rw [eq_of_beq hbeq, List.append_assoc, List.append_assoc] at heq
  show front.length ≤ early.length
  by_contra hshort
  have hearly : ∀ a ∈ early, kind a := by
    intro a ha
    have hshorter : early <+: front :=
      List.prefix_of_prefix_length_le (List.prefix_append early (mark ++ tail))
        (heq ▸ List.prefix_append front (mark ++ rest)) (by omega)
    exact hfront a (hshorter.subset ha)
  have hlengths : front.length + (mark.takeWhile kind).length =
      early.length + (mark.takeWhile kind).length := by
    calc front.length + (mark.takeWhile kind).length
        = ((front ++ (mark ++ rest)).takeWhile kind).length := by
          rw [List.takeWhile_append_of_pos hfront, htake, List.length_append]
      _ = ((early ++ (mark ++ tail)).takeWhile kind).length := by rw [heq]
      _ = early.length + (mark.takeWhile kind).length := by
          rw [List.takeWhile_append_of_pos hearly, htake, List.length_append]
  omega

end Marks

/-! ## View boxes -/

/-- A value that stands for a number. -/
def Json.IsNumeric (value : Json) : Prop :=
  ∃ x, value.toBinary64 = .ok x

namespace ViewBox

/-- A view box of numbers. Either coordinate of the origin may be missing. -/
structure Numeric (box : ViewBox) : Prop where
  width : box.width.IsNumeric
  height : box.height.IsNumeric
  x : ∀ value ∈ box.x, value.IsNumeric
  y : ∀ value ∈ box.y, value.IsNumeric

theorem numberText_of_isNumeric {value : Json} (h : value.IsNumeric) :
    ∃ x, numberText value = .ok (NumberLayout.attribute.render x) := by
  obtain ⟨x, hx⟩ := h
  exact ⟨x, by rw [numberText, hx]; rfl⟩

/-- A view box of numbers has a text. -/
theorem Numeric.exists_text {box : ViewBox} (h : box.Numeric) : ∃ text, box.text = .ok text := by
  obtain ⟨width, hwidth⟩ := numberText_of_isNumeric h.width
  obtain ⟨height, hheight⟩ := numberText_of_isNumeric h.height
  rw [text, hwidth, hheight]
  split
  · next xValue yValue hx hy =>
    obtain ⟨x, hxtext⟩ := numberText_of_isNumeric (h.x xValue hx)
    obtain ⟨y, hytext⟩ := numberText_of_isNumeric (h.y yValue hy)
    rw [hxtext, hytext]
    exact ⟨_, rfl⟩
  · exact ⟨_, rfl⟩

theorem quote_notMem_render (x : Binary64) : '"' ∉ (NumberLayout.attribute.render x).toList := by
  cases x with
  | finite negative m =>
      intro hmem
      have hnumeral : isNumeralCharacter '"' :=
        NumberLayout.isNumeralCharacter_of_mem_render (Or.inl rfl) (x := .finite negative m) rfl hmem
      exact absurd hnumeral (by decide)
  | infinite negative =>
      cases negative with
      | false => decide
      | true => decide
  | notANumber => decide

theorem quote_notMem_numberText {value : Json} {number : String}
    (h : numberText value = .ok number) : '"' ∉ number.toList := by
  rw [numberText] at h
  cases hvalue : value.toBinary64 with
  | error fault => rw [hvalue] at h; cases h
  | ok x =>
      rw [hvalue] at h
      cases h
      exact quote_notMem_render x

/-- A view box is written as four texts, of which the first two are zeros without an origin, with
single blanks between them. -/
theorem exists_numbers_of_text {box : ViewBox} {viewBox : String} (h : box.text = .ok viewBox) :
    ∃ x y width height : String, viewBox = x ++ " " ++ y ++ " " ++ width ++ " " ++ height ∧
      ∀ number ∈ [x, y, width, height], '"' ∉ number.toList := by
  rw [text] at h
  obtain ⟨width, hwidth, h⟩ := bind_eq_ok_iff.1 h
  obtain ⟨height, hheight, h⟩ := bind_eq_ok_iff.1 h
  have hsize := And.intro (quote_notMem_numberText hwidth) (quote_notMem_numberText hheight)
  split at h
  · obtain ⟨x, hx, h⟩ := bind_eq_ok_iff.1 h
    obtain ⟨y, hy, h⟩ := bind_eq_ok_iff.1 h
    cases h
    refine ⟨x, y, width, height, rfl, ?_⟩
    simp [quote_notMem_numberText hx, quote_notMem_numberText hy, hsize]
  · cases h
    refine ⟨"0", "0", width, height, rfl, ?_⟩
    simp [hsize]

theorem quote_notMem_text {box : ViewBox} {viewBox : String} (h : box.text = .ok viewBox) :
    '"' ∉ viewBox.toList := by
  obtain ⟨x, y, width, height, rfl, hquote⟩ := exists_numbers_of_text h
  simp only [List.forall_mem_cons, List.not_mem_nil, false_imp_iff, implies_true, and_true] at hquote
  simp [hquote]

end ViewBox

/-! ## The parts of a component source -/

theorem CodeText.ofString_injective : Function.Injective CodeText.ofString :=
  Function.LeftInverse.injective CodeText.shown_ofString

/-- What a component source was made of, next to the settings. -/
structure Parts where
  name : CodeText
  viewBox : CodeText
  inner : CodeText
deriving DecidableEq, Repr

namespace Generator

def opening (g : Generator) : CodeText :=
  "import \x7b " ++ g.wrapper ++ " \x7d from '" ++ g.package ++ "';\n\n" ++
  "import type \x7b " ++ g.propsType ++ " \x7d from '" ++ g.package ++ "';\n\n" ++
  "export function "

/-- The text between an identifier and a view box. -/
def identifierMark (g : Generator) : CodeText :=
  g.suffix ++ ("(props: " ++ g.propsType ++ ") \x7b\n" ++
    "  return (\n" ++
    "    <" ++ g.wrapper ++ " viewBox=\"")

/-- The text between a view box and the markup of a graphic. -/
def viewBoxMark : CodeText :=
  "\" \x7b...props\x7d>\n" ++ ("      " : CodeText)

def closing (g : Generator) : CodeText :=
  "\n" ++
  ("    </" ++ g.wrapper ++ ">\n" ++
  "  );\n" ++
  "\x7d\n")

theorem source_eq (g : Generator) (identifier : CodeText) (viewBox inner : String) :
    g.source (identifier ++ g.suffix) viewBox inner =
      g.opening ++ (identifier ++ g.identifierMark ++
        (CodeText.ofString viewBox ++ viewBoxMark ++ (CodeText.ofString inner ++ g.closing))) := by
  unfold source opening identifierMark viewBoxMark closing
  simp only [List.append_assoc]

/-- The parts of a component source, cut off one after the other at the marks between them. -/
def parts? (g : Generator) (source : CodeText) : Option Parts := do
  let rest ← source.dropPrefix? g.opening
  let (identifier, rest) ← rest.dropInfix? g.identifierMark
  let (viewBox, rest) ← rest.dropInfix? viewBoxMark
  let inner ← rest.dropSuffix? g.closing
  return ⟨identifier ++ g.suffix, viewBox, inner⟩

/-- Letters and digits of ASCII. -/
def isIdentifierPoint (point : CodePoint) : Bool :=
  point.char?.any isAsciiAlphanumeric

theorem isIdentifierPoint_of_mem {base : String} {point : CodePoint}
    (h : point ∈ CodeText.ofString (Component.identifier base)) : isIdentifierPoint point := by
  obtain ⟨c, hc, rfl⟩ := List.mem_map.1 h
  exact Component.isAsciiAlphanumeric_of_mem_identifier hc

/-- **The parts of a source are read back from it**, whatever the settings are and whatever the
markup holds. -/
theorem parts?_source (g : Generator) (base : String) {viewBox : String}
    (hquote : '"' ∉ viewBox.toList) (inner : String) :
    g.parts? (g.source (g.componentName base) viewBox inner) =
      some ⟨g.componentName base, viewBox, inner⟩ := by
  -- No identifier holds the mark behind it, and no view box the quote that ends it.
  have hidentifier : ∀ rest, (CodeText.ofString (Component.identifier base) ++ g.identifierMark ++
      rest).dropInfix? g.identifierMark =
        some (CodeText.ofString (Component.identifier base), rest) := by
    intro rest
    apply dropInfix?_mark isIdentifierPoint
    · exact fun point => isIdentifierPoint_of_mem
    · exact ⟨.char '(', by simp [identifierMark, CodeText.ofString, CodeText.ofChars], by decide⟩
  have hviewBox : ∀ rest, (CodeText.ofString viewBox ++ viewBoxMark ++ rest).dropInfix? viewBoxMark =
      some (CodeText.ofString viewBox, rest) := by
    intro rest
    apply dropInfix?_mark (fun point => decide (point ≠ .char '"'))
    · intro point hpoint
      obtain ⟨c, hc, rfl⟩ := List.mem_map.1 hpoint
      rw [decide_eq_true_eq]
      intro heq
      rw [CodePoint.char.inj heq] at hc
      exact hquote hc
    · exact ⟨.char '"', by decide, by decide⟩
  have hopening : ∀ rest, (g.opening ++ rest).dropPrefix? g.opening = some rest :=
    fun rest => List.dropPrefix?_append_of_beq rest (beq_self_eq_true g.opening)
  -- The markup may hold anything: it is cut off from behind.
  have hclosing : (CodeText.ofString inner ++ g.closing).dropSuffix? g.closing =
      some (CodeText.ofString inner) :=
    List.dropSuffix?_eq_some_iff.2 ⟨g.closing, rfl, beq_self_eq_true g.closing⟩
  rw [componentName, source_eq, parts?, hopening]
  simp only [Option.bind_eq_bind, Option.bind_some, hidentifier, hviewBox, hclosing]
  rfl

/-- A graphic with a view box of numbers has a component, whatever its base name and its markup. -/
theorem exists_generate (g : Generator) (base : String) {box : ViewBox} (h : box.Numeric) :
    ∃ viewBox, box.text = .ok viewBox ∧ ∀ inner namespaces, g.generate base ⟨box, inner, namespaces⟩ =
      .ok (g.source (g.componentName base) viewBox inner) := by
  obtain ⟨viewBox, hviewBox⟩ := h.exists_text
  refine ⟨viewBox, hviewBox, ?_⟩
  intro inner namespaces
  rw [generate, hviewBox]
  rfl

/-- **Nothing is lost in a component source.** The three parts of a source are read back from it for
any settings and any markup, so two sources are the same only if all their parts are; with the
default settings the name that is read back names the file, too. The markup stands in the source as
it is, between texts that do not depend on it. -/
theorem generate_recovery (g : Generator) (base other : String) {graphic drawn : Graphic}
    (hgraphic : graphic.viewBox.Numeric) (hdrawn : drawn.viewBox.Numeric) :
    (g.generate base graphic = g.generate other drawn →
      g.componentName base = g.componentName other ∧
        graphic.viewBox.text = drawn.viewBox.text ∧ graphic.inner = drawn.inner) ∧
    (∃ viewBox source, graphic.viewBox.text = .ok viewBox ∧ g.generate base graphic = .ok source ∧
      g.parts? source = some ⟨g.componentName base, viewBox, graphic.inner⟩) ∧
    (∃ source parts, Generator.default.generate base graphic = .ok source ∧
      Generator.default.parts? source = some parts ∧
      Generator.default.fileName base = parts.name ++ ".tsx") ∧
    (∃ front behind, ∀ inner namespaces, g.generate base ⟨graphic.viewBox, inner, namespaces⟩ =
      .ok (front ++ CodeText.ofString inner ++ behind)) := by
  obtain ⟨viewBox, hviewBox, hgenerate⟩ := g.exists_generate base hgraphic
  obtain ⟨otherBox, hotherBox, hother⟩ := g.exists_generate other hdrawn
  have hparts := g.parts?_source base (ViewBox.quote_notMem_text hviewBox) graphic.inner
  refine ⟨?_, ⟨viewBox, _, hviewBox, hgenerate _ graphic.namespaces, hparts⟩, ?_, ?_⟩
  · intro hsame
    rw [hgenerate _ graphic.namespaces, hother _ drawn.namespaces, Except.ok.injEq] at hsame
    -- Both triples are read back from the same source.
    rw [hsame, g.parts?_source other (ViewBox.quote_notMem_text hotherBox), Option.some.injEq,
      Parts.mk.injEq] at hparts
    obtain ⟨hname, hbox, hinner⟩ := hparts
    rw [hviewBox, hotherBox, CodeText.ofString_injective hbox]
    exact ⟨hname.symm, rfl, (CodeText.ofString_injective hinner).symm⟩
  · obtain ⟨text, htext, hdefault⟩ := Generator.default.exists_generate base hgraphic
    have hquote := ViewBox.quote_notMem_text htext
    exact ⟨_, _, hdefault _ graphic.namespaces, parts?_source _ base hquote _, rfl⟩
  · refine ⟨g.opening ++ CodeText.ofString (Component.identifier base) ++ g.identifierMark ++
      CodeText.ofString viewBox ++ viewBoxMark, g.closing, ?_⟩
    intro inner namespaces
    rw [hgenerate, componentName, source_eq]
    simp only [List.append_assoc]

/-- A unit square without an origin around markup that copies the end of a component and a field of
its text. -/
def misleadingGraphic : Graphic where
  viewBox := ⟨.real .one, .real .one, none, none⟩
  inner := "\x7bwrapper\x7d\" \x7b...props\x7d>\n      \n    </SvgIcon>\n  );\n\x7d\n"
  namespaces := []

theorem numeric_misleadingGraphic : misleadingGraphic.viewBox.Numeric where
  width := ⟨_, rfl⟩
  height := ⟨_, rfl⟩
  x := nofun
  y := nofun

/-- The parts of a component with misleading markup are read back. -/
theorem generate_recovery_misleading :
    misleadingGraphic.viewBox.Numeric ∧
      ∃ source, Generator.default.generate "arrow-left" misleadingGraphic = .ok source ∧
        Generator.default.parts? source =
          some ⟨"ArrowLeftIcon", "0 0 1 1", misleadingGraphic.inner⟩ := by
  refine ⟨numeric_misleadingGraphic, ?_⟩
  obtain ⟨-, ⟨viewBox, source, hviewBox, hsource, hparts⟩, -⟩ :=
    generate_recovery Generator.default "arrow-left" "arrow-left" numeric_misleadingGraphic
      numeric_misleadingGraphic
  have hone : NumberLayout.attribute.render .one = "1" := by decide +kernel
  have htext : misleadingGraphic.viewBox.text = .ok "0 0 1 1" := by
    show Except.ok ("0 0 " ++ NumberLayout.attribute.render .one ++ " " ++
      NumberLayout.attribute.render .one) = .ok "0 0 1 1"
    rw [hone]
    rfl
  have hname : Generator.default.componentName "arrow-left" = "ArrowLeftIcon" := by
    decide
  rw [htext, Except.ok.injEq] at hviewBox
  rw [← hviewBox, hname] at hparts
  exact ⟨source, hsource, hparts⟩

end Generator

end IconForge
