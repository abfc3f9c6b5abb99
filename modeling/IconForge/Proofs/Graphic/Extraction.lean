import Mathlib
import IconForge.Proofs.Graphic.Geometry
import IconForge.Proofs.Graphic.RootSearch

set_option autoImplicit false

/-! # What is extracted from a written document

A document that is written from a view box and a content gives that view box and that content
back, whatever the content is, unless it holds a closing tag. Since no content that was extracted
holds one and every view box that was extracted is finite, extracting, writing and extracting again
changes nothing (`extract_rendered_and_extract`). -/

namespace IconForge.Graphic

open IconForge.Text

/-! ## Documents -/

/-- The text of a document with an opening tag and a content. -/
def documentText (attributes : List RootAttribute) (trailing content : List Char) : List Char :=
  ['<', 's', 'v', 'g'] ++ tagText attributes trailing ++
    '>' :: (content ++ ['<', '/', 's', 'v', 'g', '>'])

section Document

variable {attributes : List RootAttribute} {trailing content : List Char}

theorem root?_of_spaced (hattributes : ∀ a ∈ attributes, a.Spaced)
    (htrailing : ∀ c ∈ trailing, isBlank c) (hbracket : '>' ∉ tagText attributes trailing)
    (hcontent : ¬ HoldsClosingTag content) :
    root? (documentText attributes trailing content) =
      some ⟨tagText attributes trailing, content⟩ := by
  apply root?_rendered
  · intro c hc
    rw [endsRootName, head?_tagText hattributes htrailing c hc]
    rfl
  · exact hbracket
  · exact hcontent
  · decide

theorem root?_documentText (hattributes : ∀ a ∈ attributes, a.Regular)
    (htrailing : ∀ c ∈ trailing, isBlank c) (hcontent : ¬ HoldsClosingTag content) :
    root? (documentText attributes trailing content) =
      some ⟨tagText attributes trailing, content⟩ :=
  root?_of_spaced (fun a ha => (hattributes a ha).spaced) htrailing
    (greater_notMem_tagText hattributes htrailing) hcontent

/-- What is extracted from a document: its content without the blanks around it, all declarations
of its root, and the rectangle that the text of the opening tag gives. -/
theorem extract_documentText (hattributes : ∀ a ∈ attributes, a.Regular)
    (htrailing : ∀ c ∈ trailing, isBlank c) (hcontent : ¬ HoldsClosingTag content)
    (defaultSize : Json) :
    extract defaultSize (String.ofList (documentText attributes trailing content)) =
      (viewBoxOf defaultSize (tagText attributes trailing)).map fun box =>
        { viewBox := box
          inner := String.ofList (strip content)
          namespaces := (declarationsOf attributes).map fun (name, value) =>
            (String.ofList name, String.ofList value) } := by
  rw [extract, String.toList_ofList, root?_documentText hattributes htrailing hcontent]
  simp only [ofRoot, declarations, findDeclarations_tagText hattributes htrailing]

end Document

/-! ## Four numbers -/

namespace Rectangle

structure IsFinite (r : Rectangle) : Prop where
  x : r.x.isFinite
  y : r.y.isFinite
  width : r.width.isFinite
  height : r.height.isFinite

/-- The numbers of two rectangles are equal, where the two zeros are. -/
structure Equal (r s : Rectangle) : Prop where
  x : r.x.Equal s.x
  y : r.y.Equal s.y
  width : r.width.Equal s.width
  height : r.height.Equal s.height

end Rectangle

/-- A view box stands for these four numbers. -/
structure Shows (box : ViewBox) (r : Rectangle) : Prop where
  x : ∃ value, box.x = some value ∧ value.toBinary64 = .ok r.x
  y : ∃ value, box.y = some value ∧ value.toBinary64 = .ok r.y
  width : box.width.toBinary64 = .ok r.width
  height : box.height.toBinary64 = .ok r.height

/-- A number as an attribute has it. -/
def numeral (x : Binary64) : List Char :=
  (NumberLayout.attribute.render x).toList

theorem readable_attribute : NumberLayout.attribute.Readable :=
  Or.inl rfl

theorem isNumeralCharacter_of_mem_numeral {x : Binary64} (hx : x.isFinite) {c : Char}
    (hc : c ∈ numeral x) : isNumeralCharacter c :=
  NumberLayout.isNumeralCharacter_of_mem_render readable_attribute hx hc

theorem isBlank_of_mem_numeral {x : Binary64} (hx : x.isFinite) {c : Char} (hc : c ∈ numeral x) :
    isBlank c = false :=
  NumberLayout.isBlank_of_isNumeralCharacter (isNumeralCharacter_of_mem_numeral hx hc)

/-- The text of four numbers with single blanks between them. -/
def numeralsText (r : Rectangle) : List Char :=
  numeral r.x ++ ' ' :: (numeral r.y ++ ' ' :: (numeral r.width ++ ' ' :: numeral r.height))

theorem text_of_shows {box : ViewBox} {r : Rectangle} (h : Shows box r) :
    box.text = .ok (String.ofList (numeralsText r)) := by
  obtain ⟨x, hx, hxr⟩ := h.x
  obtain ⟨y, hy, hyr⟩ := h.y
  have hwidth := h.width
  have hheight := h.height
  simp only [ViewBox.text, ViewBox.numberText, hx, hy, hxr, hyr, hwidth, hheight]
  show Except.ok _ = Except.ok _
  congr 1
  apply String.toList_injective
  simp [numeralsText, numeral]

theorem isToken_numeral {x : Binary64} (hx : x.isFinite) :
    ∃ y, IsToken (numeral x) y ∧ y.isFinite ∧ y.Equal x := by
  obtain ⟨y, hread, hfinite, hequal⟩ := NumberLayout.leadingNumber?_render readable_attribute hx
  exact ⟨y, .of_number (fun _ hc => isBlank_of_mem_numeral hx hc) hread, hfinite, hequal⟩

theorem isRun_single : IsRun [' '] where
  ne_nil := List.cons_ne_nil _ _
  blank := by
    intro c hc
    rw [List.mem_singleton.1 hc]
    decide

/-- **Four finite numbers are read back** as equal ones. -/
theorem viewBoxOfValue?_numeralsText {r : Rectangle} (hr : r.IsFinite) :
    ∃ box s, viewBoxOfValue? (numeralsText r) = some box ∧ Shows box s ∧ s.IsFinite ∧
      s.Equal r := by
  obtain ⟨x, hx, hxfinite, hxequal⟩ := isToken_numeral hr.x
  obtain ⟨y, hy, hyfinite, hyequal⟩ := isToken_numeral hr.y
  obtain ⟨width, hwidth, hwidthfinite, hwidthequal⟩ := isToken_numeral hr.width
  obtain ⟨height, hheight, hheightfinite, hheightequal⟩ := isToken_numeral hr.height
  have hnumbers : FourNumbers (numeralsText r) ⟨x, y, width, height⟩ :=
    ⟨numeral r.x, [' '], numeral r.y, [' '], numeral r.width, [' '], numeral r.height, rfl,
      hx, hy, hwidth, hheight, isRun_single, isRun_single, isRun_single⟩
  exact ⟨_, ⟨x, y, width, height⟩, viewBoxOfValue?_eq_some_iff.2 ⟨_, hnumbers, rfl⟩,
    ⟨⟨_, rfl, rfl⟩, ⟨_, rfl, rfl⟩, rfl, rfl⟩,
    ⟨hxfinite, hyfinite, hwidthfinite, hheightfinite⟩,
    ⟨hxequal, hyequal, hwidthequal, hheightequal⟩⟩

/-! ## A document with nothing but a view box -/

/-- The text of a document whose root has a view box and nothing else. -/
def rendered (viewBox content : String) : String :=
  "<svg viewBox=\"" ++ viewBox ++ "\">" ++ content ++ "</svg>"

/-- The only attribute of such a document. -/
def viewBoxAttribute (value : List Char) : RootAttribute where
  gap := [' ']
  name := .plain ['v', 'i', 'e', 'w', 'B', 'o', 'x']
  beforeEquals := []
  afterEquals := []
  quote := '"'
  value := value

theorem rendered_eq (value : List Char) (content : String) :
    rendered (String.ofList value) content =
      String.ofList (documentText [viewBoxAttribute value] [] content.toList) := by
  apply String.toList_injective
  show ("<svg viewBox=\"" ++ String.ofList value ++ "\">" ++ content ++ "</svg>").toList = _
  simp [documentText, tagText, RootAttribute.text, RootAttribute.link, RootName.text,
    RootName.lead, RootName.word, viewBoxAttribute]

theorem isValueCharacter_of_isNumeralCharacter {c : Char} (h : isNumeralCharacter c) :
    isValueCharacter c := by
  rw [← Bool.not_eq_false]
  intro hvalue
  simp only [isValueCharacter, isQuote, Bool.not_eq_false', Bool.or_eq_true,
    decide_eq_true_eq] at hvalue
  rcases hvalue with ((((((rfl | rfl) | rfl) | rfl) | rfl) | rfl) | rfl)
  all_goals exact absurd h (by decide)

theorem isValueCharacter_of_mem_numeralsText {r : Rectangle} (hr : r.IsFinite) {c : Char}
    (hc : c ∈ numeralsText r) : isValueCharacter c := by
  have hnumber : ∀ {x : Binary64}, x.isFinite → c ∈ numeral x → isValueCharacter c :=
    fun hx hmem => isValueCharacter_of_isNumeralCharacter (isNumeralCharacter_of_mem_numeral hx hmem)
  simp only [numeralsText, List.mem_append, List.mem_cons] at hc
  rcases hc with hc | rfl | hc | rfl | hc | rfl | hc
  · exact hnumber hr.x hc
  · decide
  · exact hnumber hr.y hc
  · decide
  · exact hnumber hr.width hc
  · decide
  · exact hnumber hr.height hc

theorem valid_viewBoxAttribute {value : List Char} (h : ∀ c ∈ value, isValueCharacter c) :
    (viewBoxAttribute value).Valid where
  gap_ne := List.cons_ne_nil _ _
  gap := by
    intro c hc
    rw [List.mem_singleton.1 hc]
    decide
  name := by
    refine ⟨'v', ['i', 'e', 'w', 'B', 'o', 'x'], rfl, by decide, ?_⟩
    have hall : ['i', 'e', 'w', 'B', 'o', 'x'].all isPlainCharacter := by
      decide
    exact List.all_eq_true.1 hall
  beforeEquals := by
    intro c hc
    cases hc
  afterEquals := by
    intro c hc
    cases hc
  quote := by
    show isQuote '"'
    decide
  value := h

/-- What is extracted from a document with a view box of four finite numbers. -/
theorem extract_rendered {box : ViewBox} {r : Rectangle} (hbox : Shows box r) (hr : r.IsFinite)
    {content : String} (hcontent : ¬ HoldsClosingTag content.toList) (defaultSize : Json) :
    ∃ text graphic s, box.text = .ok text ∧
      extract defaultSize (rendered text content) = .ok graphic ∧
      Shows graphic.viewBox s ∧ s.Equal r ∧
      graphic.inner = String.ofList (strip content.toList) ∧ graphic.namespaces = [] := by
  obtain ⟨readBox, s, hread, hshows, -, hequal⟩ := viewBoxOfValue?_numeralsText hr
  have hvalid := valid_viewBoxAttribute fun _ hc => isValueCharacter_of_mem_numeralsText hr hc
  have hattributes : ∀ a ∈ [viewBoxAttribute (numeralsText r)], a.Regular := by
    intro a ha
    rw [List.mem_singleton.1 ha]
    exact hvalid.regular
  have hne : numeralsText r ≠ [] := by
    rw [numeralsText]
    simp
  have hvalue : attribute? "viewbox" (tagText [viewBoxAttribute (numeralsText r)] []) =
      some (numeralsText r) := by
    rw [attribute?, findAttribute?_tagText hattributes (by simp) (by decide)
      (fun k hk => List.all_eq_true.1 (show "viewbox".toList.all Char.isLower by decide) k hk)]
    have hname : ['v', 'i', 'e', 'w', 'B', 'o', 'x'].map foldCase = "viewbox".toList := by
      decide
    rw [List.find?_cons_of_pos (by rw [decide_eq_true_eq]; exact ⟨hname, hne⟩)]
    rfl
  refine ⟨_, { viewBox := readBox, inner := _, namespaces := [] }, s, text_of_shows hbox, ?_,
    hshows, hequal, rfl, rfl⟩
  rw [rendered_eq, extract_documentText hattributes (by simp) hcontent, viewBoxOf, declaredViewBox?,
    hvalue]
  simp only [Option.map_some, hread]
  rfl

/-! ## What was extracted -/

theorem ofRatio?_zero (d : Nat) : Magnitude.ofRatio? 0 d = some .zero := by
  have hquotient : Magnitude.nearestQuotient 0 (d * Nat.pow 2 0) = 0 := by
    rw [Magnitude.nearestQuotient, Nat.zero_div, Nat.zero_mod]
    simp only [Nat.mul_zero, Nat.zero_mod, ite_eq_left_iff]
    intro hlarge
    simp only [Bool.or_eq_true, Bool.and_eq_true, decide_eq_true_eq, and_true] at hlarge
    omega
  unfold Magnitude.ofRatio?
  generalize Nat.pow 2 1074 = unit
  simp only [Nat.zero_mul, Nat.zero_div, Nat.log2_zero, Nat.zero_sub, hquotient]
  rfl

theorem toBinary64_integer {i : Int} {x : Binary64} (h : Binary64.ofInt? i = some x) :
    (Json.integer i).toBinary64 = .ok x := by
  rw [Json.toBinary64, h]
  rfl

theorem toBinary64_zero : (Json.integer 0).toBinary64 = .ok .zero := by
  apply toBinary64_integer
  rw [Binary64.ofInt?, Int.natAbs_zero, ofRatio?_zero]
  rfl

theorem FourNumbers.shows {value : List Char} {r : Rectangle} (h : FourNumbers value r) :
    Shows r.box r ∧ r.IsFinite := by
  obtain ⟨_, _, _, _, _, _, _, -, hx, hy, hwidth, hheight, -⟩ := h
  exact ⟨⟨⟨_, rfl, rfl⟩, ⟨_, rfl, rfl⟩, rfl, rfl⟩,
    ⟨hx.isFinite, hy.isFinite, hwidth.isFinite, hheight.isFinite⟩⟩

theorem exists_rectangle_of_atOrigin {width height : Json} {x y : Binary64}
    (hwidth : width.toBinary64 = .ok x) (hx : x.isFinite) (hheight : height.toBinary64 = .ok y)
    (hy : y.isFinite) : ∃ r, Shows (atOrigin width height) r ∧ r.IsFinite :=
  ⟨⟨.zero, .zero, x, y⟩,
    ⟨⟨_, rfl, toBinary64_zero⟩, ⟨_, rfl, toBinary64_zero⟩, hwidth, hheight⟩, ⟨rfl, rfl, hx, hy⟩⟩

theorem exists_rectangle_of_viewBoxOf {defaultSize : Json} {side : Binary64}
    (hdefault : defaultSize.toBinary64 = .ok side) (hside : side.isFinite)
    {attributes : List Char} {box : ViewBox} (h : viewBoxOf defaultSize attributes = .ok box) :
    ∃ r, Shows box r ∧ r.IsFinite := by
  obtain ⟨value, r, hr, rfl⟩ | ⟨width, height, hsize, rfl⟩ | rfl := viewBoxOf_cases h
  · exact ⟨r, hr.shows⟩
  · obtain ⟨⟨_, -, hwidth⟩, ⟨_, -, hheight⟩⟩ := hsize
    exact exists_rectangle_of_atOrigin rfl (NumberLayout.isFinite_of_leadingNumber? hwidth) rfl
      (NumberLayout.isFinite_of_leadingNumber? hheight)
  · exact exists_rectangle_of_atOrigin hdefault hside hdefault hside

/-- A graphic that was extracted has four finite numbers, and its content is stripped and holds no
closing tag. -/
theorem of_extract {defaultSize : Json} {side : Binary64}
    (hdefault : defaultSize.toBinary64 = .ok side) (hside : side.isFinite) {text : String}
    {graphic : Graphic} (h : extract defaultSize text = .ok graphic) :
    (∃ r, Shows graphic.viewBox r ∧ r.IsFinite) ∧ ¬ HoldsClosingTag graphic.inner.toList ∧
      String.ofList (strip graphic.inner.toList) = graphic.inner := by
  obtain ⟨root, hroot, hbox, hgraphic⟩ := root_of_extract h
  have hinner : graphic.inner = String.ofList (strip root.content) := by
    rw [hgraphic]
    rfl
  rw [hinner, String.toList_ofList, strip_strip]
  refine ⟨exists_rectangle_of_viewBoxOf hdefault hside hbox, ?_, rfl⟩
  intro hholds
  exact not_holdsClosingTag_of_root? hroot (hholds.of_isInfix (stripBy_isInfix isBlank _))

/-- **Writing and extracting are inverse.** From a document that is written with a view box of four
finite numbers and a content without a closing tag, those numbers and the stripped content are
extracted, and no declarations. Every graphic that is extracted at all, with a finite default size,
meets these conditions; so it is extracted again from the document that is written for it. -/
theorem extract_rendered_and_extract :
    (∀ (box : ViewBox) (r : Rectangle) (content : String) (defaultSize : Json),
      Shows box r → r.IsFinite → ¬ HoldsClosingTag content.toList →
      ∃ text graphic s, box.text = .ok text ∧
        extract defaultSize (rendered text content) = .ok graphic ∧
        Shows graphic.viewBox s ∧ s.Equal r ∧
        graphic.inner = String.ofList (strip content.toList) ∧ graphic.namespaces = []) ∧
    (∀ (defaultSize : Json) (side : Binary64) (text : String) (graphic : Graphic),
      defaultSize.toBinary64 = .ok side → side.isFinite →
      extract defaultSize text = .ok graphic →
      ∃ r, Shows graphic.viewBox r ∧ r.IsFinite ∧ ¬ HoldsClosingTag graphic.inner.toList ∧
        ∃ viewBox, graphic.viewBox.text = .ok viewBox ∧ ∀ otherSize : Json, ∃ again s,
          extract otherSize (rendered viewBox graphic.inner) = .ok again ∧
          Shows again.viewBox s ∧ s.Equal r ∧ again.inner = graphic.inner) := by
  constructor
  · intro box r content defaultSize hbox hr hcontent
    exact extract_rendered hbox hr hcontent defaultSize
  · intro defaultSize side text graphic hdefault hside h
    obtain ⟨⟨r, hshows, hr⟩, hcontent, hstrip⟩ := of_extract hdefault hside h
    refine ⟨r, hshows, hr, hcontent, _, text_of_shows hshows, fun otherSize => ?_⟩
    obtain ⟨viewBox, again, s, htext, hagain, hbox, hequal, hinner, -⟩ :=
      extract_rendered hshows hr hcontent otherSize
    rw [text_of_shows hshows, Except.ok.injEq] at htext
    subst htext
    exact ⟨again, s, hagain, hbox, hequal, hinner.trans hstrip⟩

def twentyFour : Binary64 :=
  .finite false ⟨6755399441055744, 1026, by decide, by decide, Or.inr (by decide)⟩

/-- A square with the side 24 comes back with its content, and is written for a document without
any size. -/
theorem extract_rendered_square :
    (∃ text graphic s,
      (ViewBox.mk (.real twentyFour) (.real twentyFour) (some (.real .zero))
        (some (.real .zero))).text = .ok text ∧
      extract .null (rendered text "<g/>") = .ok graphic ∧ Shows graphic.viewBox s ∧
      s.Equal ⟨.zero, .zero, twentyFour, twentyFour⟩ ∧
      graphic.inner = String.ofList (strip "<g/>".toList) ∧ graphic.namespaces = []) ∧
    (∃ graphic, extract (.real twentyFour) "<svg> <g/> </svg>" = .ok graphic ∧
      ∃ r, Shows graphic.viewBox r ∧ r.IsFinite ∧ ¬ HoldsClosingTag graphic.inner.toList ∧
        ∃ viewBox, graphic.viewBox.text = .ok viewBox ∧ ∀ otherSize : Json, ∃ again s,
          extract otherSize (rendered viewBox graphic.inner) = .ok again ∧
          Shows again.viewBox s ∧ s.Equal r ∧ again.inner = graphic.inner) := by
  constructor
  · exact extract_rendered_and_extract.1 _ ⟨.zero, .zero, twentyFour, twentyFour⟩ "<g/>" .null
      ⟨⟨_, rfl, rfl⟩, ⟨_, rfl, rfl⟩, rfl, rfl⟩ ⟨rfl, rfl, rfl, rfl⟩ (by decide)
  · refine ⟨_, rfl, ?_⟩
    exact extract_rendered_and_extract.2 (.real twentyFour) twentyFour "<svg> <g/> </svg>" _ rfl rfl
      rfl

end IconForge.Graphic
