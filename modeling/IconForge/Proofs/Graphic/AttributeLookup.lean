import Mathlib
import IconForge.Proofs.Graphic.Geometry

set_option autoImplicit false

/-! # Attributes by their names

A root is read by searching through the text of its opening tag. When that text is a list of
attributes with different names, what is found are the attributes themselves: the values of the
view box, width and height by their names alone, and every declaration
(`extract_eq_of_attributes`). No other attribute counts for the rectangle, nor does the order of the
attributes or the kind of the quotes.

A search looks for the words of names only, so a prefix that is declared would pass for a size if it
were called like one, and a value that is empty is passed over. The first is excluded for the three
names; the second matters for the view box alone, since an empty width has no number in it
anyway. -/

namespace IconForge.Graphic

open IconForge.Text

/-- The value of the attribute with a name, ignoring case. -/
def valueOf (key : String) (attributes : List RootAttribute) : Option (List Char) :=
  (attributes.find? fun a => a.name.text.map foldCase = key.toList).map RootAttribute.value

/-- The names that the rectangle of a root depends on. -/
def geometryNames : List String :=
  ["viewbox", "width", "height"]

/-- Attributes that are told apart by their names, so that searching for them is looking them
up. -/
structure Distinct (attributes : List RootAttribute) : Prop where
  regular : ∀ a ∈ attributes, a.Regular
  distinct : (attributes.map fun a => a.name.text.map foldCase).Nodup
  /-- No prefix is called like an attribute of the rectangle. -/
  declared : ∀ a ∈ attributes, ∀ word, a.name = .declared word →
    ∀ key ∈ geometryNames, word.map foldCase ≠ key.toList
  viewBox : ∀ a ∈ attributes, a.name.text.map foldCase = "viewbox".toList → a.value ≠ []

theorem isLower_of_mem_geometryNames {key : String} (h : key ∈ geometryNames) :
    ∀ k ∈ key.toList, k.isLower := by
  have hall : geometryNames.all fun key => key.toList.all Char.isLower := by
    decide
  exact List.all_eq_true.1 (List.all_eq_true.1 hall key h)

theorem ne_nil_of_mem_geometryNames {key : String} (h : key ∈ geometryNames) :
    key.toList ≠ [] := by
  have hall : geometryNames.all fun key => !key.toList.isEmpty := by
    decide
  simpa using List.all_eq_true.1 hall key h

namespace Distinct

variable {attributes : List RootAttribute} {trailing : List Char} {key : String}

/-- Different names leave one attribute for each. -/
theorem valueOf_eq_some_iff (h : Distinct attributes) {value : List Char} :
    valueOf key attributes = some value ↔
      ∃ a ∈ attributes, a.name.text.map foldCase = key.toList ∧ a.value = value := by
  have hdistinct := h.distinct
  clear h
  rw [valueOf]
  induction attributes with
  | nil => simp
  | cons a attributes ih =>
      rw [List.map_cons, List.nodup_cons] at hdistinct
      obtain ⟨hfirst, hrest⟩ := hdistinct
      rw [List.exists_mem_cons_iff]
      by_cases hname : a.name.text.map foldCase = key.toList
      · rw [List.find?_cons_of_pos (by simpa using hname), Option.map_some, Option.some.injEq]
        constructor
        · exact fun hvalue => Or.inl ⟨hname, hvalue⟩
        · rintro (⟨-, hvalue⟩ | ⟨b, hb, hbname, -⟩)
          · exact hvalue
          · rw [hname, ← hbname] at hfirst
            exact absurd (List.mem_map_of_mem hb) hfirst
      · rw [List.find?_cons_of_neg (by simpa using hname)]
        exact (ih hrest).trans (by simp [hname])

/-- For the names of the rectangle the word alone tells what the attribute is. -/
theorem word_eq_iff (h : Distinct attributes) (hkey : key ∈ geometryNames) {a : RootAttribute}
    (ha : a ∈ attributes) :
    a.name.word.map foldCase = key.toList ↔ a.name.text.map foldCase = key.toList := by
  cases hname : a.name with
  | plain word => rfl
  | declared word =>
      refine iff_of_false (h.declared a ha word hname key hkey) ?_
      intro htext
      -- The colon of `xmlns:` is in none of the names.
      have hcolon : foldCase ':' ∈ key.toList := by
        rw [← htext]
        exact List.mem_map_of_mem (by simp [RootName.text, RootName.lead])
      exact absurd (isLower_of_mem_geometryNames hkey _ hcolon) (by decide)

/-- **Searching for a name is looking it up**, except that an empty value is not found. -/
theorem attribute?_tagText (h : Distinct attributes) (htrailing : ∀ c ∈ trailing, isBlank c)
    (hkey : key ∈ geometryNames) :
    attribute? key (tagText attributes trailing) =
      (valueOf key attributes).filter (!·.isEmpty) := by
  rw [attribute?, findAttribute?_tagText h.regular htrailing (ne_nil_of_mem_geometryNames hkey)
    (isLower_of_mem_geometryNames hkey)]
  have hmatch : ∀ a ∈ attributes, a.name.word.map foldCase = key.toList →
      valueOf key attributes = some a.value := by
    intro a ha hword
    exact h.valueOf_eq_some_iff.2 ⟨a, ha, (h.word_eq_iff hkey ha).1 hword, rfl⟩
  cases hfound : attributes.find?
      fun a => a.name.word.map foldCase = key.toList ∧ a.value ≠ [] with
  | some a =>
      have ha := List.find?_some hfound
      rw [decide_eq_true_eq] at ha
      rw [hmatch a (List.mem_of_find?_eq_some hfound) ha.1]
      simp [Option.filter_some, ha.2]
  | none =>
      -- An attribute with the name may be there all the same, with an empty value.
      cases hvalue : valueOf key attributes with
      | none => rfl
      | some value =>
          obtain ⟨a, ha, hname, rfl⟩ := h.valueOf_eq_some_iff.1 hvalue
          have hnot := List.find?_eq_none.1 hfound a ha
          simp only [(h.word_eq_iff hkey ha).2 hname, decide_eq_true_eq, true_and, ne_eq,
            not_not] at hnot
          simp [Option.filter_some, hnot]

theorem valueOf_eq_of_perm {other : List RootAttribute} (h : Distinct attributes)
    (hother : Distinct other)
    (hperm : (attributes.map fun a => (a.name, a.value)).Perm (other.map fun a => (a.name, a.value))) :
    valueOf key attributes = valueOf key other := by
  have hmem : ∀ {these those : List RootAttribute},
      (these.map fun a => (a.name, a.value)).Perm (those.map fun a => (a.name, a.value)) →
      ∀ a ∈ these, ∃ b ∈ those, b.name = a.name ∧ b.value = a.value := by
    intro these those hperm a ha
    have hpair := hperm.subset (List.mem_map_of_mem ha)
    obtain ⟨b, hb, heq⟩ := List.mem_map.1 hpair
    exact ⟨b, hb, Prod.mk.inj heq⟩
  -- As names are different, a value is a matter of membership, which no order changes.
  ext value
  rw [h.valueOf_eq_some_iff, hother.valueOf_eq_some_iff]
  constructor
  · rintro ⟨a, ha, hname, rfl⟩
    obtain ⟨b, hb, hbname, hbvalue⟩ := hmem hperm a ha
    exact ⟨b, hb, hbname ▸ hname, hbvalue⟩
  · rintro ⟨a, ha, hname, rfl⟩
    obtain ⟨b, hb, hbname, hbvalue⟩ := hmem hperm.symm a ha
    exact ⟨b, hb, hbname ▸ hname, hbvalue⟩

end Distinct

/-! ## The graphic -/

theorem bind_leadingNumber?_filter (value : Option (List Char)) :
    (value.filter (!·.isEmpty)).bind Numeral.leadingNumber? =
      value.bind Numeral.leadingNumber? := by
  cases value with
  | none => rfl
  | some cs =>
      cases cs with
      | nil => rfl
      | cons c cs => rfl

/-- Values that are empty do not count for the size. -/
theorem boxOfValues_filter {viewBox : Option (List Char)} (h : viewBox ≠ some [])
    (defaultSize : Json) (width height : Option (List Char)) :
    boxOfValues defaultSize (viewBox.filter (!·.isEmpty)) (width.filter (!·.isEmpty))
        (height.filter (!·.isEmpty)) =
      boxOfValues defaultSize viewBox width height := by
  cases viewBox with
  | none =>
      have hsize : sizeOfValues? (width.filter (!·.isEmpty)) (height.filter (!·.isEmpty)) =
          sizeOfValues? width height := by
        rw [sizeOfValues?, sizeOfValues?, bind_leadingNumber?_filter, bind_leadingNumber?_filter]
      simp only [boxOfValues, Option.filter_none, hsize]
  | some value =>
      have hne : value ≠ [] := by
        rintro rfl
        exact h rfl
      rw [Option.filter_some, if_pos (by simpa using hne)]
      rfl

/-- The root of a text has these attributes and this content. -/
def HasRoot (text : String) (attributes : List RootAttribute) (content : List Char) : Prop :=
  ∃ trailing, (∀ c ∈ trailing, isBlank c) ∧
    root? text.toList = some ⟨tagText attributes trailing, content⟩

/-- The graphic that the attributes of a root give by their names. -/
def graphicOf (defaultSize : Json) (attributes : List RootAttribute) (content : List Char) :
    Except Unusable Graphic :=
  (boxOfValues defaultSize (valueOf "viewbox" attributes) (valueOf "width" attributes)
    (valueOf "height" attributes)).map fun box =>
      { viewBox := box
        inner := String.ofList (strip content)
        namespaces := (declarationsOf attributes).map fun (name, value) =>
          (String.ofList name, String.ofList value) }

theorem extract_of_hasRoot {text : String} {attributes : List RootAttribute}
    {content : List Char} (h : Distinct attributes) (hroot : HasRoot text attributes content)
    (defaultSize : Json) :
    extract defaultSize text = graphicOf defaultSize attributes content := by
  obtain ⟨trailing, htrailing, hroot⟩ := hroot
  have hvalue : valueOf "viewbox" attributes ≠ some [] := by
    intro hempty
    obtain ⟨a, ha, hname, hvalue⟩ := h.valueOf_eq_some_iff.1 hempty
    exact h.viewBox a ha hname hvalue
  rw [extract_of_root? hroot, h.attribute?_tagText htrailing (by decide),
    h.attribute?_tagText htrailing (by decide), h.attribute?_tagText htrailing (by decide),
    boxOfValues_filter hvalue, graphicOf]
  congr 1
  funext box
  rw [Root.graphic, declarations, findDeclarations_tagText h.regular htrailing]

/-- **A root is read by the names of its attributes.** When the opening tag is a list of
attributes with different names, the rectangle depends on the values with the names of view box,
width and height only, and the namespaces are all declarations in their order. Another tag with the
same names and values gives the same graphic, whatever the order of the attributes, their quotes and
the blanks between them, as long as the declarations keep their order. -/
theorem extract_eq_of_attributes {text : String} {attributes : List RootAttribute}
    {content : List Char} (h : Distinct attributes) (hroot : HasRoot text attributes content)
    (defaultSize : Json) :
    extract defaultSize text = graphicOf defaultSize attributes content ∧
      ∀ otherText other, Distinct other → HasRoot otherText other content →
        (other.map fun a => (a.name, a.value)).Perm (attributes.map fun a => (a.name, a.value)) →
        declarationsOf other = declarationsOf attributes →
        extract defaultSize otherText = extract defaultSize text := by
  refine ⟨extract_of_hasRoot h hroot defaultSize, ?_⟩
  intro otherText other hother hotherRoot hperm hdeclarations
  rw [extract_of_hasRoot h hroot, extract_of_hasRoot hother hotherRoot, graphicOf, graphicOf,
    hother.valueOf_eq_of_perm h hperm, hother.valueOf_eq_of_perm h hperm,
    hother.valueOf_eq_of_perm h hperm, hdeclarations]

/-- Attributes with a declaration among them and two widths, of which one is no width. -/
def strokedAttributes : List RootAttribute :=
  [⟨[' '], .plain "stroke-width".toList, [], [], '"', ['2']⟩,
    ⟨['\n'], .declared ['a'], [], [], '\'', ['u']⟩,
    ⟨[' '], .plain "Width".toList, [' '], [], '"', ['0']⟩]

/-- The same attributes in another order and with other quotes. -/
def reorderedAttributes : List RootAttribute :=
  [⟨[' '], .declared ['a'], [], [], '"', ['u']⟩,
    ⟨[' '], .plain "Width".toList, [], [], '\'', ['0']⟩,
    ⟨[' '], .plain "stroke-width".toList, [], [], '\'', ['2']⟩]

theorem distinct_strokedAttributes : Distinct strokedAttributes where
  regular := by decide
  distinct := by decide
  declared := by
    intro a ha word hname
    simp only [strokedAttributes, List.mem_cons, List.not_mem_nil, or_false] at ha
    rcases ha with rfl | rfl | rfl
    · cases hname
    · cases hname
      decide
    · cases hname
  viewBox := by decide

theorem distinct_reorderedAttributes : Distinct reorderedAttributes where
  regular := by decide
  distinct := by decide
  declared := by
    intro a ha word hname
    simp only [reorderedAttributes, List.mem_cons, List.not_mem_nil, or_false] at ha
    rcases ha with rfl | rfl | rfl
    · cases hname
      decide
    · cases hname
    · cases hname
  viewBox := by decide

set_option maxRecDepth 2000 in
/-- The stroke is no size, and the order and the quotes are no matter. -/
theorem extract_eq_of_attributes_stroked :
    extract .null "<svg stroke-width=\"2\"\nxmlns:a='u' Width =\"0\"></svg>" =
        graphicOf .null strokedAttributes [] ∧
      extract .null "<svg xmlns:a=\"u\" Width='0' stroke-width='2' ></svg>" =
        extract .null "<svg stroke-width=\"2\"\nxmlns:a='u' Width =\"0\"></svg>" := by
  have hroot : HasRoot "<svg stroke-width=\"2\"\nxmlns:a='u' Width =\"0\"></svg>"
      strokedAttributes [] := ⟨[], by simp, by decide⟩
  have hother : HasRoot "<svg xmlns:a=\"u\" Width='0' stroke-width='2' ></svg>"
      reorderedAttributes [] := ⟨[' '], List.all_eq_true.1 (by decide), by decide⟩
  obtain ⟨hextract, hsame⟩ := extract_eq_of_attributes distinct_strokedAttributes hroot .null
  exact ⟨hextract, hsame _ _ distinct_reorderedAttributes hother (by decide) (by decide)⟩

end IconForge.Graphic
