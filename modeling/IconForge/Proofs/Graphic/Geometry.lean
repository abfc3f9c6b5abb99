import Mathlib
import IconForge.Graphic.Extraction
import IconForge.Proofs.Graphic.RootTag
import IconForge.Proofs.Number.ReadBack

set_option autoImplicit false

/-! # The geometry of a root

Three attributes of a root decide its rectangle: a view box alone when there is one, otherwise
width and height together, and the default size when these do not give two numbers
(`extract_geometry`).

What counts as an attribute here is a match in the text of the opening tag, whether or not an
attribute stands there: the leftmost place where a name, its equals sign and a quoted value follow
(`Matched`). A view box that matches has to be four numbers with runs of blanks between them and
nothing else (`FourNumbers`); cutting the value at its runs finds exactly these. -/

namespace IconForge.Graphic

open IconForge.Text

/-! ## Matches -/

/-- Behind the front of a text a name may begin, and there stands the key, ignoring case, with a
value that is not empty. -/
def MatchedBehind (front : List Char) (key : String) (cs value : List Char) : Prop :=
  ∃ name rest behind, cs = front ++ (name ++ rest) ∧ atBoundary front.getLast? ∧
    name.map foldCase = key.toList ∧ Assigns rest value behind ∧ value ≠ []

/-- The leftmost match of a key in a text has this value. -/
def Matched (key : String) (cs value : List Char) : Prop :=
  ∃ front, MatchedBehind front key cs value ∧
    ∀ other otherValue, MatchedBehind other key cs otherValue → front.length ≤ other.length

theorem attributeAt?_eq_some_iff {key cs value : List Char} :
    attributeAt? key cs = some value ↔
      ∃ name rest behind, cs = name ++ rest ∧ name.map foldCase = key ∧
        Assigns rest value behind ∧ value ≠ [] := by
  rw [attributeAt?]
  constructor
  · intro h
    split at h
    · next found behind hfound =>
      rw [Option.ite_none_left_eq_some, List.isEmpty_iff, Option.some.injEq] at h
      obtain ⟨hne, rfl⟩ := h
      obtain ⟨rest, hdrop, hvalue⟩ := Option.bind_eq_some_iff.1 hfound
      obtain ⟨name, rfl, hname⟩ := dropFolded?_eq_some_iff.1 hdrop
      exact ⟨name, rest, behind, rfl, hname, value?_eq_some_iff.1 hvalue, hne⟩
    · cases h
  · rintro ⟨name, rest, behind, rfl, hname, hassigns, hne⟩
    rw [dropFolded?_eq_some_iff.2 ⟨name, rfl, hname⟩, Option.bind_some,
      value?_eq_some_iff.2 hassigns]
    simp [hne]

theorem matchedBehind_iff {front cs value : List Char} {key : String} :
    MatchedBehind front key cs value ↔
      ∃ rest, cs = front ++ rest ∧ atBoundary front.getLast? ∧
        attributeAt? key.toList rest = some value := by
  constructor
  · rintro ⟨name, rest, behind, rfl, hboundary, hname, hassigns, hne⟩
    exact ⟨_, rfl, hboundary,
      attributeAt?_eq_some_iff.2 ⟨name, rest, behind, rfl, hname, hassigns, hne⟩⟩
  · rintro ⟨_, rfl, hboundary, hat⟩
    obtain ⟨name, rest, behind, rfl, hname, hassigns, hne⟩ := attributeAt?_eq_some_iff.1 hat
    exact ⟨name, rest, behind, rfl, hboundary, hname, hassigns, hne⟩

/-- A search stops behind the first stretch that is quiet for it. -/
theorem findAttribute?_eq_some_iff {key cs value : List Char} {previous : Option Char} :
    findAttribute? key previous cs = some value ↔
      ∃ front rest, cs = front ++ rest ∧ Quiet (attributeAt? key) previous front rest ∧
        atBoundary (lastOf previous front) ∧ attributeAt? key rest = some value := by
  constructor
  · intro h
    induction cs generalizing previous with
    | nil => cases h
    | cons c cs ih =>
        rw [findAttribute?] at h
        split at h
        · next hfound =>
          cases h
          obtain ⟨hboundary, hat⟩ := Option.ite_none_right_eq_some.1 hfound
          exact ⟨[], c :: cs, rfl, trivial, hboundary, hat⟩
        · next hnone =>
          obtain ⟨front, rest, rfl, hquiet, hboundary, hat⟩ := ih h
          refine ⟨c :: front, rest, rfl, ⟨fun hprevious => ?_, hquiet⟩, hboundary, hat⟩
          rwa [if_pos hprevious] at hnone
  · rintro ⟨front, rest, rfl, hquiet, hboundary, hat⟩
    rw [findAttribute?_of_quiet hquiet]
    cases rest with
    | nil =>
        -- Nothing is left of the text, so there is no equals sign either.
        obtain ⟨name, rest, behind, heq, -, hassigns, -⟩ := attributeAt?_eq_some_iff.1 hat
        obtain ⟨before, after, opening, closing, rfl, -⟩ := hassigns
        simp at heq
    | cons c rest => rw [findAttribute?, if_pos hboundary, hat]

theorem lastOf_none (cs : List Char) : lastOf none cs = cs.getLast? := by
  rcases List.eq_nil_or_concat cs with rfl | ⟨front, c, rfl⟩
  · rfl
  · rw [List.concat_eq_append, lastOf_append, List.getLast?_append]
    rfl

/-- **The value that is looked up** in a text is that of the leftmost match. -/
theorem attribute?_eq_some_iff {key : String} {cs value : List Char} :
    attribute? key cs = some value ↔ Matched key cs value := by
  rw [attribute?, findAttribute?_eq_some_iff]
  constructor
  · rintro ⟨front, rest, rfl, hquiet, hboundary, hat⟩
    rw [lastOf_none] at hboundary
    refine ⟨front, matchedBehind_iff.2 ⟨rest, rfl, hboundary, hat⟩, ?_⟩
    intro other otherValue hother
    obtain ⟨otherRest, heq, hotherBoundary, hotherAt⟩ := matchedBehind_iff.1 hother
    by_contra! hshorter
    -- A match further left would begin in the quiet front.
    obtain ⟨more, rfl, rfl⟩ | ⟨more, rfl, rfl⟩ := List.append_eq_append_iff.1 heq
    · simp at hshorter
    · have hmore : more ≠ [] := by
        rintro rfl
        simp at hshorter
      rw [← lastOf_none] at hotherBoundary
      rw [quiet_iff.1 hquiet other more rfl hmore hotherBoundary] at hotherAt
      cases hotherAt
  · rintro ⟨front, hmatched, hleftmost⟩
    obtain ⟨rest, rfl, hboundary, hat⟩ := matchedBehind_iff.1 hmatched
    refine ⟨front, rest, rfl, ?_, by rwa [lastOf_none], hat⟩
    rw [quiet_iff]
    rintro before behind rfl hne hbefore
    rw [lastOf_none] at hbefore
    cases hbehind : attributeAt? key.toList (behind ++ rest) with
    | none => rfl
    | some other =>
        have hle := hleftmost before other
          (matchedBehind_iff.2 ⟨behind ++ rest, List.append_assoc .., hbefore, hbehind⟩)
        have hpos := List.length_pos_of_ne_nil hne
        rw [List.length_append] at hle
        omega

theorem attribute?_eq_none_iff {key : String} {cs : List Char} :
    attribute? key cs = none ↔ ¬ ∃ value, Matched key cs value := by
  simp only [← attribute?_eq_some_iff, Option.eq_none_iff_forall_ne_some, not_exists, ne_eq]

/-! ## Four numbers -/

structure Rectangle where
  x : Binary64
  y : Binary64
  width : Binary64
  height : Binary64

def Rectangle.box (r : Rectangle) : ViewBox :=
  ⟨.real r.width, .real r.height, some (.real r.x), some (.real r.y)⟩

/-- A text without blanks that begins with a number. -/
structure IsToken (token : List Char) (x : Binary64) : Prop where
  ne_nil : token ≠ []
  unblank : ∀ c ∈ token, isBlank c = false
  number : Numeral.leadingNumber? token = some x

/-- A text of nothing but blanks, at least one. -/
structure IsRun (run : List Char) : Prop where
  ne_nil : run ≠ []
  blank : ∀ c ∈ run, isBlank c

/-- A value is four tokens with runs of blanks between them and none at its ends. -/
def FourNumbers (value : List Char) (r : Rectangle) : Prop :=
  ∃ x run₁ y run₂ width run₃ height,
    value = x ++ (run₁ ++ (y ++ (run₂ ++ (width ++ (run₃ ++ height))))) ∧
      IsToken x r.x ∧ IsToken y r.y ∧ IsToken width r.width ∧ IsToken height r.height ∧
      IsRun run₁ ∧ IsRun run₂ ∧ IsRun run₃

theorem leadingNumber?_nil : Numeral.leadingNumber? [] = none :=
  rfl

theorem IsToken.of_number {token : List Char} {x : Binary64}
    (hunblank : ∀ c ∈ token, isBlank c = false) (hnumber : Numeral.leadingNumber? token = some x) :
    IsToken token x where
  ne_nil := by
    rintro rfl
    rw [leadingNumber?_nil] at hnumber
    cases hnumber
  unblank := hunblank
  number := hnumber

theorem IsToken.unblank_head? {token : List Char} {x : Binary64} (h : IsToken token x)
    (rest : List Char) : ∀ c ∈ (token ++ rest).head?, isBlank c = false := by
  obtain ⟨d, tail, rfl⟩ := List.exists_cons_of_ne_nil h.ne_nil
  intro c hc
  rw [List.cons_append, List.head?_cons, Option.mem_some_iff] at hc
  exact h.unblank c (hc ▸ List.mem_cons_self)

theorem splitAtRuns_token {token run rest : List Char} {x : Binary64} (h : IsToken token x)
    (hrun : IsRun run) (hrest : ∀ c ∈ rest.head?, isBlank c = false) :
    splitAtRuns isBlank (token ++ (run ++ rest)) = token :: splitAtRuns isBlank rest :=
  splitAtRuns_append h.unblank hrun.ne_nil hrun.blank hrest

theorem exists_token_of_cons {value : List Char} {x y : Binary64} {numbers : List (Option Binary64)}
    (h : (splitAtRuns isBlank value).map Numeral.leadingNumber? = some x :: some y :: numbers) :
    ∃ token run rest, value = token ++ (run ++ rest) ∧ IsToken token x ∧ IsRun run ∧
      (splitAtRuns isBlank rest).map Numeral.leadingNumber? = some y :: numbers := by
  obtain ⟨piece, hpiece, ⟨rfl, hsplit⟩ | ⟨run, rest, rfl, hne, hrun, hsplit⟩⟩ :=
    splitAtRuns_cases isBlank value
  · rw [hsplit] at h
    simp at h
  · rw [hsplit, List.map_cons, List.cons.injEq] at h
    exact ⟨piece, run, rest, rfl, .of_number hpiece h.1, ⟨hne, hrun⟩, h.2⟩

theorem isToken_of_singleton {value : List Char} {x : Binary64}
    (h : (splitAtRuns isBlank value).map Numeral.leadingNumber? = [some x]) : IsToken value x := by
  obtain ⟨piece, hpiece, ⟨rfl, hsplit⟩ | ⟨run, rest, rfl, hne, hrun, hsplit⟩⟩ :=
    splitAtRuns_cases isBlank value
  · rw [hsplit] at h
    simp only [List.map_cons, List.map_nil, List.cons.injEq, and_true] at h
    exact .of_number hpiece h
  · -- A run would open a second piece, even at the end of the value.
    rw [hsplit, List.map_cons, List.cons.injEq, List.map_eq_nil_iff] at h
    obtain ⟨piece, -, ⟨-, hrest⟩ | ⟨_, _, -, -, -, hrest⟩⟩ := splitAtRuns_cases isBlank rest
    · rw [hrest] at h
      cases h.2
    · rw [hrest] at h
      cases h.2

/-- **A view box is read** from four numbers and from nothing else. -/
theorem viewBoxOfValue?_eq_some_iff {value : List Char} {box : ViewBox} :
    viewBoxOfValue? value = some box ↔ ∃ r, FourNumbers value r ∧ box = r.box := by
  rw [viewBoxOfValue?]
  constructor
  · intro h
    split at h
    · next x y width height hnumbers =>
      cases h
      -- Three times a token and its run come off the front; the fourth token is what is left.
      obtain ⟨t₁, run₁, rest₁, rfl, hx, hrun₁, hnumbers⟩ := exists_token_of_cons hnumbers
      obtain ⟨t₂, run₂, rest₂, rfl, hy, hrun₂, hnumbers⟩ := exists_token_of_cons hnumbers
      obtain ⟨t₃, run₃, rest₃, rfl, hwidth, hrun₃, hnumbers⟩ := exists_token_of_cons hnumbers
      have hheight := isToken_of_singleton hnumbers
      exact ⟨⟨x, y, width, height⟩, ⟨t₁, run₁, t₂, run₂, t₃, run₃, rest₃, rfl, hx, hy, hwidth,
        hheight, hrun₁, hrun₂, hrun₃⟩, rfl⟩
    · cases h
  · rintro ⟨r, ⟨x, run₁, y, run₂, width, run₃, height, rfl, hx, hy, hwidth, hheight, hrun₁, hrun₂,
      hrun₃⟩, rfl⟩
    have hlast := hheight.unblank_head? []
    rw [List.append_nil] at hlast
    rw [splitAtRuns_token hx hrun₁ (hy.unblank_head? _),
      splitAtRuns_token hy hrun₂ (hwidth.unblank_head? _),
      splitAtRuns_token hwidth hrun₃ hlast, splitAtRuns_of_no_separator hheight.unblank]
    simp only [List.map_cons, List.map_nil, hx.number, hy.number, hwidth.number, hheight.number]
    rfl

theorem viewBoxOfValue?_eq_none_iff {value : List Char} :
    viewBoxOfValue? value = none ↔ ¬ ∃ r, FourNumbers value r := by
  rw [Option.eq_none_iff_forall_ne_some]
  simp only [ne_eq, viewBoxOfValue?_eq_some_iff, not_exists, not_and]
  exact ⟨fun h r hr => h r.box r hr rfl, fun h _ r hr _ => h r hr⟩

/-! ## The rectangle -/

/-- The size that two values give when both begin with a number. -/
def sizeOfValues? (width height : Option (List Char)) : Option ViewBox :=
  match width.bind Numeral.leadingNumber?, height.bind Numeral.leadingNumber? with
  | some width, some height => some (atOrigin (.real width) (.real height))
  | _, _ => none

/-- The rectangle that the values of view box, width and height give. -/
def boxOfValues (defaultSize : Json) (viewBox width height : Option (List Char)) :
    Except Unusable ViewBox :=
  match viewBox with
  | some value =>
    match viewBoxOfValue? value with
    | some box => .ok box
    | none => .error (.malformedViewBox (String.ofList value))
  | none => .ok ((sizeOfValues? width height).getD (atOrigin defaultSize defaultSize))

theorem declaredSize?_eq (attributes : List Char) :
    declaredSize? attributes =
      sizeOfValues? (attribute? "width" attributes) (attribute? "height" attributes) := by
  rw [declaredSize?, sizeOfValues?]
  cases attribute? "width" attributes with
  | none => rfl
  | some width =>
      cases attribute? "height" attributes with
      | none => cases h : Numeral.leadingNumber? width <;> simp [h]
      | some height => rfl

/-- **Only three values count** for the rectangle of a root. -/
theorem viewBoxOf_eq (defaultSize : Json) (attributes : List Char) :
    viewBoxOf defaultSize attributes =
      boxOfValues defaultSize (attribute? "viewbox" attributes) (attribute? "width" attributes)
        (attribute? "height" attributes) := by
  rw [viewBoxOf, declaredViewBox?, declaredSize?_eq]
  cases attribute? "viewbox" attributes with
  | none => rfl
  | some value => rfl

/-- The graphic of a root that is drawn in a rectangle. -/
def Root.graphic (root : Root) (box : ViewBox) : Graphic :=
  ⟨box, String.ofList (strip root.content), declarations root.attributes⟩

theorem extract_of_root? {text : String} {root : Root} (hroot : root? text.toList = some root)
    (defaultSize : Json) :
    extract defaultSize text =
      (boxOfValues defaultSize (attribute? "viewbox" root.attributes)
        (attribute? "width" root.attributes) (attribute? "height" root.attributes)).map
          root.graphic := by
  rw [extract, hroot, ← viewBoxOf_eq]
  rfl

theorem root_of_extract {defaultSize : Json} {text : String} {graphic : Graphic}
    (h : extract defaultSize text = .ok graphic) :
    ∃ root, root? text.toList = some root ∧
      viewBoxOf defaultSize root.attributes = .ok graphic.viewBox ∧
      graphic = root.graphic graphic.viewBox := by
  rw [extract] at h
  split at h
  · next root hroot =>
    rw [ofRoot] at h
    cases hbox : viewBoxOf defaultSize root.attributes with
    | error why =>
        rw [hbox] at h
        cases h
    | ok box =>
        rw [hbox] at h
        cases h
        exact ⟨root, hroot, hbox, rfl⟩
  · cases h

/-- Width and height of an opening tag both match and begin with these numbers. -/
def HasSize (attributes : List Char) (width height : Binary64) : Prop :=
  (∃ value, Matched "width" attributes value ∧ Numeral.leadingNumber? value = some width) ∧
    ∃ value, Matched "height" attributes value ∧ Numeral.leadingNumber? value = some height

theorem sizeOfValues?_eq_some_iff {attributes : List Char} {box : ViewBox} :
    sizeOfValues? (attribute? "width" attributes) (attribute? "height" attributes) = some box ↔
      ∃ width height, HasSize attributes width height ∧
        box = atOrigin (.real width) (.real height) := by
  simp only [HasSize, ← attribute?_eq_some_iff, ← Option.bind_eq_some_iff]
  rw [sizeOfValues?]
  constructor
  · intro h
    split at h
    · next width height hwidth hheight =>
      cases h
      exact ⟨width, height, ⟨hwidth, hheight⟩, rfl⟩
    · cases h
  · rintro ⟨width, height, ⟨hwidth, hheight⟩, rfl⟩
    rw [hwidth, hheight]

theorem sizeOfValues?_eq_none_iff {attributes : List Char} :
    sizeOfValues? (attribute? "width" attributes) (attribute? "height" attributes) = none ↔
      ¬ ∃ width height, HasSize attributes width height := by
  rw [Option.eq_none_iff_forall_ne_some]
  simp only [ne_eq, sizeOfValues?_eq_some_iff, not_exists, not_and]
  exact ⟨fun h width height hsize => h _ width height hsize rfl,
    fun h _ width height hsize _ => h width height hsize⟩

/-- A rectangle is a view box, a size or the default. -/
theorem viewBoxOf_cases {defaultSize : Json} {attributes : List Char} {box : ViewBox}
    (h : viewBoxOf defaultSize attributes = .ok box) :
    (∃ value r, FourNumbers value r ∧ box = r.box) ∨
      (∃ width height, HasSize attributes width height ∧
        box = atOrigin (.real width) (.real height)) ∨
      box = atOrigin defaultSize defaultSize := by
  rw [viewBoxOf_eq] at h
  unfold boxOfValues at h
  split at h
  · next value _ =>
    split at h
    · next hread =>
      cases h
      obtain ⟨r, hr, hbox⟩ := viewBoxOfValue?_eq_some_iff.1 hread
      exact Or.inl ⟨value, r, hr, hbox⟩
    · cases h
  · cases h
    right
    cases hsize : sizeOfValues? (attribute? "width" attributes) (attribute? "height" attributes) with
    | none => exact Or.inr rfl
    | some box => exact Or.inl (sizeOfValues?_eq_some_iff.1 hsize)

/-! ## Finite numbers -/

/-- A setting that is a finite number: any integer, and a binary64 number that is finite. -/
def IsFiniteNumber : Json → Prop
  | .integer _ => True
  | .real x => x.isFinite
  | _ => False

/-- All four numbers of a view box are there and finite. -/
structure FiniteBox (box : ViewBox) : Prop where
  width : IsFiniteNumber box.width
  height : IsFiniteNumber box.height
  x : ∃ number, box.x = some number ∧ IsFiniteNumber number
  y : ∃ number, box.y = some number ∧ IsFiniteNumber number

theorem FiniteBox.atOrigin {width height : Json} (hwidth : IsFiniteNumber width)
    (hheight : IsFiniteNumber height) : FiniteBox (atOrigin width height) :=
  ⟨hwidth, hheight, ⟨_, rfl, trivial⟩, ⟨_, rfl, trivial⟩⟩

theorem IsToken.isFinite {token : List Char} {x : Binary64} (h : IsToken token x) : x.isFinite :=
  NumberLayout.isFinite_of_leadingNumber? h.number

theorem FourNumbers.finiteBox {value : List Char} {r : Rectangle} (h : FourNumbers value r) :
    FiniteBox r.box := by
  obtain ⟨_, _, _, _, _, _, _, -, hx, hy, hwidth, hheight, -⟩ := h
  exact ⟨hwidth.isFinite, hheight.isFinite, ⟨_, rfl, hx.isFinite⟩, ⟨_, rfl, hy.isFinite⟩⟩

theorem HasSize.finiteBox {attributes : List Char} {width height : Binary64}
    (h : HasSize attributes width height) :
    FiniteBox (Graphic.atOrigin (.real width) (.real height)) := by
  obtain ⟨⟨_, -, hwidth⟩, ⟨_, -, hheight⟩⟩ := h
  exact .atOrigin (NumberLayout.isFinite_of_leadingNumber? hwidth)
    (NumberLayout.isFinite_of_leadingNumber? hheight)

/-! ## The decision -/

section Decision

variable {text : String} {root : Root}

/-- A view box that matches is read, or nothing is extracted. -/
theorem extract_of_viewBox {value : List Char} (hroot : root? text.toList = some root)
    (hvalue : Matched "viewbox" root.attributes value) (defaultSize : Json) :
    (∀ r, FourNumbers value r → extract defaultSize text = .ok (root.graphic r.box)) ∧
      ((¬ ∃ r, FourNumbers value r) →
        extract defaultSize text = .error (.malformedViewBox (String.ofList value))) := by
  rw [extract_of_root? hroot, attribute?_eq_some_iff.2 hvalue]
  constructor
  · intro r hr
    simp only [boxOfValues, viewBoxOfValue?_eq_some_iff.2 ⟨r, hr, rfl⟩]
    rfl
  · intro hnone
    simp only [boxOfValues, viewBoxOfValue?_eq_none_iff.2 hnone]
    rfl

/-- Without a view box, two numbers give the size or none does. -/
theorem extract_of_no_viewBox (hroot : root? text.toList = some root)
    (hnone : ¬ ∃ value, Matched "viewbox" root.attributes value) (defaultSize : Json) :
    (∀ width height, HasSize root.attributes width height →
        extract defaultSize text = .ok (root.graphic (atOrigin (.real width) (.real height)))) ∧
      ((¬ ∃ width height, HasSize root.attributes width height) →
        extract defaultSize text = .ok (root.graphic (atOrigin defaultSize defaultSize))) := by
  rw [extract_of_root? hroot, attribute?_eq_none_iff.2 hnone]
  constructor
  · intro width height hsize
    simp only [boxOfValues, sizeOfValues?_eq_some_iff.2 ⟨width, height, hsize, rfl⟩]
    rfl
  · intro hsize
    simp only [boxOfValues, sizeOfValues?_eq_none_iff.2 hsize]
    rfl

/-- A finite default size leaves no other numbers. -/
theorem finiteBox_of_extract {defaultSize : Json} (hdefault : IsFiniteNumber defaultSize)
    {graphic : Graphic} (h : extract defaultSize text = .ok graphic) :
    FiniteBox graphic.viewBox := by
  obtain ⟨root, -, hbox, -⟩ := root_of_extract h
  obtain ⟨value, r, hr, hview⟩ | ⟨width, height, hsize, hview⟩ | hview := viewBoxOf_cases hbox
  · rw [hview]
    exact hr.finiteBox
  · rw [hview]
    exact hsize.finiteBox
  · rw [hview]
    exact .atOrigin hdefault hdefault

end Decision

/-- **Geometry is decided by three attributes.** In a text with a root, a view box that matches in
the opening tag is the rectangle when it is four numbers, whatever width and height say, and makes
the text unusable otherwise. When none matches, the size is width and height if both match and begin
with numbers, else the default size on both sides, and the origin is zero. With a finite default
size every graphic that is extracted has four finite numbers. -/
theorem extract_geometry {text : String} {root : Root} (hroot : root? text.toList = some root)
    (defaultSize : Json) :
    (∀ value, Matched "viewbox" root.attributes value →
      (∀ r, FourNumbers value r → extract defaultSize text = .ok (root.graphic r.box)) ∧
        ((¬ ∃ r, FourNumbers value r) →
          extract defaultSize text = .error (.malformedViewBox (String.ofList value)))) ∧
    ((¬ ∃ value, Matched "viewbox" root.attributes value) →
      (∀ width height, HasSize root.attributes width height →
        extract defaultSize text = .ok (root.graphic (atOrigin (.real width) (.real height)))) ∧
        ((¬ ∃ width height, HasSize root.attributes width height) →
          extract defaultSize text = .ok (root.graphic (atOrigin defaultSize defaultSize)))) ∧
    (IsFiniteNumber defaultSize → ∀ graphic, extract defaultSize text = .ok graphic →
      FiniteBox graphic.viewBox) :=
  ⟨fun _ hvalue => extract_of_viewBox hroot hvalue defaultSize,
    fun hnone => extract_of_no_viewBox hroot hnone defaultSize,
    fun hdefault _ h => finiteBox_of_extract hdefault h⟩

set_option maxRecDepth 2000 in
/-- Four zeros count whatever the width is, a blank in front of them spoils the view box, and a
height without a number leaves the width unused. -/
theorem extract_geometry_zeros :
    (∃ graphic, extract .null "<svg viewBox='0 0 0 0' width='9'></svg>" = .ok graphic ∧
      graphic.viewBox = Rectangle.box ⟨.zero, .zero, .zero, .zero⟩) ∧
    extract .null "<svg viewBox=' 0 0 0 0'></svg>" = .error (.malformedViewBox " 0 0 0 0") ∧
    ∃ graphic, extract (.integer 24) "<svg width='9' height='auto'></svg>" = .ok graphic ∧
      graphic.viewBox = atOrigin (.integer 24) (.integer 24) ∧ FiniteBox graphic.viewBox := by
  refine ⟨?_, ?_, ?_⟩
  · have hroot : root? "<svg viewBox='0 0 0 0' width='9'></svg>".toList =
        some ⟨" viewBox='0 0 0 0' width='9'".toList, []⟩ := by decide
    have hvalue : attribute? "viewbox" " viewBox='0 0 0 0' width='9'".toList =
        some "0 0 0 0".toList := by decide
    have hnumbers : viewBoxOfValue? "0 0 0 0".toList =
        some (Rectangle.box ⟨.zero, .zero, .zero, .zero⟩) := rfl
    obtain ⟨r, hr, hbox⟩ := viewBoxOfValue?_eq_some_iff.1 hnumbers
    obtain ⟨hread, -⟩ := (extract_geometry hroot .null).1 _ (attribute?_eq_some_iff.1 hvalue)
    exact ⟨_, hread r hr, hbox.symm⟩
  · have hroot : root? "<svg viewBox=' 0 0 0 0'></svg>".toList =
        some ⟨" viewBox=' 0 0 0 0'".toList, []⟩ := by decide
    have hvalue : attribute? "viewbox" " viewBox=' 0 0 0 0'".toList =
        some " 0 0 0 0".toList := by decide
    have hnumbers : viewBoxOfValue? " 0 0 0 0".toList = none := rfl
    obtain ⟨-, hmalformed⟩ := (extract_geometry hroot .null).1 _ (attribute?_eq_some_iff.1 hvalue)
    exact hmalformed (viewBoxOfValue?_eq_none_iff.1 hnumbers)
  · have hroot : root? "<svg width='9' height='auto'></svg>".toList =
        some ⟨" width='9' height='auto'".toList, []⟩ := by decide
    have hnone : attribute? "viewbox" " width='9' height='auto'".toList = none := by decide
    have hheight : attribute? "height" " width='9' height='auto'".toList = some "auto".toList := by
      decide
    have hsize : ¬ ∃ width height, HasSize " width='9' height='auto'".toList width height := by
      rintro ⟨width, height, -, value, hmatched, hnumber⟩
      rw [← attribute?_eq_some_iff, hheight, Option.some.injEq] at hmatched
      rw [← hmatched] at hnumber
      cases hnumber
    obtain ⟨-, hwithout, hfinite⟩ := extract_geometry hroot (.integer 24)
    have hextract := (hwithout (attribute?_eq_none_iff.1 hnone)).2 hsize
    exact ⟨_, hextract, rfl, hfinite trivial _ hextract⟩

end IconForge.Graphic
