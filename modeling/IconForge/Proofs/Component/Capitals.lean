import Mathlib
import IconForge.Proofs.Component.Recovery
import IconForge.Proofs.Component.Words

set_option autoImplicit false

/-! # Which identifiers begin with a capital letter

A component is used by its name, so the name has to be an identifier with a capital letter at its
front. Whether the identifier of a base name is one, unless it is empty, turns on a single
character: the first of the *leading word*, which is the first word of which a letter or digit is
kept (`identifier_capital_iff`).

Capital letters stem from the first characters of words only, and what is no letter or digit of
ASCII is dropped afterwards. So there are two ways to go wrong. The leading word may begin with a
digit (`24-hours`), or its first character may be dropped and leave a small letter or a digit at the
front (`éclair`). Some characters outside ASCII are not dropped, as their capital forms are made of
letters of ASCII: `ﬁre` is written `FIre`. -/

namespace IconForge

namespace Component

open Text

/-! ## Names of components -/

theorem isUpper_iff {c : Char} : c.isUpper ↔ 65 ≤ c.toNat ∧ c.toNat ≤ 90 := by
  rw [Char.isUpper, decide_eq_true_eq]
  exact Iff.rfl

/-- A capital letter of ASCII with letters and digits of ASCII behind it. -/
def IsComponentName (name : List Char) : Prop :=
  ∃ first rest, name = first :: rest ∧ first.isUpper ∧ ∀ c ∈ rest, isAsciiAlphanumeric c

/-- A name is one of a component by its first character, when it has only characters of such
names. -/
theorem isComponentName_iff {name : List Char} (h : ∀ c ∈ name, isAsciiAlphanumeric c) :
    IsComponentName name ↔ name.head?.any Char.isUpper := by
  constructor
  · rintro ⟨first, rest, rfl, hfirst, -⟩
    exact hfirst
  · intro hupper
    cases name with
    | nil => cases hupper
    | cons first rest =>
        exact ⟨first, rest, rfl, hupper, fun c hc => h c (List.mem_cons_of_mem first hc)⟩

/-- A suffix that is a component name makes a component name of what is one or is empty. -/
theorem isComponentName_append {name suffix : List Char} (hsuffix : IsComponentName suffix) :
    IsComponentName (name ++ suffix) ↔ name = [] ∨ IsComponentName name := by
  obtain ⟨capital, letters, rfl, hcapital, hletters⟩ := hsuffix
  constructor
  · rintro ⟨first, rest, heq, hfirst, hrest⟩
    cases name with
    | nil => exact Or.inl rfl
    | cons c name =>
        rw [List.cons_append, List.cons.injEq] at heq
        refine Or.inr ⟨c, name, rfl, heq.1 ▸ hfirst, ?_⟩
        intro d hd
        exact hrest d (heq.2 ▸ List.mem_append_left _ hd)
  · rintro (rfl | ⟨first, rest, rfl, hfirst, hrest⟩)
    · exact ⟨capital, letters, rfl, hcapital, hletters⟩
    · refine ⟨first, rest ++ capital :: letters, rfl, hfirst, ?_⟩
      intro d hd
      rcases List.mem_append.1 hd with hd | hd
      · exact hrest d hd
      · rcases List.mem_cons.1 hd with rfl | hd
        · rw [isUpper_iff] at hcapital
          rw [isAsciiAlphanumeric_iff]
          omega
        · exact hletters d hd

/-! ## Capital letters -/

/-- The characters outside ASCII whose capital form begins with a letter of ASCII, where what is
dropped does not count: the sharp s, the long s and the dotless i, letters with a mark that have no
capital letter of their own, and ligatures. -/
def spelledOut : List Char :=
  ['ß', 'ſ', 'ı', 'ŉ', 'ǰ', 'ẖ', 'ẗ', 'ẘ', 'ẙ', 'ẚ', 'ﬀ', 'ﬁ', 'ﬂ', 'ﬃ', 'ﬄ', 'ﬅ', 'ﬆ']

/-- Whether a character has a capital letter that is kept. -/
def hasCapital (c : Char) : Bool :=
  c.isAlpha || spelledOut.contains c

theorem isAlpha_iff {c : Char} :
    c.isAlpha ↔ (65 ≤ c.toNat ∧ c.toNat ≤ 90) ∨ (97 ≤ c.toNat ∧ c.toNat ≤ 122) := by
  rw [Char.isAlpha, Bool.or_eq_true, isUpper_iff, isLower_iff]

theorem head?_capitalForm (c : Char) :
    (capitalForm c).head?.any Char.isUpper = hasCapital c := by
  unfold capitalForm
  split
  case h_18 =>
      -- None of the characters that are spelled out is left.
      have hplain : spelledOut.contains c = false := by
        rw [← Bool.not_eq_true, List.contains_iff_mem]
        simp only [spelledOut, List.mem_cons, List.not_mem_nil, or_false]
        tauto
      rw [hasCapital, hplain, Bool.or_false, Bool.eq_iff_iff, isAlpha_iff]
      split
      · next h =>
        rw [isAsciiAlphanumeric_iff] at h
        rw [List.head?_cons, Option.any_some, isUpper_iff, toNat_toUpper]
        split <;> omega
      · next h =>
        rw [isAsciiAlphanumeric_iff] at h
        refine iff_of_false (by simp) ?_
        omega
  all_goals decide

theorem isUpper_of_mem_smallForm {c d : Char} (h : d ∈ smallForm c) : d.isUpper = false := by
  rw [← Bool.not_eq_true]
  unfold smallForm at h
  split at h
  · rw [List.mem_singleton.1 h]
    decide
  · rw [List.mem_singleton.1 h]
    decide
  · split at h
    · rw [List.mem_singleton.1 h, isUpper_iff, toNat_toLower]
      split <;> omega
    · cases h

/-- Of a word, a capital letter comes first exactly when the first character has one. -/
theorem head?_capitalize (first : Char) (rest : List Char) :
    (capitalize (first :: rest)).head?.any Char.isUpper = hasCapital first := by
  rw [← head?_capitalForm, capitalize]
  cases capitalForm first with
  | cons letter letters => rfl
  | nil =>
      -- Nothing is kept of the first character, and the others are small.
      rw [List.nil_append, List.head?_nil, Option.any_none, Option.any_eq_false]
      intro letter hletter
      obtain ⟨c, -, hc⟩ := List.mem_flatMap.1 (List.mem_of_mem_head? hletter)
      exact isUpper_of_mem_smallForm hc

/-! ## The leading word -/

/-- The first word of a name of which a letter or digit is kept. -/
def leadingWord? (name : List Char) : Option (List Char) :=
  (words name).find? fun word => !(capitalize word).isEmpty

/-- Whether the leading word of a name begins with a character that has a capital letter. A name of
which nothing is kept has no leading word, and nothing in the way of a capital letter. -/
def beginsCapital (name : List Char) : Bool :=
  (leadingWord? name).all fun word => word.head?.any hasCapital

/-- An identifier begins with its leading word. -/
theorem identifierCharacters_leadingWord (name : List Char) :
    (leadingWord? name = none ∧ identifierCharacters name = []) ∨
      ∃ word behind, leadingWord? name = some word ∧ capitalize word ≠ [] ∧
        identifierCharacters name = capitalize word ++ behind := by
  rw [leadingWord?, identifierCharacters_eq]
  induction words name with
  | nil => exact Or.inl ⟨rfl, rfl⟩
  | cons word others ih =>
      rw [List.flatMap_cons]
      by_cases hword : capitalize word = []
      · rw [List.find?_cons_of_neg (by simp [hword]), hword, List.nil_append]
        exact ih
      · rw [List.find?_cons_of_pos (by simp [hword])]
        exact Or.inr ⟨word, _, rfl, hword, rfl⟩

theorem isAsciiAlphanumeric_of_mem_identifierCharacters {name : List Char} {c : Char}
    (h : c ∈ identifierCharacters name) : isAsciiAlphanumeric c := by
  have hmem : c ∈ (identifier (String.ofList name)).toList := by
    rwa [identifier, String.toList_ofList, String.toList_ofList]
  exact isAsciiAlphanumeric_of_mem_identifier hmem

/-- **An identifier that is not empty begins with a capital letter** exactly when its name does. -/
theorem isComponentName_identifierCharacters {name : List Char} :
    (identifierCharacters name = [] ∨ IsComponentName (identifierCharacters name)) ↔
      beginsCapital name := by
  rw [isComponentName_iff fun c => isAsciiAlphanumeric_of_mem_identifierCharacters, beginsCapital]
  rcases identifierCharacters_leadingWord name with
    ⟨hnone, hempty⟩ | ⟨word, behind, hword, hne, heq⟩
  · rw [hnone]
    exact iff_of_true (Or.inl hempty) rfl
  · obtain ⟨first, rest, rfl⟩ : ∃ first rest, word = first :: rest :=
      List.exists_cons_of_ne_nil (by rintro rfl; exact hne rfl)
    have hnonempty : identifierCharacters name ≠ [] := by
      rw [heq]
      exact List.append_ne_nil_of_left_ne_nil hne behind
    rw [or_iff_right hnonempty, heq, List.head?_append_of_ne_nil _ hne, head?_capitalize, hword]
    rfl

end Component

/-! ## The function of a component -/

namespace Generator

open Component

/-- The name of the function in a component source: what stands behind the opening text, which ends
with the words `export function`, up to a parenthesis. -/
def functionName (g : Generator) (source : CodeText) : CodeText :=
  (source.drop g.opening.length).takeWhile (· ≠ .char '(')

/-- The function of a component has the name of the component, when the suffix is none to break it
off. -/
theorem functionName_of_generate {g : Generator} {base suffix : String} {graphic : Graphic}
    {source : CodeText} (hsuffix : g.suffix = CodeText.ofString suffix)
    (hopen : '(' ∉ suffix.toList) (h : g.generate base graphic = .ok source) :
    g.functionName source = CodeText.ofString (identifier base ++ suffix) := by
  obtain ⟨viewBox, hsource⟩ : ∃ viewBox,
      g.source (g.componentName base) viewBox graphic.inner = source := by
    rw [generate] at h
    cases hbox : graphic.viewBox.text with
    | error fault => simp only [hbox, Except.map, reduceCtorEq] at h
    | ok viewBox => exact ⟨viewBox, by simpa only [hbox, Except.map, Except.ok.injEq] using h⟩
  -- The name is what stands in front of the first bracket, so it must not hold one itself.
  have hname : ∀ point ∈ CodeText.ofString (identifier base ++ suffix),
      decide (point ≠ .char '(') = true := by
    intro point hpoint
    obtain ⟨c, hc, rfl⟩ := List.mem_map.1 hpoint
    rw [decide_eq_true_eq]
    intro heq
    rw [CodePoint.char.inj heq, String.toList_append, List.mem_append] at hc
    rcases hc with hc | hc
    · exact absurd (isAsciiAlphanumeric_of_mem_identifier hc) (by decide)
    · exact hopen hc
  have happend : CodeText.ofString (identifier base ++ suffix) =
      CodeText.ofString (identifier base) ++ CodeText.ofString suffix := by
    rw [CodeText.ofString, CodeText.ofChars, String.toList_append, List.map_append]
    rfl
  rw [functionName, ← hsource, componentName, source_eq, List.drop_left, identifierMark, hsuffix]
  simp only [List.append_assoc]
  rw [← List.append_assoc (CodeText.ofString (identifier base)), ← happend,
    List.takeWhile_append_of_pos hname]
  exact List.append_nil _

end Generator

namespace Component

open Text

/-- **Whether a component has a name to be used by** turns on the first character of the leading
word. The identifier of a base name is empty or a component name exactly when that character has a
capital letter, and with the usual suffix so is the name of the function that is written into the
component, whatever the other settings are. -/
theorem identifier_capital_iff (base : String) :
    ((identifier base = "" ∨ IsComponentName (identifier base).toList) ↔
      beginsCapital base.toList) ∧
    ∀ (g : Generator) (graphic : Graphic) (source : CodeText),
      g.suffix = Generator.default.suffix → g.generate base graphic = .ok source →
        ∃ name : String, g.functionName source = CodeText.ofString name ∧
          (IsComponentName name.toList ↔ beginsCapital base.toList) := by
  have hcharacters : (identifier base).toList = identifierCharacters base.toList := by
    rw [identifier, String.toList_ofList]
  refine ⟨?_, ?_⟩
  · rw [← String.toList_inj, hcharacters, String.toList_empty]
    exact isComponentName_identifierCharacters
  · intro g graphic source hsuffix hsource
    have hicon : IsComponentName "Icon".toList :=
      ⟨'I', ['c', 'o', 'n'], rfl, by decide, List.all_eq_true.1 (by decide)⟩
    refine ⟨identifier base ++ "Icon",
      Generator.functionName_of_generate (by rw [hsuffix]; rfl) (by decide) hsource, ?_⟩
    rw [String.toList_append, isComponentName_append hicon, hcharacters]
    exact isComponentName_identifierCharacters

/-- A letter with an accent is dropped and leaves a small one at the front, so that the function of
the component has no capital letter; a ligature leaves capital letters. -/
theorem identifier_capital_iff_accent :
    ¬ IsComponentName (identifier "éclair").toList ∧
      IsComponentName (identifier "--ﬁre_24").toList ∧
      ∃ source name, Generator.default.generate "éclair" Generator.misleadingGraphic =
        .ok source ∧ Generator.default.functionName source = CodeText.ofString name ∧
          ¬ IsComponentName name.toList := by
  have haccent : ¬ beginsCapital "éclair".toList := by
    decide
  obtain ⟨hname, hfunction⟩ := identifier_capital_iff "éclair"
  obtain ⟨hligature, -⟩ := identifier_capital_iff "--ﬁre_24"
  refine ⟨fun h => haccent (hname.1 (Or.inr h)), ?_, ?_⟩
  · exact (hligature.2 (by decide)).resolve_left (by decide)
  · obtain ⟨viewBox, -, hgenerate⟩ := Generator.default.exists_generate "éclair"
      Generator.numeric_misleadingGraphic
    have hsource := hgenerate Generator.misleadingGraphic.inner []
    obtain ⟨name, hread, hiff⟩ := hfunction _ Generator.misleadingGraphic _ rfl hsource
    exact ⟨_, name, hsource, hread, fun h => haccent (hiff.1 h)⟩

end Component

end IconForge
