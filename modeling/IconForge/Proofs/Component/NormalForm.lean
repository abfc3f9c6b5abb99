import Mathlib
import IconForge.Proofs.Component.Capitals

set_option autoImplicit false

/-! # Names that are their own identifiers

An identifier is made of letters and digits of ASCII, but it need not be its own identifier: that of
`a-b` is `AB`, and that of `AB` is `Ab`, since the hyphen that began a second word is gone. What is
left after one step has no separators, so it is a single word, and the second step gives a capital
letter or a digit with small letters and digits behind it (`isNormal_identifier_identifier`). These
are exactly the names that are their own identifiers (`identifier_eq_self_iff`), so no further step
changes anything. -/

namespace IconForge.Component

open Text

/-! ## Letters and digits of ASCII -/

section Character

variable {c : Char}

theorem isDigit_iff : c.isDigit ↔ 48 ≤ c.toNat ∧ c.toNat ≤ 57 := by
  rw [Char.isDigit, Bool.and_eq_true, decide_eq_true_eq, decide_eq_true_eq]
  exact Iff.rfl

theorem capitalForm_of_isAsciiAlphanumeric (h : isAsciiAlphanumeric c) :
    capitalForm c = [c.toUpper] := by
  unfold capitalForm
  split
  case h_18 => rw [if_pos h]
  all_goals exact absurd h (by decide)

theorem smallForm_of_isAsciiAlphanumeric (h : isAsciiAlphanumeric c) :
    smallForm c = [c.toLower] := by
  unfold smallForm
  split
  case h_3 => rw [if_pos h]
  all_goals exact absurd h (by decide)

theorem isSeparator_of_isAsciiAlphanumeric (h : isAsciiAlphanumeric c) :
    isSeparator c = false := by
  rw [isSeparator]
  simp only [Bool.or_eq_false_iff, decide_eq_false_iff_not]
  refine ⟨⟨⟨?_, ?_⟩, ?_⟩, ?_⟩
  all_goals
    rintro rfl
    exact absurd h (by decide)

theorem toUpper_eq_self_iff (h : isAsciiAlphanumeric c) :
    c.toUpper = c ↔ c.isUpper ∨ c.isDigit := by
  rw [isAsciiAlphanumeric_iff] at h
  rw [isUpper_iff, isDigit_iff, ← Char.toNat_inj, toNat_toUpper]
  split <;> omega

theorem toLower_eq_self_iff (h : isAsciiAlphanumeric c) :
    c.toLower = c ↔ c.isLower ∨ c.isDigit := by
  rw [isAsciiAlphanumeric_iff] at h
  rw [isLower_iff, isDigit_iff, ← Char.toNat_inj, toNat_toLower]
  split <;> omega

theorem isUpper_or_isDigit_toUpper (h : isAsciiAlphanumeric c) :
    c.toUpper.isUpper ∨ c.toUpper.isDigit := by
  rw [isAsciiAlphanumeric_iff] at h
  rw [isUpper_iff, isDigit_iff, toNat_toUpper]
  split <;> omega

theorem isLower_or_isDigit_toLower (h : isAsciiAlphanumeric c) :
    c.toLower.isLower ∨ c.toLower.isDigit := by
  rw [isAsciiAlphanumeric_iff] at h
  rw [isLower_iff, isDigit_iff, toNat_toLower]
  split <;> omega

end Character

/-! ## Normal forms -/

/-- A normal form is empty, or a capital letter or digit of ASCII followed by small letters and
digits of ASCII only. -/
def IsNormal (name : List Char) : Prop :=
  name = [] ∨ ∃ first rest, name = first :: rest ∧ (first.isUpper ∨ first.isDigit) ∧
    ∀ c ∈ rest, c.isLower ∨ c.isDigit

theorem isAsciiAlphanumeric_of_isNormal {name : List Char} (h : IsNormal name) :
    ∀ c ∈ name, isAsciiAlphanumeric c := by
  rcases h with rfl | ⟨first, rest, rfl, hfirst, hrest⟩
  · exact nofun
  · intro c hc
    rw [isAsciiAlphanumeric_iff]
    rcases List.mem_cons.1 hc with rfl | hc
    · rw [isUpper_iff, isDigit_iff] at hfirst
      omega
    · have hsmall := hrest c hc
      rw [isLower_iff, isDigit_iff] at hsmall
      omega

/-- Letters and digits are a single word, of which every character is kept. -/
theorem identifierCharacters_of_alphanumeric {first : Char} {rest : List Char}
    (h : ∀ c ∈ first :: rest, isAsciiAlphanumeric c) :
    identifierCharacters (first :: rest) = first.toUpper :: rest.map Char.toLower := by
  have hword : words (first :: rest) = [first :: rest] :=
    words_of_no_separator (List.cons_ne_nil first rest)
      fun c hc => isSeparator_of_isAsciiAlphanumeric (h c hc)
  have hrest : rest.flatMap smallForm = rest.map Char.toLower := by
    rw [List.map_eq_flatMap]
    apply List.flatMap_congr
    intro c hc
    exact smallForm_of_isAsciiAlphanumeric (h c (List.mem_cons_of_mem first hc))
  rw [identifierCharacters_eq, hword, List.flatMap_singleton, capitalize, hrest,
    capitalForm_of_isAsciiAlphanumeric (h first List.mem_cons_self), List.singleton_append]

/-- The identifier of letters and digits is a normal form. -/
theorem isNormal_identifierCharacters {name : List Char}
    (h : ∀ c ∈ name, isAsciiAlphanumeric c) : IsNormal (identifierCharacters name) := by
  cases name with
  | nil => exact Or.inl rfl
  | cons first rest =>
      refine Or.inr ⟨_, _, identifierCharacters_of_alphanumeric h,
        isUpper_or_isDigit_toUpper (h first List.mem_cons_self), ?_⟩
      intro c hc
      obtain ⟨d, hd, rfl⟩ := List.mem_map.1 hc
      exact isLower_or_isDigit_toLower (h d (List.mem_cons_of_mem first hd))

/-- Letters and digits stay as they are exactly when they are a normal form. -/
theorem identifierCharacters_eq_self_iff_of_alphanumeric {name : List Char}
    (h : ∀ c ∈ name, isAsciiAlphanumeric c) : identifierCharacters name = name ↔ IsNormal name := by
  constructor
  · intro heq
    have hnormal := isNormal_identifierCharacters h
    rwa [heq] at hnormal
  · rintro (rfl | ⟨first, rest, rfl, hfirst, hrest⟩)
    · rfl
    · have hsmall : rest.map Char.toLower = rest.map id := by
        apply List.map_congr_left
        intro c hc
        exact (toLower_eq_self_iff (h c (List.mem_cons_of_mem first hc))).2 (hrest c hc)
      rw [identifierCharacters_of_alphanumeric h, hsmall, List.map_id,
        (toUpper_eq_self_iff (h first List.mem_cons_self)).2 hfirst]

/-- **The names that are their own identifiers are the normal forms.** -/
theorem identifier_eq_self_iff (name : String) :
    identifier name = name ↔ IsNormal name.toList := by
  rw [← String.toList_inj, identifier, String.toList_ofList]
  constructor
  · intro heq
    have halphanumeric : ∀ c ∈ name.toList, isAsciiAlphanumeric c := by
      intro c hc
      rw [← heq] at hc
      exact isAsciiAlphanumeric_of_mem_identifierCharacters hc
    exact (identifierCharacters_eq_self_iff_of_alphanumeric halphanumeric).1 heq
  · intro hnormal
    have halphanumeric := isAsciiAlphanumeric_of_isNormal hnormal
    exact (identifierCharacters_eq_self_iff_of_alphanumeric halphanumeric).2 hnormal

/-- **The second identifier of a name is a normal form.** -/
theorem isNormal_identifier_identifier (name : String) :
    IsNormal (identifier (identifier name)).toList := by
  rw [identifier, String.toList_ofList]
  exact isNormal_identifierCharacters fun c => isAsciiAlphanumeric_of_mem_identifier

/-- **Identifiers settle at the second step.** For all names and all characters, those with longer
capital or small forms included: a name is its own identifier exactly when it is a normal form, and
the identifier of an identifier is one, so that any number of further steps leaves it as it is. One
step alone need not be enough. -/
theorem identifier_settles :
    (∀ name : String, identifier name = name ↔ IsNormal name.toList) ∧
    (∀ name : String, IsNormal (identifier (identifier name)).toList ∧
      ∀ steps : Nat, identifier^[steps] (identifier (identifier name)) =
        identifier (identifier name)) ∧
    ∃ name : String, identifier (identifier name) ≠ identifier name := by
  refine ⟨identifier_eq_self_iff, fun name => ⟨isNormal_identifier_identifier name, ?_⟩,
    "a-b", by decide⟩
  intro steps
  have hfixed := (identifier_eq_self_iff _).2 (isNormal_identifier_identifier name)
  exact Function.iterate_fixed hfixed steps

end IconForge.Component
