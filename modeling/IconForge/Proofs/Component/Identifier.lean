import IconForge.Component.Identifier
import IconForge.Proofs.Text.Characters

set_option autoImplicit false

/-! # The characters of identifiers

Whatever a base name holds, its identifier is made of letters and digits of ASCII: the capital form
and the small form of a character keep nothing else. -/

namespace IconForge

namespace Text

theorem toNat_toUpper (c : Char) :
    c.toUpper.toNat = if 97 ≤ c.toNat ∧ c.toNat ≤ 122 then c.toNat - 32 else c.toNat := by
  have hiff : ('a'.val ≤ c.val ∧ c.val ≤ 'z'.val) ↔ 97 ≤ c.toNat ∧ c.toNat ≤ 122 := Iff.rfl
  rw [Char.toUpper]
  by_cases h : 97 ≤ c.toNat ∧ c.toNat ≤ 122
  · rw [dif_pos (hiff.2 h), if_pos h]
    show (c.val + ('A'.val - 'a'.val)).toNat = c.toNat - 32
    have hgap : ('A'.val - 'a'.val).toNat = 2 ^ 32 - 32 := by decide
    have hval : c.val.toNat = c.toNat := rfl
    rw [UInt32.toNat_add, hgap]
    omega
  · rw [dif_neg (fun hc => h (hiff.1 hc)), if_neg h]

theorem isAsciiAlphanumeric_iff {c : Char} :
    isAsciiAlphanumeric c ↔ (97 ≤ c.toNat ∧ c.toNat ≤ 122) ∨ (65 ≤ c.toNat ∧ c.toNat ≤ 90) ∨
      (48 ≤ c.toNat ∧ c.toNat ≤ 57) := by
  simp only [isAsciiAlphanumeric, Bool.or_eq_true, Bool.and_eq_true, decide_eq_true_eq, or_assoc]
  exact Iff.rfl

theorem isAsciiAlphanumeric_capitalForm (c : Char) :
    (capitalForm c).all isAsciiAlphanumeric := by
  unfold capitalForm
  split
  case h_18 =>
      split
      · next h =>
          rw [List.all_cons, List.all_nil, Bool.and_true]
          rw [isAsciiAlphanumeric_iff] at h ⊢
          rw [toNat_toUpper]
          split <;> omega
      · rfl
  all_goals decide

theorem isAsciiAlphanumeric_smallForm (c : Char) :
    (smallForm c).all isAsciiAlphanumeric := by
  unfold smallForm
  split
  · decide
  · decide
  · split
    · next h =>
        rw [List.all_cons, List.all_nil, Bool.and_true]
        rw [isAsciiAlphanumeric_iff] at h ⊢
        rw [toNat_toLower]
        split <;> omega
    · rfl

end Text

namespace Component

open Text

/-- **Identifiers are made of letters and digits of ASCII.** -/
theorem isAsciiAlphanumeric_of_mem_identifier {base : String} {c : Char}
    (h : c ∈ (identifier base).toList) : isAsciiAlphanumeric c := by
  rw [identifier, String.toList_ofList, identifierCharacters, List.mem_flatMap] at h
  obtain ⟨word, -, hc⟩ := h
  cases word with
  | nil => cases hc
  | cons first rest =>
      rw [capitalize, List.mem_append, List.mem_flatMap] at hc
      rcases hc with hfirst | ⟨d, -, hsmall⟩
      · exact List.all_eq_true.1 (isAsciiAlphanumeric_capitalForm first) c hfirst
      · exact List.all_eq_true.1 (isAsciiAlphanumeric_smallForm d) c hsmall

end Component

end IconForge
