import Mathlib
import IconForge.Number.Numeral
import IconForge.Number.Shortest

set_option autoImplicit false

/-! # Decimal digits

How the digits of a natural number count, how they are written and how they are read. A number
other than zero with `k` digits lies from `10 ^ (k - 1)` up to `10 ^ k` (`pow_digitCount_le`,
`lt_pow_digitCount`), its written digits have the length `k` (`length_toDigits`), and reading them
gives the number back (`digitsValue_toDigits`). -/

namespace IconForge

/-! ## Counting digits -/

namespace Decimal

theorem digitCount_zero : digitCount 0 = 0 := by
  rw [digitCount, if_pos rfl]

theorem digitCount_of_ne_zero {n : Nat} (h : n ≠ 0) :
    digitCount n = digitCount (n / 10) + 1 := by
  rw [digitCount, if_neg h]

theorem digitCount_pos {n : Nat} (h : n ≠ 0) : 0 < digitCount n := by
  rw [digitCount_of_ne_zero h]
  exact Nat.succ_pos _

/-- A number lies below the power of ten with its count of digits. -/
theorem lt_pow_digitCount (n : Nat) : n < 10 ^ digitCount n := by
  induction n using digitCount.induct with
  | case1 =>
      rw [digitCount_zero]
      exact Nat.one_pos
  | case2 n hn ih =>
      rw [digitCount_of_ne_zero hn, pow_succ]
      omega

/-- A number other than zero reaches the power of ten below its count of digits. -/
theorem pow_digitCount_le {n : Nat} (h : n ≠ 0) : 10 ^ (digitCount n - 1) ≤ n := by
  induction n using digitCount.induct with
  | case1 => exact absurd rfl h
  | case2 n hn ih =>
      rw [digitCount_of_ne_zero hn, Nat.add_sub_cancel]
      by_cases hq : n / 10 = 0
      · rw [hq, digitCount_zero, pow_zero]
        exact Nat.pos_of_ne_zero hn
      · have hstep : 10 ^ digitCount (n / 10) = 10 ^ (digitCount (n / 10) - 1) * 10 := by
          rw [← pow_succ, Nat.sub_add_cancel (digitCount_pos hq)]
        have := ih hq
        omega

end Decimal

/-! ## Zeros at the end -/

namespace ShortestDigits

open Decimal

/-- Dropping the zeros at the end keeps the number up to a power of ten, which accounts for the
digits that are gone. -/
theorem dropZeros_spec {n : Nat} (h : n ≠ 0) :
    ∃ k, dropZeros n * 10 ^ k = n ∧ digitCount (dropZeros n) + k = digitCount n ∧
      dropZeros n ≠ 0 := by
  induction n using dropZeros.induct with
  | case1 => exact absurd rfl h
  | case2 n hn hmod ih =>
      have hq : n / 10 ≠ 0 := by omega
      obtain ⟨k, hvalue, hcount, hne⟩ := ih hq
      rw [dropZeros, if_neg hn, if_pos hmod]
      refine ⟨k + 1, ?_, ?_, hne⟩
      · rw [pow_succ, ← Nat.mul_assoc, hvalue]
        omega
      · rw [digitCount_of_ne_zero hn, ← hcount, Nat.add_assoc]
  | case3 n hn hmod =>
      rw [dropZeros, if_neg hn, if_neg hmod]
      exact ⟨0, by rw [pow_zero, Nat.mul_one], by rw [Nat.add_zero], hn⟩

end ShortestDigits

/-! ## Writing digits -/

theorem toList_toString (n : Nat) : (toString n).toList = Nat.toDigits 10 n := by
  rw [Nat.toString_eq_ofList_toDigits, String.toList_ofList]

theorem length_toDigits {n : Nat} (h : n ≠ 0) :
    (Nat.toDigits 10 n).length = Decimal.digitCount n := by
  have hpos := Decimal.digitCount_pos h
  apply Nat.le_antisymm
  · rw [Nat.length_toDigits_le_iff (by decide) hpos]
    exact Decimal.lt_pow_digitCount n
  · by_contra hlt
    have hlength : (Nat.toDigits 10 n).length ≤ Decimal.digitCount n - 1 := by omega
    have hlengthPos : 0 < (Nat.toDigits 10 n).length := Nat.length_toDigits_pos
    rw [Nat.length_toDigits_le_iff (by decide) (by omega)] at hlength
    have := Decimal.pow_digitCount_le h
    omega

theorem isDigit_of_mem_toDigits {n : Nat} {c : Char} (h : c ∈ Nat.toDigits 10 n) : c.isDigit :=
  Nat.isDigit_of_mem_toDigits (by decide) (by decide) h

/-! ## Reading digits -/

namespace Text

theorem rangeOf?_of_isDigit {c : Char} (h : c.isDigit) :
    decimalDigits.rangeOf? c = some (0x30, 0x39) := by
  have hrange : 0x30 ≤ c.toNat ∧ c.toNat ≤ 0x39 := by
    simp only [Char.isDigit, Bool.and_eq_true, decide_eq_true_eq] at h
    exact h
  apply List.find?_cons_of_pos
  simp only [hrange, decide_true, Bool.and_self]

theorem isDecimalDigit_of_isDigit {c : Char} (h : c.isDigit) : isDecimalDigit c := by
  rw [isDecimalDigit, CharTable.contains, rangeOf?_of_isDigit h]
  rfl

theorem digitValue?_of_isDigit {c : Char} (h : c.isDigit) :
    digitValue? c = some (c.toNat - '0'.toNat) := by
  have hrange : 0x30 ≤ c.toNat ∧ c.toNat ≤ 0x39 := by
    simp only [Char.isDigit, Bool.and_eq_true, decide_eq_true_eq] at h
    exact h
  rw [digitValue?, rangeOf?_of_isDigit h, Option.map_some]
  have hzero : '0'.toNat = 0x30 := rfl
  rw [hzero, Nat.mod_eq_of_lt (by omega)]

end Text

namespace Numeral

open Text

theorem foldl_digits (cs : List Char) (value : Nat) :
    cs.foldl (fun value c => value * 10 + (digitValue? c).getD 0) value =
      value * 10 ^ cs.length + digitsValue cs := by
  induction cs generalizing value with
  | nil => simp [digitsValue]
  | cons c cs ih =>
      rw [digitsValue, List.foldl_cons, List.foldl_cons, ih, ih (0 * 10 + _), List.length_cons,
        pow_succ]
      ring

theorem digitsValue_append (front back : List Char) :
    digitsValue (front ++ back) = digitsValue front * 10 ^ back.length + digitsValue back := by
  rw [digitsValue, List.foldl_append, foldl_digits]
  rfl

theorem digitsValue_replicate_zero (count : Nat) :
    digitsValue (List.replicate count '0') = 0 := by
  have hzero : digitValue? '0' = some 0 := digitValue?_of_isDigit rfl
  induction count with
  | zero => rfl
  | succ count ih =>
      rw [List.replicate_succ', digitsValue_append, ih]
      simp [digitsValue, hzero]

theorem digitsValue_toDigits (n : Nat) : digitsValue (Nat.toDigits 10 n) = n := by
  have key : ∀ (cs : List Char) (value : Nat), (∀ c ∈ cs, c.isDigit) →
      cs.foldl (fun value c => value * 10 + (digitValue? c).getD 0) value =
        Nat.ofDigitChars 10 cs value := by
    intro cs
    induction cs with
    | nil => intro value _; rfl
    | cons c cs ih =>
        intro value hcs
        rw [List.foldl_cons, digitValue?_of_isDigit (hcs c (by simp)), Option.getD_some,
          Nat.mul_comm value 10]
        exact ih _ (fun d hd => hcs d (by simp [hd]))
  rw [digitsValue, key _ _ (fun c hc => isDigit_of_mem_toDigits hc)]
  exact Nat.ofDigitChars_ten_toDigits

end Numeral

end IconForge
