import Mathlib
import IconForge.Graphic.Basic
import IconForge.Proofs.Number.Fewest
import IconForge.Proofs.Number.ReadBack

set_option autoImplicit false

/-! # The text of a number in a view box

A number is written by the rule of `standardText`, from its shortest digits and the place of their
point. There is another way to the same text, over the number's record, which has other limits for
exponents: whether there is an exponent is decided by comparing the number with two powers of ten,
and then the record is either written out and its zeros are stripped, or it is cut at its exponent
(`rewritten?`).

The comparisons decide as the place of the point does, since a magnitude and its shortest digits lie
on the same side of a power of ten (`units_le_iff`). The main statement is `numberText_real`. -/

namespace IconForge

open Numeral ShortestDigits

/-! ## The rule -/

/-- The text of digits with the point behind the first `n` of them, which may be more digits than
there are, or a negative number. -/
def standardText (digits : List Char) (n : Int) : List Char :=
  let k : Int := digits.length
  if k ≤ n ∧ n ≤ 21 then digits ++ List.replicate (n - k).toNat '0'
  else if 0 < n ∧ n ≤ 21 then digits.take n.toNat ++ '.' :: digits.drop n.toNat
  else if -6 < n ∧ n ≤ 0 then '0' :: '.' :: (List.replicate (-n).toNat '0' ++ digits)
  else
    digits.take 1 ++ (if 1 < k then '.' :: digits.drop 1 else []) ++
      'e' :: (if n - 1 < 0 then '-' else '+') :: Nat.toDigits 10 (n - 1).natAbs

/-! ## The way over the record -/

/-- The magnitude that a power of ten is read as. -/
def powerOfTen (exponent : Int) : Magnitude :=
  match (Decimal.mk false 1 exponent).toBinary64 with
  | .finite _ m => m
  | _ => .zero

def signText (negative : Bool) : List Char :=
  if negative then ['-'] else []

/-- A decimal written out, without an exponent. -/
def Decimal.fixed (d : Decimal) : List Char :=
  let digits := Nat.toDigits 10 d.digits
  let point := d.exponent + digits.length
  signText d.negative ++
    if point < 0 then '0' :: '.' :: (List.replicate (-point).toNat '0' ++ digits)
    else if digits.length < point then
      digits ++ List.replicate (point - digits.length).toNat '0'
    else
      let whole := digits.take point.toNat
      let fraction := digits.drop point.toNat
      (if whole.isEmpty then ['0'] else whole) ++
        (if fraction.isEmpty then [] else '.' :: fraction)

def decimal? (cs : List Char) : Option Decimal :=
  match take? cs with
  | some (d, []) => some d
  | _ => none

def integer? (cs : List Char) : Option Int :=
  let (negative, unsigned) := takeSign cs
  match takeDigits unsigned with
  | (first :: digits, []) =>
    let value : Int := digitsValue (first :: digits)
    some (if negative then -value else value)
  | _ => none

/-- Drop the zeros at the end of a text with a point, and then the point if it is at the end. -/
def stripFraction (cs : List Char) : List Char :=
  if '.' ∈ cs then (cs.rdropWhile (· = '0')).rdropWhile (· = '.') else cs

/-- Drop a fraction that is zero. -/
def dropZeroFraction (cs : List Char) : List Char :=
  if ['.', '0'] <:+ cs then cs.dropLast.dropLast else cs

/-- The text that is made of the record of a number: written out between two powers of ten, else
with its exponent set anew. -/
def rewritten? (x : Binary64) : Option (List Char) :=
  match x with
  | .notANumber => some "NaN".toList
  | .infinite negative => some (signText negative ++ "Infinity".toList)
  | .finite negative m =>
    if m.significand = 0 then some ['0']
    else
      let record := (NumberLayout.record.render (.finite negative m)).toList
      if (powerOfTen (-6)).units ≤ m.units ∧ m.units < (powerOfTen 21).units then
        (decimal? record).map fun decimal => stripFraction decimal.fixed
      else
        match record.splitOn 'e' with
        | [mantissa, exponent] =>
          (integer? exponent).map fun exponent =>
            dropZeroFraction mantissa ++
              'e' :: (if 0 < exponent then '+' else '-') :: Nat.toDigits 10 exponent.natAbs
        | _ => none

/-! ## Comparing with a power of ten -/

theorem value_lt_value_iff {m other : Magnitude} :
    m.value < other.value ↔ m.units < other.units := by
  rw [Magnitude.value, Magnitude.value, div_lt_div_iff_of_pos_right (pow_pos two_pos _)]
  exact_mod_cast Iff.rfl

/-- Digits lie between the powers of ten around their point. -/
theorem ShortestDigits.value_bounds {s : ShortestDigits} (h : s.digits ≠ 0) :
    (10 : ℚ) ^ (s.point - 1) ≤ s.value ∧ s.value < (10 : ℚ) ^ s.point := by
  have hbounds := Decimal.value_bounds
    (d := ⟨false, s.digits, s.point - Decimal.digitCount s.digits⟩) h
  rw [add_sub_cancel] at hbounds
  exact hbounds

/-- **A magnitude reaches a power of ten exactly when the point of its digits does**, if the power
of ten is what the magnitude of the comparison is written as. -/
theorem units_le_iff {limit m : Magnitude} (hlimit : limit.significand ≠ 0) {exponent : Int}
    (hof : ShortestDigits.of limit = ⟨1, exponent + 1⟩) (hm : m.significand ≠ 0) :
    limit.units ≤ m.units ↔ exponent < (ShortestDigits.of m).point := by
  obtain ⟨hdigits, hcontains⟩ := contains_of hm
  obtain ⟨hlow, hhigh⟩ := value_bounds hdigits
  have hpower : (Interval.of limit).Contains ((10 : ℚ) ^ exponent) := by
    have hlimitContains := (contains_of hlimit).2
    have hcount : Decimal.digitCount 1 = 1 := by decide +kernel
    rw [hof, ShortestDigits.value, hcount] at hlimitContains
    simpa using hlimitContains
  constructor
  · intro hle
    rcases hle.lt_or_eq with hlt | heq
    · have := (lt_of_contains hlimit hm (value_lt_value_iff.2 hlt) hpower hcontains).trans hhigh
      exact (zpow_lt_zpow_iff_right₀ (by norm_num)).1 this
    · have hvalue : limit.value = m.value := by rw [Magnitude.value, heq, Magnitude.value]
      have hsame := eq_of_contains hlimit (contains_value hlimit) (hvalue ▸ contains_value hm)
      rw [← hsame, hof]
      exact Int.lt_succ exponent
  · intro hlt
    by_contra hnot
    have := hlow.trans_lt
      (lt_of_contains hm hlimit (value_lt_value_iff.2 (not_le.1 hnot)) hcontains hpower)
    have := (zpow_lt_zpow_iff_right₀ (by norm_num : (1 : ℚ) < 10)).1 this
    omega

theorem millionth_le_iff {m : Magnitude} (hm : m.significand ≠ 0) :
    (powerOfTen (-6)).units ≤ m.units ↔ -6 < (ShortestDigits.of m).point :=
  units_le_iff (by decide +kernel) (by decide +kernel) hm

theorem lt_sextillion_iff {m : Magnitude} (hm : m.significand ≠ 0) :
    m.units < (powerOfTen 21).units ↔ (ShortestDigits.of m).point ≤ 21 := by
  have hreach : (powerOfTen 21).units ≤ m.units ↔ 21 < (ShortestDigits.of m).point :=
    units_le_iff (by decide +kernel) (by decide +kernel) hm
  rw [← not_le, hreach, not_lt]

/-! ## Digits -/

theorem exists_last_toDigits {n : Nat} (h : n % 10 ≠ 0) :
    ∃ front last, Nat.toDigits 10 n = front ++ [last] ∧ last ≠ '0' := by
  obtain hnil | ⟨front, last, hlast⟩ := List.eq_nil_or_concat (Nat.toDigits 10 n)
  · exact absurd hnil Nat.toDigits_ne_nil
  · refine ⟨front, last, by rw [hlast, List.concat_eq_append], ?_⟩
    rintro rfl
    have hvalue := digitsValue_toDigits n
    have hzero : digitsValue ['0'] = 0 := digitsValue_replicate_zero 1
    rw [hlast, List.concat_eq_append, digitsValue_append, hzero, List.length_singleton] at hvalue
    omega

theorem toDigits_mul_pow {n : Nat} (h : n ≠ 0) (count : Nat) :
    Nat.toDigits 10 (n * 10 ^ count) = Nat.toDigits 10 n ++ List.replicate count '0' := by
  induction count with
  | zero => rw [pow_zero, Nat.mul_one, List.replicate_zero, List.append_nil]
  | succ count ih =>
      have hpos : 0 < n * 10 ^ count :=
        Nat.mul_pos (Nat.pos_of_ne_zero h) (Nat.pow_pos (by decide))
      have hstep := Nat.toDigits_append_toDigits (b := 10) (d := 0) (by decide) hpos (by decide)
      rw [Nat.add_zero, ih] at hstep
      rw [pow_succ, ← Nat.mul_assoc, Nat.mul_comm _ 10, ← hstep, List.append_assoc,
        List.replicate_succ']
      rfl

theorem stripFraction_of_notMem {cs : List Char} (h : '.' ∉ cs) : stripFraction cs = cs :=
  if_neg h

/-- A text that ends with another digit than zero keeps it. -/
theorem stripFraction_of_last {front : List Char} {last : Char} (hzero : last ≠ '0')
    (hpoint : last ≠ '.') : stripFraction (front ++ [last]) = front ++ [last] := by
  rw [stripFraction]
  split
  · rw [List.rdropWhile_concat_neg _ _ _ (by simpa using hzero),
      List.rdropWhile_concat_neg _ _ _ (by simpa using hpoint)]
  · rfl

theorem stripFraction_whole {front : List Char} {last : Char} (hpoint : last ≠ '.') :
    stripFraction (front ++ [last] ++ ['.', '0']) = front ++ [last] := by
  have hmem : '.' ∈ front ++ [last] ++ ['.', '0'] := by simp
  have hcut : front ++ [last] ++ ['.', '0'] = front ++ [last] ++ ['.'] ++ ['0'] := by simp
  rw [stripFraction, if_pos hmem, hcut, List.rdropWhile_concat_pos _ _ _ (by simp),
    List.rdropWhile_concat_neg _ _ _ (by simp), List.rdropWhile_concat_pos _ _ _ (by simp),
    List.rdropWhile_concat_neg _ _ _ (by simpa using hpoint)]

theorem dropZeroFraction_of_last {front : List Char} {last : Char} (h : last ≠ '0') :
    dropZeroFraction (front ++ [last]) = front ++ [last] := by
  refine if_neg fun hsuffix => ?_
  obtain ⟨start, hstart⟩ := hsuffix
  have hcut : start ++ ['.', '0'] = start ++ ['.'] ++ ['0'] := by simp
  rw [hcut] at hstart
  exact h (List.append_inj' hstart rfl |>.2 |> List.cons.inj |>.1).symm

/-! ## Reading the record -/

section Record

open NumberLayout

variable {s : ShortestDigits}

theorem readable_record : NumberLayout.record.Readable :=
  Or.inr rfl

theorem toList_render {layout : NumberLayout} (h : layout.Readable) (negative : Bool)
    {m : Magnitude} (hm : m.significand ≠ 0) :
    (layout.render (.finite negative m)).toList =
      signText negative ++ (layout.spelling (ShortestDigits.of m)).text := by
  rw [← magnitude_eq_spelling h]
  simp only [render, hm, if_false, toList_signed, signText]

theorem decimal?_render_record (negative : Bool) {m : Magnitude} (hm : m.significand ≠ 0) :
    decimal? (NumberLayout.record.render (.finite negative m)).toList =
      some ((NumberLayout.record.spelling (ShortestDigits.of m)).decimal negative) := by
  rw [toList_render readable_record negative hm, decimal?, signText,
    take?_spelling (valid_spelling _ _)]

/-- Written out in full, the decimal of a record has the digits of the number, or, if the number is
whole, these digits with zeros behind them, the last of them behind the point. -/
theorem decimal_fullSpelling_record (hs : s.digits ≠ 0) (negative : Bool) :
    (NumberLayout.record.fullSpelling (Nat.toDigits 10 s.digits) s.point).decimal negative =
        ⟨negative, s.digits, s.point - Decimal.digitCount s.digits⟩ ∨
      ∃ zeros : Nat, s.point = Decimal.digitCount s.digits + zeros ∧
        (NumberLayout.record.fullSpelling (Nat.toDigits 10 s.digits) s.point).decimal negative =
          ⟨negative, s.digits * 10 ^ (zeros + 1), -1⟩ := by
  have hlength := length_toDigits hs
  have hpos := Decimal.digitCount_pos hs
  have hzero : digitsValue ['0'] = 0 := digitsValue_replicate_zero 1
  unfold fullSpelling
  -- A number below one, a whole number, and one with digits on both sides of the point.
  by_cases hpoint : s.point ≤ 0
  · have hexp : (0 : Int) - (s.point.natAbs + Decimal.digitCount s.digits : Nat) =
        s.point - Decimal.digitCount s.digits := by omega
    rw [if_pos hpoint]
    refine Or.inl ?_
    simp only [Spelling.decimal, Spelling.exponentValue, Option.getD_some, digitsValue_append,
      hzero, digitsValue_replicate_zero, digitsValue_toDigits, List.length_append,
      List.length_replicate, hlength, hexp, Nat.zero_mul, Nat.zero_add]
  · rw [if_neg hpoint, hlength]
    by_cases hwhole : Decimal.digitCount s.digits ≤ s.point.toNat
    · rw [if_pos hwhole]
      refine Or.inr ⟨s.point.toNat - Decimal.digitCount s.digits, by omega, ?_⟩
      have hfraction : NumberLayout.record.wholeFraction = some ['0'] := rfl
      simp only [Spelling.decimal, Spelling.exponentValue, hfraction, Option.getD_some,
        digitsValue_append, hzero, digitsValue_replicate_zero, digitsValue_toDigits,
        List.length_replicate, List.length_singleton, Nat.add_zero, pow_succ, Nat.mul_assoc]
      rfl
    · rw [if_neg hwhole]
      have hexp : (0 : Int) - (Decimal.digitCount s.digits - s.point.toNat : Nat) =
          s.point - Decimal.digitCount s.digits := by omega
      refine Or.inl ?_
      simp only [Spelling.decimal, Spelling.exponentValue, Option.getD_some,
        List.take_append_drop, digitsValue_toDigits, List.length_drop, hlength, hexp]

/-- With an exponent, the decimal of a record has the digits of the number. -/
theorem decimal_scientificSpelling_record (hs : s.digits ≠ 0) (negative : Bool) :
    (NumberLayout.record.scientificSpelling (Nat.toDigits 10 s.digits) s.point).decimal negative =
      ⟨negative, s.digits, s.point - Decimal.digitCount s.digits⟩ := by
  have hlength := length_toDigits hs
  have hpos := Decimal.digitCount_pos hs
  rw [Spelling.decimal, exponentValue_scientificSpelling]
  simp only [scientificSpelling]
  by_cases hone : (Nat.toDigits 10 s.digits).length ≤ 1
  · have htake : (Nat.toDigits 10 s.digits).take 1 = Nat.toDigits 10 s.digits :=
      List.take_of_length_le hone
    have hexp : s.point - 1 - ((0 : Nat) : Int) = s.point - Decimal.digitCount s.digits := by omega
    simp only [hone, if_true, Option.getD_none, List.append_nil, htake, digitsValue_toDigits,
      List.length_nil, hexp]
  · have hexp : s.point - 1 - ((Decimal.digitCount s.digits - 1 : Nat) : Int) =
        s.point - Decimal.digitCount s.digits := by omega
    rw [hlength] at hone
    simp only [hone, if_false, Option.getD_some, List.take_append_drop, digitsValue_toDigits,
      List.length_drop, hlength, hexp]

theorem decimal_spelling_record (hs : s.digits ≠ 0) (negative : Bool) :
    (NumberLayout.record.spelling s).decimal negative =
        ⟨negative, s.digits, s.point - Decimal.digitCount s.digits⟩ ∨
      ∃ zeros : Nat, s.point = Decimal.digitCount s.digits + zeros ∧
        (NumberLayout.record.spelling s).decimal negative =
          ⟨negative, s.digits * 10 ^ (zeros + 1), -1⟩ := by
  unfold spelling
  split
  · exact decimal_fullSpelling_record hs negative
  · exact Or.inl (decimal_scientificSpelling_record hs negative)

/-! ## Writing the decimal out -/

theorem point_notMem_sign (negative : Bool) : '.' ∉ signText negative := by
  cases negative <;> decide

theorem point_notMem_toDigits (n : Nat) : '.' ∉ Nat.toDigits 10 n := by
  intro hmem
  exact absurd (isDigit_of_mem_toDigits hmem) (by decide)

/-- Written out, the digits of a number make the text of the rule. -/
theorem fixed_eq_standardText {n : Nat} (hn : n ≠ 0) {point : Int} (hlow : -6 < point)
    (hhigh : point ≤ 21) (negative : Bool) :
    Decimal.fixed ⟨negative, n, point - Decimal.digitCount n⟩ =
      signText negative ++ standardText (Nat.toDigits 10 n) point := by
  have hlength := length_toDigits hn
  have hpos := Decimal.digitCount_pos hn
  have hne : (Nat.toDigits 10 n).isEmpty = false := by
    rw [List.isEmpty_eq_false_iff]
    exact Nat.toDigits_ne_nil
  rw [Decimal.fixed, standardText]
  simp only [hlength, sub_add_cancel]
  congr 1
  -- The point stands in front of the digits, at the front of them, behind them or within.
  rcases lt_trichotomy point 0 with hneg | hzero | hposPoint
  · rw [if_pos hneg, if_neg (by omega), if_neg (by omega), if_pos (by omega)]
  · subst hzero
    simp [hne, Nat.pos_iff_ne_zero.1 hpos]
  · rw [if_neg (by omega)]
    rcases Int.lt_trichotomy (Decimal.digitCount n) point with hlt | heq | hgt
    · rw [if_pos hlt, if_pos (by omega)]
    · subst heq
      have htake : (Nat.toDigits 10 n).take (Decimal.digitCount n) = Nat.toDigits 10 n :=
        List.take_of_length_le hlength.le
      have hdrop : (Nat.toDigits 10 n).drop (Decimal.digitCount n) = [] :=
        List.drop_of_length_le hlength.le
      have hhigh' : Decimal.digitCount n ≤ 21 := by omega
      simp [htake, hdrop, hne, hhigh']
    · have htake : ((Nat.toDigits 10 n).take point.toNat).isEmpty = false := by
        rw [List.isEmpty_eq_false_iff, ne_eq, List.take_eq_nil_iff]
        rintro (h | h)
        · omega
        · exact Nat.toDigits_ne_nil h
      have hdrop : ((Nat.toDigits 10 n).drop point.toNat).isEmpty = false := by
        rw [List.isEmpty_eq_false_iff, ne_eq, List.drop_eq_nil_iff]
        omega
      simp only [htake, hdrop, lt_asymm hgt, not_le.2 hgt, hposPoint, hhigh, Bool.false_eq_true,
        false_and, and_self, if_true, if_false]

/-- A text of the rule without an exponent has no zeros to strip. -/
theorem stripFraction_standardText {n : Nat} (hn : n % 10 ≠ 0) {point : Int} (hlow : -6 < point)
    (hhigh : point ≤ 21) (negative : Bool) :
    stripFraction (signText negative ++ standardText (Nat.toDigits 10 n) point) =
      signText negative ++ standardText (Nat.toDigits 10 n) point := by
  obtain ⟨front, last, hdigits, hlast⟩ := exists_last_toDigits hn
  have hpoint : last ≠ '.' := by
    rintro rfl
    exact point_notMem_toDigits n (by simp [hdigits])
  rw [standardText]
  split
  · -- Whole numbers have no point; otherwise the last digit stands last and is not zero.
    apply stripFraction_of_notMem
    simp [point_notMem_sign, point_notMem_toDigits]
  · next hfraction =>
    split
    · next hmiddle =>
      have hdrop : (Nat.toDigits 10 n).drop point.toNat = front.drop point.toNat ++ [last] := by
        have hle : point.toNat ≤ front.length := by
          rw [hdigits, List.length_append, List.length_singleton] at hfraction
          omega
        rw [hdigits, List.drop_append_of_le_length hle]
      have hcut : signText negative ++
            ((Nat.toDigits 10 n).take point.toNat ++ '.' :: (Nat.toDigits 10 n).drop point.toNat) =
          signText negative ++ ((Nat.toDigits 10 n).take point.toNat ++
            '.' :: front.drop point.toNat) ++ [last] := by
        rw [hdrop]
        simp
      rw [hcut]
      exact stripFraction_of_last hlast hpoint
    · rw [if_pos (by omega), hdigits]
      have hcut : signText negative ++
            '0' :: '.' :: (List.replicate (-point).toNat '0' ++ (front ++ [last])) =
          signText negative ++
            '0' :: '.' :: (List.replicate (-point).toNat '0' ++ front) ++ [last] := by
        simp
      rw [hcut]
      exact stripFraction_of_last hlast hpoint

/-- A whole number is written out with a zero behind the point. -/
theorem fixed_whole {n : Nat} (hn : n ≠ 0) (zeros : Nat) (negative : Bool) :
    Decimal.fixed ⟨negative, n * 10 ^ (zeros + 1), -1⟩ =
      signText negative ++ (Nat.toDigits 10 n ++ List.replicate zeros '0') ++ ['.', '0'] := by
  have hdigits : Nat.toDigits 10 (n * 10 ^ (zeros + 1)) =
      Nat.toDigits 10 n ++ List.replicate zeros '0' ++ ['0'] := by
    rw [toDigits_mul_pow hn, List.replicate_succ', List.append_assoc]
  have hcount : (Nat.toDigits 10 n ++ List.replicate zeros '0').length =
      Decimal.digitCount n + zeros := by
    rw [List.length_append, List.length_replicate, length_toDigits hn]
  have hall : (Nat.toDigits 10 n ++ List.replicate zeros '0' ++ ['0']).length =
      Decimal.digitCount n + zeros + 1 := by
    rw [List.length_append, hcount, List.length_singleton]
  have hne : (Nat.toDigits 10 n ++ List.replicate zeros '0').isEmpty = false := by
    simp [Nat.toDigits_ne_nil]
  -- The point stands in front of the last digit.
  have hplace : -1 + ((Decimal.digitCount n + zeros + 1 : Nat) : Int) =
      (Decimal.digitCount n + zeros : Nat) := by omega
  have hneg : ¬ ((Decimal.digitCount n + zeros : Nat) : Int) < 0 := by omega
  have hmore : ¬ ((Decimal.digitCount n + zeros + 1 : Nat) : Int) <
      (Decimal.digitCount n + zeros : Nat) := by omega
  rw [Decimal.fixed]
  simp only [hdigits, hall, hplace, hneg, hmore, if_false, Int.toNat_natCast]
  rw [← hcount, List.take_left, List.drop_left]
  simp [hne]

theorem stripFraction_fixed_whole {n : Nat} (hn : n ≠ 0) {zeros : Nat}
    (hhigh : Decimal.digitCount n + zeros ≤ 21) (negative : Bool) :
    stripFraction (Decimal.fixed ⟨negative, n * 10 ^ (zeros + 1), -1⟩) =
      signText negative ++
        standardText (Nat.toDigits 10 n) (Decimal.digitCount n + zeros : Nat) := by
  have hlength := length_toDigits hn
  have hpos := Decimal.digitCount_pos hn
  have hstandard : standardText (Nat.toDigits 10 n) (Decimal.digitCount n + zeros : Nat) =
      Nat.toDigits 10 n ++ List.replicate zeros '0' := by
    rw [standardText]
    simp only [hlength]
    rw [if_pos (by omega)]
    congr 2
    omega
  rw [fixed_whole hn, hstandard]
  obtain hnil | ⟨front, last, hlast⟩ := List.eq_nil_or_concat
    (signText negative ++ (Nat.toDigits 10 n ++ List.replicate zeros '0'))
  · simp [Nat.toDigits_ne_nil] at hnil
  · have hpoint : last ≠ '.' := by
      rintro rfl
      have hmem : '.' ∈ signText negative ++ (Nat.toDigits 10 n ++ List.replicate zeros '0') := by
        simp [hlast]
      simp [point_notMem_sign, point_notMem_toDigits] at hmem
    rw [hlast, List.concat_eq_append]
    exact stripFraction_whole hpoint

/-! ## Setting the exponent anew -/

def mantissaText (digits : List Char) : List Char :=
  digits.take 1 ++ if 1 < digits.length then '.' :: digits.drop 1 else []

theorem standardText_exponent {digits : List Char} {n : Int} (h : ¬ (-6 < n ∧ n ≤ 21))
    (hne : digits ≠ []) :
    standardText digits n =
      mantissaText digits ++
        'e' :: (if n - 1 < 0 then '-' else '+') :: Nat.toDigits 10 (n - 1).natAbs := by
  have hpos : 0 < digits.length := List.length_pos_of_ne_nil hne
  rw [standardText, mantissaText, if_neg (by omega), if_neg (by omega), if_neg (by omega)]
  simp only [Nat.one_lt_cast]

theorem scientificSpelling_text (layout : NumberLayout) (digits : List Char) (point : Int) :
    (layout.scientificSpelling digits point).text =
      mantissaText digits ++ 'e' :: (if point - 1 < 0 then '-' else '+') ::
        (layout.exponentDigits (point - 1).natAbs).toList := by
  simp only [Spelling.text, Spelling.fractionText, Spelling.exponentText, scientificSpelling,
    mantissaText, decide_eq_true_eq]
  by_cases h : digits.length ≤ 1
  · rw [if_pos h, if_neg (not_lt.2 h)]
  · rw [if_neg h, if_pos (not_le.1 h)]

theorem exponent_notMem_sign (negative : Bool) : 'e' ∉ signText negative := by
  cases negative <;> decide

theorem exponent_notMem_mantissaText (n : Nat) : 'e' ∉ mantissaText (Nat.toDigits 10 n) := by
  have hdigit : ∀ c ∈ Nat.toDigits 10 n, c ≠ 'e' := by
    rintro c hc rfl
    exact absurd (isDigit_of_mem_toDigits hc) (by decide)
  rw [mantissaText, List.mem_append, not_or]
  refine ⟨fun hmem => hdigit _ (List.mem_of_mem_take hmem) rfl, fun hmem => ?_⟩
  split at hmem
  · rcases List.mem_cons.1 hmem with heq | hmem
    · exact absurd heq (by decide)
    · exact hdigit _ (List.mem_of_mem_drop hmem) rfl
  · cases hmem

/-- In front of the exponent stand digits of which the last one is not zero. -/
theorem dropZeroFraction_mantissaText {n : Nat} (hn : n % 10 ≠ 0) (negative : Bool) :
    dropZeroFraction (signText negative ++ mantissaText (Nat.toDigits 10 n)) =
      signText negative ++ mantissaText (Nat.toDigits 10 n) := by
  obtain ⟨front, last, hdigits, hlast⟩ := exists_last_toDigits hn
  have hcut : ∃ start, mantissaText (Nat.toDigits 10 n) = start ++ [last] := by
    rw [hdigits, mantissaText]
    cases front with
    | nil => exact ⟨[], by simp⟩
    | cons first front => exact ⟨first :: '.' :: front, by simp⟩
  obtain ⟨start, hstart⟩ := hcut
  rw [hstart, ← List.append_assoc]
  exact dropZeroFraction_of_last hlast

theorem integer?_exponent (layout : NumberLayout) (exponent : Int) :
    integer? ((if exponent < 0 then '-' else '+') ::
      (layout.exponentDigits exponent.natAbs).toList) = some exponent := by
  obtain ⟨count, htext⟩ := toList_exponentDigits layout exponent.natAbs
  have hvalue := digitsValue_exponentDigits layout exponent.natAbs
  have hdigits : ∀ c ∈ (layout.exponentDigits exponent.natAbs).toList, c.isDigit := by
    intro c hc
    rw [htext, List.mem_append] at hc
    rcases hc with hc | hc
    · exact isDigit_of_mem_replicate hc
    · exact isDigit_of_mem_toDigits hc
  have hne : (layout.exponentDigits exponent.natAbs).toList ≠ [] := by
    simp [htext, Nat.toDigits_ne_nil]
  have htake : takeDigits ((layout.exponentDigits exponent.natAbs).toList ++ []) =
      ((layout.exponentDigits exponent.natAbs).toList, []) :=
    takeDigits_of_digits hdigits (by rintro c ⟨⟩)
  rw [List.append_nil] at htake
  generalize (layout.exponentDigits exponent.natAbs).toList = text at *
  obtain ⟨first, digits, rfl⟩ := List.exists_cons_of_ne_nil hne
  by_cases hneg : exponent < 0
  · simp only [integer?, hneg, if_true, takeSign, htake, hvalue]
    congr 1
    omega
  · simp only [integer?, hneg, if_false, takeSign, htake, hvalue, Bool.false_eq_true]
    congr 1
    omega

theorem exponent_notMem_exponentDigits (layout : NumberLayout) (exponent : Int) :
    'e' ∉ (if exponent < 0 then '-' else '+') ::
      (layout.exponentDigits exponent.natAbs).toList := by
  obtain ⟨count, htext⟩ := toList_exponentDigits layout exponent.natAbs
  rw [htext, List.mem_cons, List.mem_append, not_or, not_or]
  refine ⟨by split <;> decide, fun hmem => ?_, fun hmem => ?_⟩
  · exact absurd (List.eq_of_mem_replicate hmem) (by decide)
  · exact absurd (isDigit_of_mem_toDigits hmem) (by decide)

theorem splitOn_once {c : Char} {front back : List Char} (hfront : c ∉ front) (hback : c ∉ back) :
    (front ++ c :: back).splitOn c = [front, back] := by
  have hne : ∀ d ∈ front, (d == c) = false := by
    intro d hd
    exact beq_eq_false_iff_ne.2 (fun heq => hfront (heq ▸ hd))
  rw [List.splitOn, List.splitOnP_append_cons_of_forall_mem hne c (beq_self_eq_true c)]
  exact congrArg (front :: ·) (List.splitOn_eq_singleton hback)

/-! ## Both ways -/

/-- **The way over the record comes to the text of the rule**, for every magnitude. -/
theorem rewritten?_finite (negative : Bool) {m : Magnitude} (hm : m.significand ≠ 0) :
    rewritten? (.finite negative m) =
      some (signText negative ++
        standardText (Nat.toDigits 10 (ShortestDigits.of m).digits)
          (ShortestDigits.of m).point) := by
  have hlast := (isShortest_of hm).last
  have hdigits := (contains_of hm).1
  have hrecord := toList_render readable_record negative hm
  have hdecimal := decimal?_render_record negative hm
  simp only [rewritten?, hm, if_false, millionth_le_iff hm, lt_sextillion_iff hm, hdecimal]
  generalize ShortestDigits.of m = s at *
  split
  · next hrange =>
    rw [Option.map_some]
    rcases decimal_spelling_record hdigits negative with h | ⟨zeros, hpoint, h⟩
    · rw [h, fixed_eq_standardText hdigits hrange.1 hrange.2,
        stripFraction_standardText hlast hrange.1 hrange.2]
    · rw [h, stripFraction_fixed_whole hdigits (by omega), hpoint, Nat.cast_add]
  · next hrange =>
    -- Out of range the record has an exponent, which is read and written anew.
    have hspelling : NumberLayout.record.spelling s =
        NumberLayout.record.scientificSpelling (Nat.toDigits 10 s.digits) s.point := by
      have hfar : ¬ ((-4 : Int) < s.point ∧ s.point ≤ 16) := by omega
      rw [spelling, if_neg]
      rw [Bool.and_eq_true, decide_eq_true_eq, decide_eq_true_eq]
      exact hfar
    rw [hspelling, scientificSpelling_text, ← List.append_assoc] at hrecord
    have hsplit : (NumberLayout.record.render (.finite negative m)).toList.splitOn 'e' =
        [signText negative ++ mantissaText (Nat.toDigits 10 s.digits),
          (if s.point - 1 < 0 then '-' else '+') ::
            (NumberLayout.record.exponentDigits (s.point - 1).natAbs).toList] := by
      rw [hrecord]
      refine splitOn_once ?_ (exponent_notMem_exponentDigits _ _)
      simp [exponent_notMem_sign, exponent_notMem_mantissaText]
    have hsign : (if 0 < s.point - 1 then '+' else '-') =
        if s.point - 1 < 0 then '-' else '+' := by
      by_cases hneg : s.point - 1 < 0
      · rw [if_pos hneg, if_neg (by omega)]
      · rw [if_neg hneg, if_pos (by omega)]
    rw [hsplit]
    simp only [integer?_exponent, Option.map_some, dropZeroFraction_mantissaText hlast, hsign]
    rw [standardText_exponent hrange Nat.toDigits_ne_nil, List.append_assoc]

/-- Written out in full without a point in whole numbers, digits make the text of the rule. -/
theorem fullSpelling_text {digits : List Char} (hne : digits ≠ []) {point : Int}
    (hlow : -6 < point) (hhigh : point ≤ 21) :
    (NumberLayout.attribute.fullSpelling digits point).text = standardText digits point := by
  have hpos : 0 < digits.length := List.length_pos_of_ne_nil hne
  rw [standardText, fullSpelling]
  by_cases hpoint : point ≤ 0
  · have habs : point.natAbs = (-point).toNat := by omega
    rw [if_pos hpoint, if_neg (by omega), if_neg (by omega), if_pos ⟨hlow, hpoint⟩]
    simp [Spelling.text, Spelling.fractionText, Spelling.exponentText, habs]
  · rw [if_neg hpoint]
    by_cases hwhole : digits.length ≤ point.toNat
    · have hcount : point.toNat - digits.length = (point - digits.length).toNat := by omega
      have hfraction : NumberLayout.attribute.wholeFraction = none := rfl
      rw [if_pos hwhole, if_pos (by omega), hfraction, hcount]
      simp [Spelling.text, Spelling.fractionText, Spelling.exponentText]
    · rw [if_neg hwhole, if_neg (by omega), if_pos (by omega)]
      simp [Spelling.text, Spelling.fractionText, Spelling.exponentText]

theorem toList_exponentDigits_attribute (exponent : Nat) :
    (NumberLayout.attribute.exponentDigits exponent).toList = Nat.toDigits 10 exponent := by
  have hlength : 0 < (toString exponent).length := by
    rw [← String.length_toList, toList_toString]
    exact Nat.length_toDigits_pos
  have hzeros : NumberLayout.attribute.exponentWidth - (toString exponent).length = 0 :=
    Nat.sub_eq_zero_of_le hlength
  rw [exponentDigits]
  simp only [hzeros, String.toList_append, toList_zeros, toList_toString, List.replicate_zero,
    List.nil_append]

/-- **The layout of a view box comes to the text of the rule**, for every magnitude. -/
theorem toList_render_attribute (negative : Bool) {m : Magnitude} (hm : m.significand ≠ 0) :
    (NumberLayout.attribute.render (.finite negative m)).toList =
      signText negative ++
        standardText (Nat.toDigits 10 (ShortestDigits.of m).digits)
          (ShortestDigits.of m).point := by
  rw [toList_render (Or.inl rfl) negative hm]
  generalize ShortestDigits.of m = s
  by_cases hrange : -6 < s.point ∧ s.point ≤ 21
  · have hspelling : NumberLayout.attribute.spelling s =
        NumberLayout.attribute.fullSpelling (Nat.toDigits 10 s.digits) s.point := by
      rw [spelling, if_pos]
      rw [Bool.and_eq_true, decide_eq_true_eq, decide_eq_true_eq]
      exact hrange
    rw [hspelling, fullSpelling_text Nat.toDigits_ne_nil hrange.1 hrange.2]
  · have hspelling : NumberLayout.attribute.spelling s =
        NumberLayout.attribute.scientificSpelling (Nat.toDigits 10 s.digits) s.point := by
      rw [spelling, if_neg]
      rw [Bool.and_eq_true, decide_eq_true_eq, decide_eq_true_eq]
      exact hrange
    rw [hspelling, scientificSpelling_text, standardText_exponent hrange Nat.toDigits_ne_nil,
      toList_exponentDigits_attribute]

end Record

/-! ## Every number -/

namespace ViewBox

/-- **How a number is written.** The digits of a magnitude other than zero are the shortest that are
read back as it, the comparisons with the two powers of ten decide as the place of their point does,
and the text follows the rule, with the sign in front. Zeros have no sign. For every number the way
over the record comes to the same text, and it never fails. -/
theorem numberText_real :
    (∀ (negative : Bool) (m : Magnitude), m.significand ≠ 0 →
      let s := ShortestDigits.of m
      IsShortest m s ∧
        ((powerOfTen (-6)).units ≤ m.units ↔ -6 < s.point) ∧
        (m.units < (powerOfTen 21).units ↔ s.point ≤ 21) ∧
        numberText (.real (.finite negative m)) =
          .ok (String.ofList
            (signText negative ++ standardText (Nat.toDigits 10 s.digits) s.point))) ∧
      (∀ (negative : Bool) (m : Magnitude), m.significand = 0 →
        numberText (.real (.finite negative m)) = .ok "0") ∧
      numberText (.real .notANumber) = .ok "NaN" ∧
      numberText (.real (.infinite false)) = .ok "Infinity" ∧
      numberText (.real (.infinite true)) = .ok "-Infinity" ∧
      ∀ x : Binary64, ∃ text, rewritten? x = some text ∧
        numberText (.real x) = .ok (String.ofList text) := by
  have hfinite : ∀ (negative : Bool) (m : Magnitude), m.significand ≠ 0 →
      numberText (.real (.finite negative m)) =
        .ok (String.ofList (signText negative ++
          standardText (Nat.toDigits 10 (ShortestDigits.of m).digits)
            (ShortestDigits.of m).point)) := by
    intro negative m hm
    rw [← toList_render_attribute negative hm, String.ofList_toList]
    rfl
  have hzero : ∀ (negative : Bool) (m : Magnitude), m.significand = 0 →
      numberText (.real (.finite negative m)) = .ok "0" := by
    intro negative m hm
    have hrender : NumberLayout.attribute.render (.finite negative m) = "0" := by
      rw [NumberLayout.render, if_pos hm]
      cases negative <;> decide
    rw [← hrender]
    rfl
  refine ⟨fun negative m hm => ⟨isShortest_of hm, millionth_le_iff hm, lt_sextillion_iff hm,
    hfinite negative m hm⟩, hzero, rfl, rfl, rfl, fun x => ?_⟩
  -- A zero has no shortest digits, so its text is not made of them.
  cases x with
  | finite negative m =>
      by_cases hm : m.significand = 0
      · exact ⟨['0'], by rw [rewritten?, if_pos hm], hzero negative m hm⟩
      · exact ⟨_, rewritten?_finite negative hm, hfinite negative m hm⟩
  | infinite negative =>
      refine ⟨_, rfl, ?_⟩
      cases negative <;> rfl
  | notANumber => exact ⟨_, rfl, rfl⟩

/-- Ten to the sixteenth has an exponent in its record and none in a view box. -/
theorem numberText_real_sixteen :
    (powerOfTen 16).significand ≠ 0 ∧ Magnitude.zero.significand = 0 ∧
      numberText (.real (.finite true (powerOfTen 16))) = .ok "-10000000000000000" ∧
      numberText (.real (.finite true .zero)) = .ok "0" := by
  have hm : (powerOfTen 16).significand ≠ 0 := by decide +kernel
  have hof : ShortestDigits.of (powerOfTen 16) = ⟨1, 17⟩ := by decide +kernel
  have hten := (numberText_real.1 true (powerOfTen 16) hm).2.2.2
  rw [hof] at hten
  refine ⟨hm, rfl, hten.trans ?_, numberText_real.2.1 true .zero rfl⟩
  decide

end ViewBox

end IconForge
