import Mathlib
import IconForge.Proofs.Number.Rounding

set_option autoImplicit false

/-! # Shortest digits read back

The shortest digits of a magnitude are found within seventeen places, and every decimal with their
value is rounded to the magnitude (`contains_of`, `toBinary64_of_contains`).

That seventeen places are enough is a matter of spacing: on the grid of the seventeenth digit
neighbours are less than one last place of the magnitude apart, and on a power of two, where the
interval reaches only half as far down, less than half of one. -/

namespace IconForge

-- a number of 1077 bits that only the kernel should look into
attribute [local irreducible] ShortestDigits.quarters

/-! ## Values -/

def Decimal.value (d : Decimal) : ℚ :=
  d.digits * 10 ^ d.exponent

theorem Decimal.ratio_pos (d : Decimal) : 0 < d.ratio.2 := by
  rw [Decimal.ratio]
  split
  · exact Nat.one_pos
  · rw [Nat.pow_eq]
    exact Nat.pow_pos (by decide)

theorem Decimal.value_eq_ratio (d : Decimal) : d.value = (d.ratio.1 : ℚ) / d.ratio.2 := by
  rw [Decimal.value, Decimal.ratio]
  by_cases h : 0 ≤ d.exponent
  · obtain ⟨e, he⟩ := Int.eq_ofNat_of_zero_le h
    rw [if_pos h, he]
    simp
  · obtain ⟨e, he⟩ : ∃ e : Nat, d.exponent = -(e : Int) := ⟨d.exponent.natAbs, by omega⟩
    rw [if_neg h, he]
    simp [div_eq_mul_inv]

/-- A decimal lies between the two powers of ten that its count of digits and its exponent
give. -/
theorem Decimal.value_bounds {d : Decimal} (h : d.digits ≠ 0) :
    (10 : ℚ) ^ ((Decimal.digitCount d.digits : Int) + d.exponent - 1) ≤ d.value ∧
      d.value < (10 : ℚ) ^ ((Decimal.digitCount d.digits : Int) + d.exponent) := by
  have hpos := Decimal.digitCount_pos h
  have hexp : (0 : ℚ) < 10 ^ d.exponent := by positivity
  have hlow : ((10 ^ (Decimal.digitCount d.digits - 1) : Nat) : ℚ) ≤ d.digits := by
    exact_mod_cast Decimal.pow_digitCount_le h
  have hhigh : (d.digits : ℚ) < ((10 ^ Decimal.digitCount d.digits : Nat) : ℚ) := by
    exact_mod_cast Decimal.lt_pow_digitCount d.digits
  have hcount : (Decimal.digitCount d.digits : Int) + d.exponent - 1 =
      ((Decimal.digitCount d.digits - 1 : Nat) : Int) + d.exponent := by omega
  rw [hcount, zpow_add₀ (by norm_num), zpow_add₀ (by norm_num), zpow_natCast, zpow_natCast,
    Decimal.value]
  push_cast at hlow hhigh
  exact ⟨mul_le_mul_of_nonneg_right hlow hexp.le, mul_lt_mul_of_pos_right hhigh hexp⟩

namespace ShortestDigits

/-- The number that digits with a place of the point stand for. -/
def value (s : ShortestDigits) : ℚ :=
  s.digits * 10 ^ (s.point - (Decimal.digitCount s.digits : Int))

theorem quarters_pos : 0 < quarters := by
  decide +kernel

/-! ## The interval as a set of rationals -/

def Interval.Contains (i : Interval) (q : ℚ) : Prop :=
  if i.closed then i.least ≤ q * quarters ∧ q * quarters ≤ i.most
  else i.least < q * quarters ∧ q * quarters < i.most

theorem Interval.holds_iff {i : Interval} {n d : Nat} (hd : 0 < d) :
    i.holds n d = true ↔ i.Contains ((n : ℚ) / d) := by
  have hd' : (0 : ℚ) < d := by exact_mod_cast hd
  rw [Interval.holds, Interval.Contains, div_mul_eq_mul_div]
  by_cases hclosed : i.closed
  · rw [if_pos hclosed, if_pos hclosed, Bool.and_eq_true, decide_eq_true_eq, decide_eq_true_eq,
      le_div_iff₀ hd', div_le_iff₀ hd']
    norm_cast
  · rw [if_neg hclosed, if_neg hclosed, Bool.and_eq_true, decide_eq_true_eq, decide_eq_true_eq,
      lt_div_iff₀ hd', div_lt_iff₀ hd']
    norm_cast

/-- The lower end of the interval of a magnitude other than zero. -/
theorem least_of {m : Magnitude} (h : m.significand ≠ 0) :
    ((Interval.of m).least : ℚ) = 4 * m.units - quartersBelow m * 2 ^ m.scale ∧
      quartersBelow m * 2 ^ m.scale < 4 * m.units := by
  have hlt : quartersBelow m * 2 ^ m.scale < 4 * m.units := by
    have hpow : 0 < 2 ^ m.scale := Nat.pow_pos (by decide)
    have h₁ : quartersBelow m * 2 ^ m.scale ≤ 2 * 2 ^ m.scale :=
      Nat.mul_le_mul_right _ (quartersBelow_le m)
    have h₂ : 1 * 2 ^ m.scale ≤ m.significand * 2 ^ m.scale :=
      Nat.mul_le_mul_right _ (Nat.pos_of_ne_zero h)
    rw [Magnitude.units, Nat.pow_eq]
    omega
  refine ⟨?_, hlt⟩
  have hleast : (Interval.of m).least = 4 * m.units - quartersBelow m * 2 ^ m.scale := rfl
  rw [hleast, Nat.cast_sub hlt.le]
  push_cast
  ring

/-- What an interval contains is positive and within the least and the most. -/
theorem Interval.Contains.bounds {m : Magnitude} {q : ℚ} (hm : m.significand ≠ 0)
    (h : (Interval.of m).Contains q) :
    2 ≤ q * quarters ∧ q * quarters ≤ (Interval.of m).most := by
  have hends : ((Interval.of m).least : ℚ) ≤ q * quarters ∧
      q * quarters ≤ (Interval.of m).most := by
    rw [Interval.Contains] at h
    split at h
    · exact h
    · exact ⟨h.1.le, h.2.le⟩
  refine ⟨le_trans ?_ hends.1, hends.2⟩
  rw [(least_of hm).1]
  have hpow : (1 : ℚ) ≤ 2 ^ m.scale := one_le_pow₀ (by norm_num)
  have hunits : (1 : ℚ) * 2 ^ m.scale ≤ m.units := by
    have : 1 * 2 ^ m.scale ≤ m.significand * 2 ^ m.scale :=
      Nat.mul_le_mul_right _ (Nat.pos_of_ne_zero hm)
    rw [Magnitude.units, Nat.pow_eq]
    exact_mod_cast this
  have hbelow : (quartersBelow m : ℚ) * 2 ^ m.scale ≤ 2 * 2 ^ m.scale :=
    mul_le_mul_of_nonneg_right (by exact_mod_cast quartersBelow_le m) (by positivity)
  linarith

theorem most_of (m : Magnitude) : ((Interval.of m).most : ℚ) = 4 * m.units + 2 * 2 ^ m.scale := by
  have hmost : (Interval.of m).most = 4 * m.units + 2 * 2 ^ m.scale := rfl
  rw [hmost]
  push_cast
  ring

/-- What is less than the shorter half of the interval away from a magnitude is in its interval. -/
theorem contains_of_near {m : Magnitude} {q : ℚ} (hm : m.significand ≠ 0)
    (h : |q * quarters - 4 * m.units| < quartersBelow m * 2 ^ m.scale) :
    (Interval.of m).Contains q := by
  have hbelow : (quartersBelow m : ℚ) * 2 ^ m.scale ≤ 2 * 2 ^ m.scale :=
    mul_le_mul_of_nonneg_right (by exact_mod_cast quartersBelow_le m) (by positivity)
  obtain ⟨h₁, h₂⟩ := abs_lt.1 h
  rw [Interval.Contains, (least_of hm).1, most_of]
  split
  · constructor <;> linarith
  · constructor <;> linarith

/-! ## Candidates -/

/-- The place of the point of a ratio. -/
theorem pointOf_bounds {n d : Nat} (hn : 0 < n) (hd : 0 < d) :
    (10 : ℚ) ^ (pointOf n d - 1) ≤ (n : ℚ) / d := by
  have hd' : (0 : ℚ) < d := by exact_mod_cast hd
  rw [pointOf, le_div_iff₀ hd']
  by_cases h : d ≤ n
  · have hq : n / d ≠ 0 := (Nat.div_pos h hd).ne'
    have hpos := Decimal.digitCount_pos hq
    have hle : 10 ^ (Decimal.digitCount (n / d) - 1) * d ≤ n :=
      (Nat.le_div_iff_mul_le hd).1 (Decimal.pow_digitCount_le hq)
    have hexp : (Decimal.digitCount (n / d) : Int) - 1 =
        ((Decimal.digitCount (n / d) - 1 : Nat) : Int) := by omega
    rw [if_pos h, hexp, zpow_natCast]
    exact_mod_cast hle
  · have hlt : (d - 1) / n < 10 ^ Decimal.digitCount ((d - 1) / n) := Decimal.lt_pow_digitCount _
    rw [Nat.div_lt_iff_lt_mul hn] at hlt
    have hle : d ≤ 10 ^ Decimal.digitCount ((d - 1) / n) * n := by omega
    have hexp : (1 - (Decimal.digitCount ((d - 1) / n) : Int)) - 1 =
        -(Decimal.digitCount ((d - 1) / n) : Int) := by omega
    rw [if_neg h, hexp, zpow_neg, zpow_natCast, inv_mul_le_iff₀ (by positivity)]
    exact_mod_cast hle

/-- The grid of a count of digits, as a quotient of the two powers of ten that the search works
with. -/
theorem grid_eq (point : Int) (count : Nat) :
    ((10 ^ (point - count).toNat : Nat) : ℚ) / (10 ^ ((count : Int) - point).toNat : Nat) =
      10 ^ (point - count) := by
  by_cases h : 0 ≤ point - count
  · obtain ⟨e, he⟩ := Int.eq_ofNat_of_zero_le h
    have hneg : (count : Int) - point = -(e : Int) := by omega
    rw [he, hneg]
    simp
  · obtain ⟨e, he⟩ : ∃ e : Nat, point - count = -(e : Int) := ⟨(point - count).natAbs, by omega⟩
    have hneg : (count : Int) - point = e := by omega
    rw [he, hneg]
    simp

/-- The digits of a candidate stand for its place on the grid. -/
theorem value_ofCandidate {c : Nat} (hc : c ≠ 0) (point : Int) (count : Nat) :
    (ofCandidate c point count).value = c * 10 ^ (point - count) := by
  obtain ⟨k, hvalue, hcount, -⟩ := dropZeros_spec hc
  have hexp : point - count + (Decimal.digitCount c : Int) -
      (Decimal.digitCount (dropZeros c) : Int) = k + (point - count) := by omega
  have hc' : (c : ℚ) = dropZeros c * 10 ^ k := by exact_mod_cast hvalue.symm
  simp only [value, ofCandidate]
  rw [hexp, zpow_add₀ (by norm_num), zpow_natCast, ← mul_assoc, ← hc']

theorem contains_ofCandidate {m : Magnitude} (hm : m.significand ≠ 0) {c count : Nat}
    {point : Int}
    (h : (Interval.of m).holds (c * 10 ^ (point - count).toNat)
      (10 ^ ((count : Int) - point).toNat)) :
    (ofCandidate c point count).digits ≠ 0 ∧
      (Interval.of m).Contains (ofCandidate c point count).value := by
  have hup : 0 < 10 ^ ((count : Int) - point).toNat := Nat.pow_pos (by decide)
  rw [Interval.holds_iff hup] at h
  have hc : c ≠ 0 := by
    rintro rfl
    have := h.bounds hm
    norm_num at this
  rw [value_ofCandidate hc, ← grid_eq]
  refine ⟨?_, ?_⟩
  · obtain ⟨_, _, _, hne⟩ := dropZeros_spec hc
    exact hne
  · rwa [← mul_div_assoc, ← Nat.cast_mul]

theorem contains_of_withCount? {m : Magnitude} (hm : m.significand ≠ 0) {point : Int}
    {count : Nat} {s : ShortestDigits} (h : withCount? m point count = some s) :
    s.digits ≠ 0 ∧ (Interval.of m).Contains s.value := by
  unfold withCount? at h
  extract_lets up down interval n d low twice nearer farther at h
  split at h
  · next hholds =>
    cases h
    exact contains_ofCandidate hm hholds
  · split at h
    · next hholds =>
      cases h
      exact contains_ofCandidate hm hholds
    · cases h

/-! ## Seventeen digits -/

theorem nearestQuotient_bounds {n d : Nat} (hd : 0 < d) :
    2 * (Magnitude.nearestQuotient n d * d) ≤ 2 * n + d ∧
      2 * n ≤ 2 * (Magnitude.nearestQuotient n d * d) + d := by
  have hdiv : n = n / d * d + n % d := by
    rw [Nat.mul_comm, Nat.div_add_mod]
  have hmod : n % d < d := Nat.mod_lt n hd
  simp only [Magnitude.nearestQuotient]
  generalize n / d = q at *
  generalize n % d = r at *
  split
  · next h =>
    simp only [Bool.or_eq_true, Bool.and_eq_true, decide_eq_true_eq] at h
    omega
  · next h =>
    simp only [Bool.or_eq_true, Bool.and_eq_true, decide_eq_true_eq, not_or, not_and] at h
    rw [Nat.add_mul, Nat.one_mul]
    omega

/-- The grid of the seventeenth digit is finer than the interval of a magnitude. -/
theorem grid_lt {m : Magnitude} (hm : m.significand ≠ 0) :
    (10 : ℚ) ^ (pointOf (4 * m.units) quarters - 17) * quarters <
      2 * (quartersBelow m * 2 ^ m.scale) := by
  have hpow : (0 : ℚ) < 2 ^ m.scale := by positivity
  have hq : (0 : ℚ) < quarters := by exact_mod_cast quarters_pos
  have hunits : 0 < 4 * m.units := lt_of_le_of_lt (Nat.zero_le _) (least_of hm).2
  have hpoint := pointOf_bounds hunits quarters_pos
  rw [le_div_iff₀ hq] at hpoint
  have hsplit : pointOf (4 * m.units) quarters - 1 =
      (pointOf (4 * m.units) quarters - 17) + (16 : Nat) := by
    push_cast
    ring
  rw [hsplit, zpow_add₀ (by norm_num), zpow_natCast] at hpoint
  generalize (10 : ℚ) ^ (pointOf (4 * m.units) quarters - 17) = g at *
  -- A significand has 53 bits, which are fewer than seventeen digits.
  have hsig : (2 * m.significand : ℚ) < quartersBelow m * 10 ^ 16 := by
    have hlt := m.significand_lt
    rw [Nat.pow_eq] at hlt
    have : 2 * m.significand < quartersBelow m * 10 ^ 16 := by
      rw [quartersBelow]
      split
      · next h =>
        simp only [Nat.pow_eq, Bool.and_eq_true, decide_eq_true_eq] at h
        omega
      · omega
    exact_mod_cast this
  have hvalue : ((4 * m.units : Nat) : ℚ) = 4 * (m.significand * 2 ^ m.scale) := by
    rw [Magnitude.units, Nat.pow_eq]
    push_cast
    ring
  rw [hvalue] at hpoint
  have hscaled : 2 * m.significand * (2 : ℚ) ^ m.scale <
      quartersBelow m * 10 ^ 16 * 2 ^ m.scale := mul_lt_mul_of_pos_right hsig hpow
  nlinarith [hscaled, hpoint]

/-- With seventeen digits the candidate nearest to a magnitude is in its interval. -/
theorem withCount?_seventeen {m : Magnitude} (hm : m.significand ≠ 0) :
    (withCount? m (pointOf (4 * m.units) quarters) 17).isSome := by
  have hq : (0 : ℚ) < quarters := by exact_mod_cast quarters_pos
  have hgrid := grid_lt hm
  generalize hpoint : pointOf (4 * m.units) quarters = point at *
  set up := 10 ^ (((17 : Nat) : Int) - point).toNat with hup
  set down := 10 ^ (point - ((17 : Nat) : Int)).toNat with hdown
  have hupPos : 0 < up := Nat.pow_pos (by decide)
  have hdownPos : 0 < down := Nat.pow_pos (by decide)
  have hgridEq : (down : ℚ) / up = 10 ^ (point - 17) := by
    rw [hup, hdown, grid_eq]
    rfl
  -- the nearest candidate is half a grid width away at most
  set c := Magnitude.nearestQuotient (4 * m.units * up) (quarters * down) with hc
  obtain ⟨h₁, h₂⟩ := nearestQuotient_bounds (n := 4 * m.units * up)
    (Nat.mul_pos quarters_pos hdownPos)
  rw [← hc] at h₁ h₂
  have hupPos' : (0 : ℚ) < up := by exact_mod_cast hupPos
  have hnear : |((c * down : Nat) : ℚ) / up * quarters - 4 * m.units| ≤
      (down : ℚ) / up * quarters / 2 := by
    have h₁' : (2 * (c * (quarters * down)) : ℚ) ≤ 2 * (4 * m.units * up) + quarters * down := by
      exact_mod_cast h₁
    have h₂' : (2 * (4 * m.units * up) : ℚ) ≤ 2 * (c * (quarters * down)) + quarters * down := by
      exact_mod_cast h₂
    have hcenter : ((c * down : Nat) : ℚ) / up * quarters - 4 * m.units =
        (c * (quarters * down) - 4 * m.units * up) / up := by
      rw [eq_div_iff hupPos'.ne', sub_mul]
      push_cast
      field_simp
    have hwidth : (down : ℚ) / up * quarters / 2 = quarters * down / 2 / up := by
      field_simp
    rw [hcenter, hwidth, abs_div, abs_of_pos hupPos', div_le_div_iff_of_pos_right hupPos', abs_le]
    constructor <;> linarith
  have hcontains : (Interval.of m).holds (c * down) up := by
    rw [Interval.holds_iff hupPos]
    apply contains_of_near hm
    rw [hgridEq] at hnear
    linarith
  simp only [withCount?, Nat.pow_eq]
  rw [if_pos]
  · rfl
  · exact hcontains

/-- **The shortest digits of a magnitude lie in its interval.** -/
theorem contains_of {m : Magnitude} (hm : m.significand ≠ 0) :
    (ShortestDigits.of m).digits ≠ 0 ∧ (Interval.of m).Contains (ShortestDigits.of m).value := by
  simp only [ShortestDigits.of]
  split
  · next s hs =>
    obtain ⟨i, -, hi⟩ := List.exists_of_findSome?_eq_some hs
    exact contains_of_withCount? hm hi
  · next hnone =>
    have hlast := List.findSome?_eq_none_iff.1 hnone 16 (by simp)
    have hsome := withCount?_seventeen hm
    rw [hlast] at hsome
    cases hsome

end ShortestDigits

/-! ## Reading back -/

namespace Decimal

open ShortestDigits

theorem quarters_lt : quarters < 2 * 10 ^ 330 := by
  decide +kernel

/-- A decimal of a lower order than those of the format is less than half the least magnitude. -/
theorem value_mul_quarters_lt {d : Decimal} (hd : d.digits ≠ 0)
    (h : (digitCount d.digits : Int) + d.exponent < -330) : d.value * quarters < 2 := by
  have hq : (0 : ℚ) < quarters := by exact_mod_cast quarters_pos
  have hvalue : d.value < 10 ^ (-((330 : Nat) : Int)) :=
    lt_of_lt_of_le (value_bounds hd).2 (zpow_le_zpow_right₀ (by norm_num) (by omega))
  have hcast : (quarters : ℚ) < 2 * 10 ^ 330 := by exact_mod_cast quarters_lt
  calc d.value * quarters < 10 ^ (-((330 : Nat) : Int)) * quarters :=
        mul_lt_mul_of_pos_right hvalue hq
    _ < 2 := by
        rw [zpow_neg, zpow_natCast, inv_mul_lt_iff₀ (by positivity), mul_comm]
        exact hcast

/-- A decimal of a higher order than those of the format is beyond a power of ten. -/
theorem pow_le_value {d : Decimal} (hd : d.digits ≠ 0)
    (h : (digitCount d.digits : Int) + d.exponent > 310) : (10 : ℚ) ^ (310 : Nat) ≤ d.value := by
  refine le_trans ?_ (value_bounds hd).1
  rw [← zpow_natCast]
  exact zpow_le_zpow_right₀ (by norm_num) (by push_cast; omega)

/-- The order of magnitude of a decimal in an interval is within the format. -/
theorem order_bounds {m : Magnitude} (hm : m.significand ≠ 0) {d : Decimal} (hd : d.digits ≠ 0)
    (h : (Interval.of m).Contains d.value) :
    -330 ≤ (digitCount d.digits : Int) + d.exponent ∧
      (digitCount d.digits : Int) + d.exponent ≤ 310 := by
  obtain ⟨hleast, hmost⟩ := h.bounds hm
  have hq : (0 : ℚ) < quarters := by exact_mod_cast quarters_pos
  constructor
  · by_contra hlt
    have := value_mul_quarters_lt hd (not_le.1 hlt)
    linarith
  · by_contra hlt
    have h₁ := pow_le_value hd (not_le.1 hlt)
    have h₂ : ((Interval.of m).most : ℚ) < 10 ^ (310 : Nat) * quarters := by
      have hsig := m.significand_lt
      have hscale : 2 ^ m.scale ≤ 2 ^ 2045 := pow_le_pow_right₀ one_le_two m.scale_le
      have hunits : m.units ≤ 2 ^ 53 * 2 ^ 2045 := by
        rw [Magnitude.units, Nat.pow_eq]
        rw [Nat.pow_eq] at hsig
        exact Nat.mul_le_mul hsig.le hscale
      have hmostEq : (Interval.of m).most = 4 * m.units + 2 * 2 ^ m.scale := rfl
      have hbig : 4 * (2 ^ 53 * 2 ^ 2045) + 2 * 2 ^ 2045 < 10 ^ 310 * quarters := by
        decide +kernel
      have : (Interval.of m).most < 10 ^ 310 * quarters := by
        rw [hmostEq]
        exact lt_of_le_of_lt
          (Nat.add_le_add (Nat.mul_le_mul_left 4 hunits) (Nat.mul_le_mul_left 2 hscale)) hbig
      exact_mod_cast this
    nlinarith

/-- Within the orders of the format a decimal is rounded through its ratio. -/
theorem toBinary64_eq_ofRatio {d : Decimal} (hd : d.digits ≠ 0)
    (hlow : -330 ≤ (digitCount d.digits : Int) + d.exponent)
    (hhigh : (digitCount d.digits : Int) + d.exponent ≤ 310) :
    d.toBinary64 = .ofRatio d.negative d.ratio.1 d.ratio.2 := by
  have hguard : (decide (d.digits = 0) ||
      decide ((digitCount d.digits : Int) + d.exponent < -330)) = false := by
    rw [Bool.or_eq_false_iff, decide_eq_false_iff_not, decide_eq_false_iff_not]
    omega
  have hfar : ¬ ((digitCount d.digits : Int) + d.exponent > 310) := by omega
  simp only [toBinary64]
  rw [hguard, if_neg Bool.false_ne_true, if_neg hfar]

/-- **A decimal with a value in the interval of a magnitude reads back as that magnitude.** -/
theorem toBinary64_of_contains {m : Magnitude} (hm : m.significand ≠ 0) {d : Decimal}
    (h : (Interval.of m).Contains d.value) : d.toBinary64 = .finite d.negative m := by
  have hd : d.digits ≠ 0 := by
    intro hzero
    have hleast := (h.bounds hm).1
    rw [value, hzero, Nat.cast_zero, zero_mul, zero_mul] at hleast
    exact absurd hleast (by norm_num)
  obtain ⟨hlow, hhigh⟩ := order_bounds hm hd h
  have hratio : Magnitude.ofRatio? d.ratio.1 d.ratio.2 = some m := by
    apply Magnitude.ofRatio?_of_holds d.ratio_pos
    rw [Interval.holds_iff d.ratio_pos, ← value_eq_ratio]
    exact h
  rw [toBinary64_eq_ofRatio hd hlow hhigh, Binary64.ofRatio, hratio, Binary64.ofMagnitude?]

theorem toBinary64_of_digits_eq_zero {d : Decimal} (h : d.digits = 0) :
    d.toBinary64 = .finite d.negative .zero := by
  simp [toBinary64, h]

end Decimal

end IconForge
