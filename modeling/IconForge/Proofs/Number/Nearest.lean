import Mathlib
import IconForge.Proofs.Number.Fewest

set_option autoImplicit false

/-! # Decimals are rounded to the nearest number

A decimal is rounded to the binary64 number nearest to it, of two that are as near to the one with
the even significand, and it is too large for the format exactly from `2 ^ 1024 - 2 ^ 970` on
(`toBinary64_nearest`).

The interval of a magnitude was made to reach half way to both neighbours. What is missing for
"nearest" is that the neighbours stand where the interval supposes them: one last place above
(`units_add_le`) and one below, or half of one below a power of two (`units_le_sub`). Then whatever
an interval contains is no nearer to any other magnitude, and as near only at an end of the interval
(`nearest_of_contains`). Zero needs no case of its own. -/

namespace IconForge

-- a number of 1077 bits that only the kernel should look into
attribute [local irreducible] ShortestDigits.quarters

open ShortestDigits

namespace Magnitude

/-! ## Neighbours -/

theorem units_lt (m : Magnitude) : m.units < 2 ^ (53 + m.scale) := by
  have hsig := m.significand_lt
  rw [Nat.pow_eq] at hsig
  rw [units, Nat.pow_eq, pow_add]
  exact Nat.mul_lt_mul_of_pos_right hsig (Nat.pow_pos (by decide))

theorem le_units {m : Magnitude} (h : 0 < m.scale) : 2 ^ (52 + m.scale) ≤ m.units := by
  have hnormal := m.normal.resolve_left h.ne'
  rw [Nat.pow_eq] at hnormal
  rw [units, Nat.pow_eq, pow_add]
  exact Nat.mul_le_mul_right _ hnormal

theorem units_lt_of_scale_lt {m other : Magnitude} (h : m.scale < other.scale) :
    m.units < other.units :=
  calc m.units < 2 ^ (53 + m.scale) := m.units_lt
    _ ≤ 2 ^ (52 + other.scale) := Nat.pow_le_pow_right (by decide) (by omega)
    _ ≤ other.units := le_units (by omega)

theorem eq_of_units_eq {m other : Magnitude} (h : m.units = other.units) : m = other := by
  have hscale : m.scale = other.scale := by
    rcases Nat.lt_trichotomy m.scale other.scale with hlt | heq | hgt
    · exact absurd h (units_lt_of_scale_lt hlt).ne
    · exact heq
    · exact absurd h (units_lt_of_scale_lt hgt).ne'
  have hsignificand : m.significand = other.significand := by
    rw [units, units, hscale, Nat.pow_eq] at h
    exact Nat.eq_of_mul_eq_mul_right (Nat.pow_pos (by decide)) h
  cases m
  cases other
  cases hscale
  cases hsignificand
  rfl

theorem pow_dvd_units {m : Magnitude} {s : Nat} (h : s ≤ m.scale) : 2 ^ s ∣ m.units := by
  rw [units, Nat.pow_eq]
  exact Dvd.dvd.mul_left (pow_dvd_pow 2 h) _

theorem add_le_of_dvd {a b step : Nat} (h : a < b) (ha : step ∣ a) (hb : step ∣ b) :
    a + step ≤ b := by
  have := Nat.le_of_dvd (Nat.sub_pos_of_lt h) (Nat.dvd_sub hb ha)
  omega

/-- What stands above a magnitude is one last place away at least. -/
theorem units_add_le {m other : Magnitude} (h : m.units < other.units) :
    m.units + 2 ^ m.scale ≤ other.units := by
  apply add_le_of_dvd h (pow_dvd_units le_rfl)
  apply pow_dvd_units
  by_contra hscale
  have := units_lt_of_scale_lt (Nat.not_le.1 hscale)
  omega

/-- What stands below a magnitude is one last place away at least, and half of one below a power of
two. -/
theorem units_le_sub {m other : Magnitude} (h : other.units < m.units) :
    2 * other.units + quartersBelow m * 2 ^ m.scale ≤ 2 * m.units := by
  rw [quartersBelow]
  split
  · next hpower =>
    simp only [Nat.pow_eq, Bool.and_eq_true, decide_eq_true_eq] at hpower
    obtain ⟨k, hk⟩ : ∃ k, m.scale = k + 1 := ⟨m.scale - 1, by omega⟩
    have hunits : m.units = 2 * 2 ^ (52 + k) := by
      rw [units, hpower.1, hk, Nat.pow_eq, pow_add, pow_succ]
      ring
    have hhalf : other.units + 2 ^ k ≤ m.units := by
      -- At a smaller scale the other one is below the power of two; at the same it is a multiple.
      rcases Nat.lt_or_ge other.scale k with hlt | hge
      · have h₁ : other.units < 2 ^ (52 + k) :=
          lt_of_lt_of_le other.units_lt (Nat.pow_le_pow_right (by decide) (by omega))
        have h₂ : 2 ^ k ≤ 2 ^ (52 + k) := Nat.pow_le_pow_right (by decide) (by omega)
        omega
      · exact add_le_of_dvd h (pow_dvd_units hge) (pow_dvd_units (by omega))
    rw [hk, pow_succ]
    omega
  · next hpower =>
    have hone : other.units + 2 ^ m.scale ≤ m.units := by
      rcases Nat.lt_or_ge other.scale m.scale with hlt | hge
      · have hnormal := m.normal.resolve_left (by omega)
        simp only [Nat.pow_eq, Bool.and_eq_true, decide_eq_true_eq, not_and] at hpower hnormal
        have hsig : 2 ^ 52 + 1 ≤ m.significand := by
          have : ¬ m.significand = 2 ^ 52 := fun heq => hpower heq (by omega)
          omega
        have h₁ : other.units < 2 ^ (52 + m.scale) :=
          lt_of_lt_of_le other.units_lt (Nat.pow_le_pow_right (by decide) (by omega))
        have h₂ : (2 ^ 52 + 1) * 2 ^ m.scale ≤ m.units := by
          rw [units, Nat.pow_eq]
          exact Nat.mul_le_mul_right _ hsig
        rw [pow_add] at h₁
        rw [Nat.add_mul, Nat.one_mul] at h₂
        omega
      · exact add_le_of_dvd h (pow_dvd_units hge) (pow_dvd_units le_rfl)
    omega

/-! ## The nearest magnitude -/

/-- A magnitude that none is nearer to a rational than, with an even significand if another one is
as near. -/
structure Nearest (m : Magnitude) (q : ℚ) : Prop where
  le (other : Magnitude) : |m.value - q| ≤ |other.value - q|
  even (other : Magnitude) : other ≠ m → |other.value - q| = |m.value - q| →
    m.significand % 2 = 0

/-- Distances over the denominator of the intervals. -/
theorem abs_sub_mul_quarters (m : Magnitude) (q : ℚ) :
    |m.value - q| * quarters = |4 * m.units - q * quarters| := by
  have hquarters : (0 : ℚ) < quarters := by exact_mod_cast quarters_pos
  rw [← value_mul_quarters, ← sub_mul, abs_mul, abs_of_pos hquarters]

/-- How far an interval reaches from its magnitude, its ends being left out for an odd
significand. -/
theorem reach_of_contains {m : Magnitude} {q : ℚ} (h : (Interval.of m).Contains q) :
    4 * (m.units : ℚ) - quartersBelow m * 2 ^ m.scale ≤ q * quarters ∧
      q * quarters ≤ 4 * m.units + 2 * 2 ^ m.scale ∧
      (m.significand % 2 = 1 → 4 * (m.units : ℚ) - quartersBelow m * 2 ^ m.scale < q * quarters ∧
        q * quarters < 4 * m.units + 2 * 2 ^ m.scale) := by
  have hleast : 4 * (m.units : ℚ) - quartersBelow m * 2 ^ m.scale ≤ (Interval.of m).least := by
    have hsub : 4 * m.units ≤ (Interval.of m).least + quartersBelow m * 2 ^ m.scale := by
      have : (Interval.of m).least = 4 * m.units - quartersBelow m * 2 ^ m.scale := rfl
      omega
    have hcast : (4 * m.units : ℚ) ≤ (Interval.of m).least + quartersBelow m * 2 ^ m.scale := by
      exact_mod_cast hsub
    linarith
  rw [Interval.Contains, most_of] at h
  split at h
  · next hclosed =>
    have heven : m.significand % 2 = 0 := by simpa [Interval.of] using hclosed
    exact ⟨hleast.trans h.1, h.2, fun hodd => by omega⟩
  · exact ⟨(hleast.trans_lt h.1).le, h.2.le, fun _ => ⟨hleast.trans_lt h.1, h.2⟩⟩

/-- Seen from a ratio in the interval of a magnitude, any other magnitude is at least as far away,
and farther when the significand is odd. -/
theorem distance_of_contains {m other : Magnitude} {q : ℚ} (h : (Interval.of m).Contains q)
    (hne : other ≠ m) :
    |4 * (m.units : ℚ) - q * quarters| ≤ |4 * other.units - q * quarters| ∧
      (m.significand % 2 = 1 →
        |4 * (m.units : ℚ) - q * quarters| < |4 * other.units - q * quarters|) := by
  obtain ⟨hlow, hhigh, hstrict⟩ := reach_of_contains h
  have hbelow : (0 : ℚ) ≤ quartersBelow m * 2 ^ m.scale := by positivity
  have hplace : (0 : ℚ) < 2 ^ m.scale := by positivity
  rcases Nat.lt_trichotomy other.units m.units with hlt | heq | hgt
  · have hless : (other.units : ℚ) < m.units := by exact_mod_cast hlt
    have hgap : 2 * (other.units : ℚ) + quartersBelow m * 2 ^ m.scale ≤ 2 * m.units := by
      exact_mod_cast units_le_sub hlt
    have hfar : |4 * (other.units : ℚ) - q * quarters| = q * quarters - 4 * other.units := by
      rw [abs_of_nonpos (by linarith)]
      ring
    rw [hfar]
    refine ⟨abs_le.2 ⟨by linarith, by linarith⟩, fun hodd => ?_⟩
    obtain ⟨hlow, hhigh⟩ := hstrict hodd
    exact abs_lt.2 ⟨by linarith, by linarith⟩
  · exact absurd (eq_of_units_eq heq) hne
  · have hgap : (m.units : ℚ) + 2 ^ m.scale ≤ other.units := by
      exact_mod_cast units_add_le hgt
    have hfar : |4 * (other.units : ℚ) - q * quarters| = 4 * other.units - q * quarters :=
      abs_of_nonneg (by linarith)
    rw [hfar]
    refine ⟨abs_le.2 ⟨by linarith, by linarith⟩, fun hodd => ?_⟩
    obtain ⟨hlow, hhigh⟩ := hstrict hodd
    exact abs_lt.2 ⟨by linarith, by linarith⟩

/-- **What an interval contains is nearest to its magnitude.** -/
theorem nearest_of_contains {m : Magnitude} {q : ℚ} (h : (Interval.of m).Contains q) :
    m.Nearest q := by
  have hquarters : (0 : ℚ) < quarters := by exact_mod_cast quarters_pos
  constructor
  · intro other
    by_cases hne : other = m
    · rw [hne]
    · have := (distance_of_contains h hne).1
      rwa [← abs_sub_mul_quarters, ← abs_sub_mul_quarters, mul_le_mul_iff_of_pos_right hquarters]
        at this
  · intro other hne htie
    by_contra hodd
    have := (distance_of_contains h hne).2 (by omega)
    rw [← abs_sub_mul_quarters, ← abs_sub_mul_quarters, htie] at this
    exact lt_irrefl _ this

/-! ## Ratios that are too large -/

theorem nearestQuotient_le {n d k : Nat} (hd : 0 < d) (h : n < k * d) :
    nearestQuotient n d ≤ k := by
  by_contra hlt
  have hmul : (k + 1) * d ≤ nearestQuotient n d * d := Nat.mul_le_mul_right d (by omega)
  have := (nearestQuotient_bounds (n := n) hd).1
  rw [Nat.add_mul] at hmul
  omega

theorem le_nearestQuotient {n d k : Nat} (hd : 0 < d) (h : k * d ≤ n) :
    k ≤ nearestQuotient n d := by
  by_contra hlt
  have hmul : (nearestQuotient n d + 1) * d ≤ k * d := Nat.mul_le_mul_right d (by omega)
  have := (nearestQuotient_bounds (n := n) hd).2
  rw [Nat.add_mul] at hmul
  omega

theorem mul_two_pow_add (d j k : Nat) : d * 2 ^ (j + k) = 2 ^ k * (d * 2 ^ j) := by
  rw [pow_add]
  ring

/-- A ratio that no magnitude is nearest to is beyond the largest one by half a last place. -/
theorem le_of_ofRatio?_eq_none {n d : Nat} (hd : 0 < d) (h : ofRatio? n d = none) :
    (2 ^ 54 - 1) * (d * 2 ^ 2044) ≤ n * Nat.pow 2 1074 := by
  simp only [ofRatio?] at h
  generalize n * Nat.pow 2 1074 = N at *
  simp only [Nat.pow_eq] at h
  generalize hs : (N / d).log2 - 52 = s at *
  have hDpos : 0 < d * 2 ^ s := Nat.mul_pos hd (Nat.pow_pos (by decide))
  obtain ⟨hhigh, hlow⟩ := scale_spec hd hs
  have hsig := nearestQuotient_le hDpos hhigh
  have hgrow : ∀ k, 2044 + k ≤ s → 2 ^ k * (d * 2 ^ 2044) ≤ d * 2 ^ s := by
    intro k hk
    rw [← mul_two_pow_add]
    exact Nat.mul_le_mul_left d (Nat.pow_le_pow_right (by decide) hk)
  split at h
  · next hfull =>
    -- The significand was rounded up to a power of two of the next scale, and that is too large.
    have hscale : 2044 + 1 ≤ s := by
      by_contra hlt
      rw [ofParts?, dif_pos ⟨by decide, by omega, Or.inr (by decide)⟩] at h
      cases h
    have hbound := (nearestQuotient_bounds (n := N) hDpos).1
    rw [hfull] at hbound
    have hD := hgrow 1 hscale
    generalize d * 2 ^ s = D at *
    generalize d * 2 ^ 2044 = E at *
    omega
  · next hfull =>
    have hscale : 2044 + 2 ≤ s := by
      by_contra hlt
      have hnormal : s = 0 ∨ Nat.pow 2 52 ≤ nearestQuotient N (d * 2 ^ s) :=
        hlow.imp id fun hle => le_nearestQuotient hDpos hle
      rw [ofParts?, dif_pos ⟨lt_of_le_of_ne hsig hfull, by omega, hnormal⟩] at h
      cases h
    have hreach := hlow.resolve_left (by omega)
    have hD := hgrow 2 hscale
    generalize d * 2 ^ s = D at *
    generalize d * 2 ^ 2044 = E at *
    omega

/-- The largest magnitude has an odd significand, so the ratio half a last place above it is rounded
away from it. -/
theorem lt_of_ofRatio?_eq_some {n d : Nat} {m : Magnitude} (hd : 0 < d)
    (h : ofRatio? n d = some m) : n * Nat.pow 2 1074 < (2 ^ 54 - 1) * (d * 2 ^ 2044) := by
  obtain ⟨-, hhigh, hstrict⟩ := (holds_iff_bounds m n d).1 (holds_of_ofRatio? hd h)
  generalize n * Nat.pow 2 1074 = N at *
  have hsig : m.significand < 2 ^ 53 := by simpa only [Nat.pow_eq] using m.significand_lt
  have hDpos : 0 < d * 2 ^ m.scale := Nat.mul_pos hd (Nat.pow_pos (by decide))
  have hD : d * 2 ^ m.scale ≤ 2 ^ 1 * (d * 2 ^ 2044) := by
    rw [← mul_two_pow_add]
    exact Nat.mul_le_mul_left d (Nat.pow_le_pow_right (by decide) m.scale_le)
  generalize d * 2 ^ m.scale = D at *
  generalize d * 2 ^ 2044 = E at *
  have hN : 4 * N < (2 ^ 55 - 2) * D := by
    by_cases hlast : m.significand = 2 ^ 53 - 1
    · have := (hstrict (by omega)).2
      rw [hlast] at this
      omega
    · have : m.significand * D ≤ (2 ^ 53 - 2) * D := Nat.mul_le_mul_right D (by omega)
      omega
  omega

end Magnitude

/-! ## Rounding a decimal -/

/-- The limit of the format is half a last place above the largest magnitude. -/
theorem overflow_eq : (2 ^ 1024 - 2 ^ 970 : ℚ) = (2 ^ 54 - 1) * 2 ^ 970 := by
  rw [show (1024 : Nat) = 54 + 970 from rfl, pow_add, sub_mul, one_mul]

theorem lt_overflow {q : ℚ} (h : q < 2 ^ 54 - 1) : q < 2 ^ 1024 - 2 ^ 970 :=
  calc q < (2 ^ 54 - 1) * 1 := by rwa [mul_one]
    _ ≤ (2 ^ 54 - 1) * 2 ^ 970 :=
        mul_le_mul_of_nonneg_left (one_le_pow₀ (by norm_num)) (by norm_num)
    _ = 2 ^ 1024 - 2 ^ 970 := overflow_eq.symm

theorem overflow_le_div_iff {n d : Nat} (hd : 0 < d) :
    (2 ^ 1024 - 2 ^ 970 : ℚ) ≤ (n : ℚ) / d ↔
      (2 ^ 54 - 1) * (d * 2 ^ 2044) ≤ n * Nat.pow 2 1074 := by
  have hd' : (0 : ℚ) < d := by exact_mod_cast hd
  have hunit : (0 : ℚ) < 2 ^ 1074 := by positivity
  have hlimit : (2 ^ 1024 - 2 ^ 970 : ℚ) * d * 2 ^ 1074 =
      ((2 ^ 54 - 1 : Nat) : ℚ) * (d * 2 ^ 2044) := by
    have hcast : ((2 ^ 54 - 1 : Nat) : ℚ) = 2 ^ 54 - 1 := by norm_num
    rw [overflow_eq, hcast, show (2044 : Nat) = 970 + 1074 from rfl, pow_add]
    generalize (2 : ℚ) ^ 970 = a
    generalize (2 : ℚ) ^ 1074 = b
    ring
  rw [le_div_iff₀ hd', ← mul_le_mul_iff_of_pos_right hunit, hlimit, Nat.pow_eq]
  exact_mod_cast Iff.rfl

theorem two_pow_le : (2 : ℚ) ^ 1024 ≤ 10 ^ 310 := by
  have hblock : (2 : ℚ) ^ 93 ≤ 10 ^ 28 := by norm_num
  calc (2 : ℚ) ^ 1024 = (2 ^ 93) ^ 11 * 2 := by rw [← pow_mul, ← pow_succ]
    _ ≤ (10 ^ 28) ^ 11 * 10 ^ 2 := by
        apply mul_le_mul (pow_le_pow_left₀ (by positivity) hblock 11) _ (by norm_num) (by positivity)
        norm_num
    _ = 10 ^ 310 := by rw [← pow_mul, ← pow_add]

namespace ShortestDigits

/-- What is at most half the least magnitude is in the interval of zero. -/
theorem contains_zero {q : ℚ} (hq : 0 ≤ q) (h : q * quarters ≤ 2) :
    (Interval.of .zero).Contains q := by
  have hclosed : (Interval.of .zero).closed = true := by decide
  have hleast : (Interval.of .zero).least = 0 := by decide
  have hmost : (Interval.of .zero).most = 2 := by decide
  rw [Interval.Contains, if_pos hclosed, hleast, hmost]
  push_cast
  exact ⟨mul_nonneg hq (Nat.cast_nonneg _), h⟩

end ShortestDigits

namespace Decimal

theorem value_nonneg (d : Decimal) : 0 ≤ d.value := by
  unfold value
  positivity

/-- A decimal of at most half the least magnitude is nearest to zero and far below the limit. -/
theorem nearest_zero {d : Decimal} (h : d.value * quarters ≤ 2) :
    d.value < 2 ^ 1024 - 2 ^ 970 ∧ Magnitude.zero.Nearest d.value := by
  refine ⟨?_, Magnitude.nearest_of_contains (contains_zero d.value_nonneg h)⟩
  have hone : (1 : ℚ) ≤ quarters := by exact_mod_cast quarters_pos
  apply lt_overflow
  calc d.value ≤ d.value * quarters := le_mul_of_one_le_right d.value_nonneg hone
    _ ≤ 2 := h
    _ < 2 ^ 54 - 1 := by norm_num

/-- **A decimal is rounded to the nearest number**, and to infinity where it is beyond the largest
one by half a last place or more. -/
theorem toBinary64_nearest (d : Decimal) :
    (2 ^ 1024 - 2 ^ 970 ≤ d.value → d.toBinary64 = .infinite d.negative) ∧
      (d.value < 2 ^ 1024 - 2 ^ 970 →
        ∃ m : Magnitude, d.toBinary64 = .finite d.negative m ∧ m.Nearest d.value) := by
  by_cases hdigits : d.digits = 0
  · have hvalue : d.value * quarters ≤ 2 := by
      rw [value, hdigits, Nat.cast_zero, zero_mul, zero_mul]
      norm_num
    obtain ⟨hlt, hnearest⟩ := nearest_zero hvalue
    exact ⟨fun hle => absurd hle (not_le.2 hlt),
      fun _ => ⟨.zero, toBinary64_of_digits_eq_zero hdigits, hnearest⟩⟩
  -- Far below the least magnitude and far above the largest one nothing is divided.
  by_cases hlow : (digitCount d.digits : Int) + d.exponent < -330
  · obtain ⟨hlt, hnearest⟩ := nearest_zero (value_mul_quarters_lt hdigits hlow).le
    have hzero : d.toBinary64 = .finite d.negative .zero := by
      simp only [toBinary64, hlow, decide_true, Bool.or_true, if_true]
    exact ⟨fun hle => absurd hle (not_le.2 hlt), fun _ => ⟨.zero, hzero, hnearest⟩⟩
  by_cases hhigh : (digitCount d.digits : Int) + d.exponent > 310
  · have hinfinite : d.toBinary64 = .infinite d.negative := by
      simp only [toBinary64, hdigits, hlow, hhigh, decide_false, Bool.or_self, if_true,
        Bool.false_eq_true, if_false]
    have hle : (2 : ℚ) ^ 1024 ≤ d.value := two_pow_le.trans (pow_le_value hdigits hhigh)
    have hpos : (0 : ℚ) < 2 ^ 970 := by positivity
    refine ⟨fun _ => hinfinite, fun hlt => absurd hlt (not_lt.2 ?_)⟩
    generalize (2 : ℚ) ^ 970 = a at *
    generalize (2 : ℚ) ^ 1024 = b at *
    linarith
  · rw [toBinary64_eq_ofRatio hdigits (not_lt.1 hlow) (not_lt.1 hhigh), Binary64.ofRatio,
      d.value_eq_ratio, ← not_le, overflow_le_div_iff d.ratio_pos]
    cases hratio : Magnitude.ofRatio? d.ratio.1 d.ratio.2 with
    | none =>
        have hle := Magnitude.le_of_ofRatio?_eq_none d.ratio_pos hratio
        exact ⟨fun _ => rfl, fun hnot => absurd hle hnot⟩
    | some m =>
        have hlt := Magnitude.lt_of_ofRatio?_eq_some d.ratio_pos hratio
        have hcontains := Magnitude.holds_of_ofRatio? d.ratio_pos hratio
        rw [Interval.holds_iff d.ratio_pos] at hcontains
        exact ⟨fun hle => absurd hlt (not_lt.2 hle),
          fun _ => ⟨m, rfl, Magnitude.nearest_of_contains hcontains⟩⟩

end Decimal

/-! ## Numbers with a sign -/

namespace Binary64

/-- A rational with a sign. -/
def signed (negative : Bool) (q : ℚ) : ℚ :=
  if negative then -q else q

/-- A finite number that none is nearer to a rational than, with an even significand if a number of
another value is as near. -/
structure Nearest (negative : Bool) (m : Magnitude) (q : ℚ) : Prop where
  le (sign : Bool) (other : Magnitude) :
    |signed negative m.value - q| ≤ |signed sign other.value - q|
  even (sign : Bool) (other : Magnitude) : signed sign other.value ≠ signed negative m.value →
    |signed sign other.value - q| = |signed negative m.value - q| → m.significand % 2 = 0

end Binary64

theorem Magnitude.value_nonneg (m : Magnitude) : 0 ≤ m.value := by
  unfold value
  positivity

theorem Magnitude.value_zero : Magnitude.zero.value = 0 := by
  simp [value, units, zero]

namespace Binary64

theorem abs_signed_sub (negative : Bool) (p q : ℚ) :
    |signed negative p - signed negative q| = |p - q| := by
  cases negative with
  | true =>
      rw [signed, signed, if_pos rfl, if_pos rfl, neg_sub_neg, abs_sub_comm]
  | false => rfl

theorem abs_signed_sub_of_ne {sign negative : Bool} (h : sign ≠ negative) {p q : ℚ} (hp : 0 ≤ p)
    (hq : 0 ≤ q) : |signed sign p - signed negative q| = p + q := by
  cases negative with
  | true =>
      have hsign : sign = false := by simpa using h
      rw [hsign]
      exact (abs_of_nonneg (by simp [signed]; linarith)).trans (by simp [signed])
  | false =>
      have hsign : sign = true := by simpa using h
      rw [hsign]
      exact (abs_of_nonpos (by simp [signed]; linarith)).trans (by simp [signed]; ring)

/-- **The nearest magnitude is the nearest number** once it has the sign of the rational: numbers of
the other sign are farther away, and zero has the same value with both. -/
theorem nearest_signed {m : Magnitude} {q : ℚ} (h : m.Nearest q) (hq : 0 ≤ q) (negative : Bool) :
    Nearest negative m (signed negative q) where
  le sign other := by
    rw [abs_signed_sub]
    by_cases hsign : sign = negative
    · rw [hsign, abs_signed_sub]
      exact h.le other
    · rw [abs_signed_sub_of_ne hsign other.value_nonneg hq]
      have hzero := h.le .zero
      rw [Magnitude.value_zero, zero_sub, abs_neg, abs_of_nonneg hq] at hzero
      exact hzero.trans (le_add_of_nonneg_left other.value_nonneg)
  even sign other hne htie := by
    rw [abs_signed_sub] at htie
    by_cases hsign : sign = negative
    · rw [hsign, abs_signed_sub] at htie
      refine h.even other ?_ htie
      rintro rfl
      exact hne (by rw [hsign])
    · -- of the numbers of the other sign only zero can be as near
      rw [abs_signed_sub_of_ne hsign other.value_nonneg hq] at htie
      have hzero := h.le .zero
      rw [Magnitude.value_zero, zero_sub, abs_neg, abs_of_nonneg hq] at hzero
      have hother : other.value = 0 := le_antisymm (by linarith) other.value_nonneg
      by_cases hm : Magnitude.zero = m
      · rw [← hm]
        rfl
      · apply h.even .zero hm
        rw [Magnitude.value_zero, zero_sub, abs_neg, abs_of_nonneg hq, ← htie, hother, zero_add]

end Binary64

end IconForge
