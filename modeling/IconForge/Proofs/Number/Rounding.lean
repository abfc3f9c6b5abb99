import Mathlib
import IconForge.Proofs.Number.Digits

set_option autoImplicit false

/-! # Rounding to binary64

A magnitude attracts the ratios of its interval: every ratio that lies in the interval of a
magnitude is rounded to that magnitude (`ofRatio?_of_holds`). Since the interval is a set of
rationals, what counts is the value of a decimal and not how it is spelled
(`toBinary64_of_contains`). -/

namespace IconForge

/-! ## The nearest quotient -/

namespace Magnitude

/-- A quotient is rounded to the integer that is at most one half away, in a tie to the even
one. -/
theorem nearestQuotient_eq {n d k : Nat} (hd : 0 < d) (hlow : 2 * (k * d) ≤ 2 * n + d)
    (hhigh : 2 * n ≤ 2 * (k * d) + d)
    (htie : k % 2 = 1 → 2 * (k * d) < 2 * n + d ∧ 2 * n < 2 * (k * d) + d) :
    nearestQuotient n d = k := by
  have hdiv : n = n / d * d + n % d := by
    rw [Nat.mul_comm, Nat.div_add_mod]
  have hmod : n % d < d := Nat.mod_lt n hd
  unfold nearestQuotient
  generalize n / d = q at *
  generalize n % d = r at *
  -- the integer is the quotient or the next one
  have hk : k = q ∨ k = q + 1 := by
    have h₁ : k < q + 2 := by
      by_contra h
      have : (q + 2) * d ≤ k * d := Nat.mul_le_mul_right d (by omega)
      rw [Nat.add_mul] at this
      omega
    have h₂ : q < k + 1 := by
      by_contra h
      have : (k + 1) * d ≤ q * d := Nat.mul_le_mul_right d (by omega)
      rw [Nat.add_mul] at this
      omega
    omega
  rcases hk with rfl | rfl
  · rw [if_pos]
    by_cases hlt : 2 * r < d
    · simp [hlt]
    · have heven : k % 2 = 0 := by
        by_contra hodd
        have := htie (by omega)
        omega
      have hr : 2 * r = d := by omega
      simp [hr, heven]
  · rw [if_neg]
    rw [Nat.add_mul, Nat.one_mul] at hlow hhigh htie
    by_cases hr : 2 * r = d
    · have hodd : q % 2 = 1 := by
        by_contra heven
        have := htie (by omega)
        omega
      simp [hr, hodd]
    · have : d < 2 * r := by omega
      simp [hr, Nat.le_of_lt this]

theorem ofParts?_eq (m : Magnitude) : ofParts? m.significand m.scale = some m := by
  rw [ofParts?, dif_pos ⟨m.significand_lt, m.scale_le, m.normal⟩]

end Magnitude

/-! ## The interval of a magnitude -/

namespace ShortestDigits

/-- How far the interval of a magnitude reaches down, in quarters of the last place: below a power
of two the neighbour is nearer. -/
def quartersBelow (m : Magnitude) : Nat :=
  if m.significand = Nat.pow 2 52 && 0 < m.scale then 1 else 2

theorem quartersBelow_le (m : Magnitude) : quartersBelow m ≤ 2 := by
  rw [quartersBelow]
  split
  · decide
  · decide

/-- The two bounds of a ratio in the interval of a magnitude, over the denominator of the ratio
times the last place of the magnitude. -/
theorem holds_iff_bounds (m : Magnitude) (n d : Nat) :
    (Interval.of m).holds n d ↔
      4 * (m.significand * (d * 2 ^ m.scale)) ≤
          4 * (n * Nat.pow 2 1074) + quartersBelow m * (d * 2 ^ m.scale) ∧
        4 * (n * Nat.pow 2 1074) ≤
          4 * (m.significand * (d * 2 ^ m.scale)) + 2 * (d * 2 ^ m.scale) ∧
        (m.significand % 2 = 1 →
          4 * (m.significand * (d * 2 ^ m.scale)) <
              4 * (n * Nat.pow 2 1074) + quartersBelow m * (d * 2 ^ m.scale) ∧
            4 * (n * Nat.pow 2 1074) <
              4 * (m.significand * (d * 2 ^ m.scale)) + 2 * (d * 2 ^ m.scale)) := by
  have hleast : (Interval.of m).least * d =
      4 * (m.significand * (d * 2 ^ m.scale)) - quartersBelow m * (d * 2 ^ m.scale) := by
    simp only [Interval.of, Magnitude.units, Nat.pow_eq, quartersBelow, Nat.sub_mul]
    congr 1
    · ring
    · ring
  have hmost : (Interval.of m).most * d =
      4 * (m.significand * (d * 2 ^ m.scale)) + 2 * (d * 2 ^ m.scale) := by
    simp only [Interval.of, Magnitude.units, Nat.pow_eq]
    ring
  have hn : n * quarters = 4 * (n * Nat.pow 2 1074) := by
    unfold quarters
    exact Nat.mul_left_comm n 4 (Nat.pow 2 1074)
  simp only [Interval.holds, hleast, hmost, hn]
  generalize n * Nat.pow 2 1074 = N at *
  by_cases hclosed : (Interval.of m).closed
  · rw [if_pos hclosed, Bool.and_eq_true, decide_eq_true_eq, decide_eq_true_eq]
    have heven : m.significand % 2 = 0 := by
      simpa [Interval.of] using hclosed
    constructor
    · exact fun h => ⟨by omega, h.2, fun hodd => by omega⟩
    · exact fun h => ⟨by omega, h.2.1⟩
  · rw [if_neg hclosed, Bool.and_eq_true, decide_eq_true_eq, decide_eq_true_eq]
    have hodd : m.significand % 2 = 1 := by
      have : ¬ m.significand % 2 = 0 := by simpa [Interval.of] using hclosed
      omega
    constructor
    · exact fun h => ⟨by omega, by omega, fun _ => ⟨by omega, h.2⟩⟩
    · intro h
      have hstrict := h.2.2 hodd
      have hbelow : quartersBelow m * (d * 2 ^ m.scale) ≤ 2 * (d * 2 ^ m.scale) :=
        Nat.mul_le_mul_right _ (quartersBelow_le m)
      have hone : 1 * (d * 2 ^ m.scale) ≤ m.significand * (d * 2 ^ m.scale) :=
        Nat.mul_le_mul_right _ (by omega)
      omega

end ShortestDigits

namespace Magnitude

open ShortestDigits

theorem scale_eq {q s : Nat} (hlow : s = 0 ∨ 2 ^ (52 + s) ≤ q) (hhigh : q < 2 ^ (53 + s)) :
    q.log2 - 52 = s := by
  by_cases hq : q = 0
  · rcases hlow with rfl | hlow
    · subst hq; rfl
    · have : 0 < 2 ^ (52 + s) := Nat.pow_pos (by decide)
      omega
  · have h₁ : q.log2 < 53 + s := (Nat.log2_lt hq).2 hhigh
    rcases hlow with rfl | hlow
    · omega
    · have h₂ : 52 + s ≤ q.log2 := (Nat.le_log2 hq).2 hlow
      omega

/-- A quotient has at most so many bits above a scale. -/
theorem div_lt_scaled {n d bits s : Nat} (hd : 0 < d) :
    n / d < 2 ^ (bits + s) ↔ n < 2 ^ bits * (d * 2 ^ s) := by
  rw [Nat.div_lt_iff_lt_mul hd, pow_add, Nat.mul_assoc, Nat.mul_comm (2 ^ s)]

/-- Only the least significand of a scale is reached from the scale below it, and from less than
half of its last place there. -/
theorem quarters_of_short {m : Magnitude} {n d : Nat} (hscale : m.scale ≠ 0)
    (hlow : 4 * (m.significand * (d * 2 ^ m.scale)) ≤
      4 * n + quartersBelow m * (d * 2 ^ m.scale))
    (hshort : n < 2 ^ 52 * (d * 2 ^ m.scale)) :
    m.significand = 2 ^ 52 ∧ quartersBelow m = 1 := by
  have hnormal : 2 ^ 52 ≤ m.significand := by
    simpa only [Nat.pow_eq] using m.normal.resolve_left hscale
  have hbelow : quartersBelow m * (d * 2 ^ m.scale) ≤ 2 * (d * 2 ^ m.scale) :=
    Nat.mul_le_mul_right _ (quartersBelow_le m)
  have hpower : m.significand = 2 ^ 52 := by
    by_contra hne
    have : (2 ^ 52 + 1) * (d * 2 ^ m.scale) ≤ m.significand * (d * 2 ^ m.scale) :=
      Nat.mul_le_mul_right _ (by omega)
    rw [Nat.add_mul, Nat.one_mul] at this
    omega
  refine ⟨hpower, ?_⟩
  rw [quartersBelow, if_pos]
  simp [hpower, Nat.pos_of_ne_zero hscale]

/-- **Every ratio in the interval of a magnitude is rounded to it.** -/
theorem ofRatio?_of_holds {m : Magnitude} {n d : Nat} (hd : 0 < d)
    (h : (Interval.of m).holds n d) : ofRatio? n d = some m := by
  obtain ⟨hlow, hhigh, htie⟩ := (holds_iff_bounds m n d).1 h
  have hsig : m.significand < 2 ^ 53 := by simpa only [Nat.pow_eq] using m.significand_lt
  simp only [ofRatio?]
  generalize n * Nat.pow 2 1074 = N at *
  simp only [Nat.pow_eq]
  set D := d * 2 ^ m.scale with hD
  have hDpos : 0 < D := Nat.mul_pos hd (Nat.pow_pos (by decide))
  have hbelow : quartersBelow m * D ≤ 2 * D := Nat.mul_le_mul_right D (quartersBelow_le m)
  have hquotient : N / d < 2 ^ (53 + m.scale) := by
    rw [div_lt_scaled hd, ← hD]
    have : (m.significand + 1) * D ≤ 2 ^ 53 * D := Nat.mul_le_mul_right D hsig
    rw [Nat.add_mul, Nat.one_mul] at this
    omega
  by_cases hreach : m.scale = 0 ∨ 2 ^ (52 + m.scale) ≤ N / d
  · rw [scale_eq hreach hquotient, ← hD]
    have hnearest : nearestQuotient N D = m.significand :=
      nearestQuotient_eq hDpos (by omega) (by omega) (fun hodd => by
        have := htie hodd
        omega)
    rw [hnearest, if_neg (by omega)]
    exact ofParts?_eq m
  · -- just below a power of two, the significand is rounded up to the next scale
    obtain ⟨hscale, hshort⟩ := not_or.1 hreach
    rw [Nat.not_le, div_lt_scaled hd, ← hD] at hshort
    obtain ⟨hpower, hquarters⟩ := quarters_of_short hscale hlow hshort
    rw [hquarters, hpower, Nat.one_mul] at hlow
    obtain ⟨s, hs⟩ := Nat.exists_eq_add_one_of_ne_zero hscale
    have hDhalf : D = 2 * (d * 2 ^ s) := by
      rw [hD, hs, pow_succ]
      ring
    have hscaleEq : (N / d).log2 - 52 = s := by
      apply scale_eq
      · right
        rw [← Nat.not_lt, div_lt_scaled hd]
        omega
      · rw [div_lt_scaled hd]
        omega
    have hnearest : nearestQuotient N (d * 2 ^ s) = 2 ^ 53 :=
      nearestQuotient_eq (by omega) (by omega) (by omega) (fun hodd => by omega)
    rw [hscaleEq, hnearest, if_pos rfl, ← hpower, ← hs]
    exact ofParts?_eq m

end Magnitude

end IconForge
