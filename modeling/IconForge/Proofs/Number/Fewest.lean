import Mathlib
import IconForge.Proofs.Number.Shortest

set_option autoImplicit false

/-! # The shortest digits are the shortest

The digits that a magnitude is written with are read back as the magnitude, no decimal with fewer
digits is, and none with as many is nearer to it (`isShortest_of`).

What a decimal is read back as is decided by intervals alone (`toBinary64_eq_finite_iff`), and the
interval of a magnitude is convex. So it is enough to look at the multiples of a power of ten: of a
decimal in the interval, or of the power of ten between it and the magnitude, one is found on the
grid that the search looks at (`exists_multiple`), and on a grid the search looks at both neighbours
of the magnitude (`withCount?_spec`). -/

namespace IconForge

-- a number of 1077 bits that only the kernel should look into
attribute [local irreducible] ShortestDigits.quarters

open ShortestDigits

/-! ## What is rounded to a magnitude -/

namespace Magnitude

/-- A rounded quotient that is odd is less than one half away. -/
theorem nearestQuotient_strict {n d : Nat} (hd : 0 < d) (hodd : nearestQuotient n d % 2 = 1) :
    2 * (nearestQuotient n d * d) < 2 * n + d ∧ 2 * n < 2 * (nearestQuotient n d * d) + d := by
  have hdiv : n = n / d * d + n % d := by
    rw [Nat.mul_comm, Nat.div_add_mod]
  have hmod : n % d < d := Nat.mod_lt n hd
  simp only [nearestQuotient] at hodd ⊢
  generalize n / d = q at *
  generalize n % d = r at *
  split at hodd
  · next h =>
    rw [if_pos h]
    simp only [Bool.or_eq_true, Bool.and_eq_true, decide_eq_true_eq] at h
    omega
  · next h =>
    rw [if_neg h, Nat.add_mul, Nat.one_mul]
    simp only [Bool.or_eq_true, Bool.and_eq_true, decide_eq_true_eq, not_or, not_and] at h
    omega

theorem parts_of_ofParts? {significand scale : Nat} {m : Magnitude}
    (h : ofParts? significand scale = some m) : m.significand = significand ∧ m.scale = scale := by
  rw [ofParts?] at h
  split at h
  · cases h
    exact ⟨rfl, rfl⟩
  · cases h

/-- The scale of a quotient leaves it at most 53 bits, and all of them above scale zero. -/
theorem scale_spec {n d s : Nat} (hd : 0 < d) (hs : (n / d).log2 - 52 = s) :
    n < 2 ^ 53 * (d * 2 ^ s) ∧ (s = 0 ∨ 2 ^ 52 * (d * 2 ^ s) ≤ n) := by
  by_cases hq : n / d = 0
  · rw [hq] at hs
    have hlt : n < d := (Nat.div_eq_zero_iff_lt hd).1 hq
    have hpow : 0 < 2 ^ s := Nat.pow_pos (by decide)
    have hle : d * 1 ≤ d * 2 ^ s := Nat.mul_le_mul_left d hpow
    exact ⟨by omega, Or.inl hs.symm⟩
  · refine ⟨(div_lt_scaled hd).1 ((Nat.log2_lt hq).1 (by omega)), ?_⟩
    refine or_iff_not_imp_left.2 fun hpos => ?_
    have hlow : ¬ n / d < 2 ^ (52 + s) := Nat.not_lt.2 ((Nat.le_log2 hq).1 (by omega))
    rwa [div_lt_scaled hd, Nat.not_lt] at hlow

/-- **A ratio that is rounded to a magnitude lies in its interval.** -/
theorem holds_of_ofRatio? {m : Magnitude} {n d : Nat} (hd : 0 < d) (h : ofRatio? n d = some m) :
    (Interval.of m).holds n d := by
  rw [holds_iff_bounds]
  simp only [ofRatio?] at h
  generalize n * Nat.pow 2 1074 = N at *
  simp only [Nat.pow_eq] at h
  -- above scale zero the quotient has all its bits
  obtain ⟨-, hreach⟩ := scale_spec (n := N) hd rfl
  generalize (N / d).log2 - 52 = s at *
  have hDpos : 0 < d * 2 ^ s := Nat.mul_pos hd (Nat.pow_pos (by decide))
  obtain ⟨hlow, hhigh⟩ := nearestQuotient_bounds (n := N) hDpos
  split at h
  · next hfull =>
    obtain ⟨hsignificand, hscale⟩ := parts_of_ofParts? h
    have hbelow : quartersBelow m = 1 := by
      rw [quartersBelow, if_pos]
      simp [hsignificand, hscale]
    rw [hfull] at hlow hhigh
    have hdouble : d * 2 ^ (s + 1) = 2 * (d * 2 ^ s) := by
      rw [pow_succ]
      ring
    rw [hbelow, hsignificand, hscale, hdouble]
    omega
  · obtain ⟨hsignificand, hscale⟩ := parts_of_ofParts? h
    have hstrict := nearestQuotient_strict (n := N) hDpos
    rw [← hsignificand] at hlow hhigh hstrict
    rw [hscale]
    have hbelow : quartersBelow m = 2 ∨
        quartersBelow m = 1 ∧ m.significand = 2 ^ 52 ∧ 2 ^ 52 * (d * 2 ^ s) ≤ N := by
      rw [quartersBelow]
      split
      · next hpower =>
        simp only [Nat.pow_eq, Bool.and_eq_true, decide_eq_true_eq] at hpower
        exact Or.inr ⟨rfl, hpower.1, hreach.resolve_left (by omega)⟩
      · exact Or.inl rfl
    rcases hbelow with hbelow | ⟨hbelow, hpower, hlarge⟩
    · rw [hbelow]
      refine ⟨by omega, by omega, fun hodd => ?_⟩
      have := hstrict hodd
      omega
    · rw [hbelow, hpower]
      rw [hpower] at hhigh
      omega

end Magnitude

namespace Decimal

/-- **A decimal is read back as a magnitude exactly when its value lies in the interval.** -/
theorem toBinary64_eq_finite_iff {m : Magnitude} (hm : m.significand ≠ 0) (d : Decimal) :
    d.toBinary64 = .finite d.negative m ↔ (Interval.of m).Contains d.value := by
  refine ⟨fun h => ?_, toBinary64_of_contains hm⟩
  rw [value_eq_ratio, ← Interval.holds_iff d.ratio_pos]
  refine Magnitude.holds_of_ofRatio? d.ratio_pos ?_
  simp only [toBinary64] at h
  split at h
  · cases h
    exact absurd rfl hm
  · split at h
    · cases h
    · rw [Binary64.ofRatio] at h
      cases hratio : Magnitude.ofRatio? d.ratio.1 d.ratio.2 with
      | none =>
          rw [hratio] at h
          cases h
      | some other =>
          rw [hratio] at h
          cases h
          rfl

end Decimal

/-! ## Values and the order of intervals -/

/-- The number that a magnitude is. -/
def Magnitude.value (m : Magnitude) : ℚ :=
  m.units / 2 ^ 1074

namespace ShortestDigits

theorem value_mul_quarters (m : Magnitude) : m.value * quarters = 4 * m.units := by
  have hquarters : (quarters : ℚ) = 4 * 2 ^ 1074 := by
    simp only [quarters, Nat.pow_eq, Nat.cast_mul, Nat.cast_pow, Nat.cast_ofNat]
  have hpow : (2 : ℚ) ^ 1074 ≠ 0 := pow_ne_zero _ two_ne_zero
  rw [hquarters, Magnitude.value, mul_left_comm, div_mul_cancel₀ _ hpow]

theorem value_eq_div (m : Magnitude) : m.value = ((4 * m.units : Nat) : ℚ) / quarters := by
  have hq : (quarters : ℚ) ≠ 0 := by exact_mod_cast quarters_pos.ne'
  rw [eq_div_iff hq, value_mul_quarters]
  push_cast
  rfl

theorem contains_value {m : Magnitude} (hm : m.significand ≠ 0) :
    (Interval.of m).Contains m.value := by
  apply contains_of_near hm
  have hbelow : 1 ≤ quartersBelow m := by
    rw [quartersBelow]
    split
    · decide
    · decide
  have hpos : 0 < quartersBelow m * 2 ^ m.scale := Nat.mul_pos hbelow (Nat.pow_pos (by decide))
  rw [value_mul_quarters, sub_self, abs_zero]
  exact_mod_cast hpos

/-- An interval is convex. -/
theorem Interval.Contains.between {i : Interval} {p q r : ℚ} (hp : i.Contains p)
    (hr : i.Contains r) (hpq : p ≤ q) (hqr : q ≤ r) : i.Contains q := by
  have hquarters : (0 : ℚ) ≤ quarters := Nat.cast_nonneg _
  have hlow : p * quarters ≤ q * quarters := mul_le_mul_of_nonneg_right hpq hquarters
  have hhigh : q * quarters ≤ r * quarters := mul_le_mul_of_nonneg_right hqr hquarters
  rw [Interval.Contains] at hp hr ⊢
  split
  · next hclosed =>
    rw [if_pos hclosed] at hp hr
    exact ⟨hp.1.trans hlow, hhigh.trans hr.2⟩
  · next hclosed =>
    rw [if_neg hclosed] at hp hr
    exact ⟨hp.1.trans_le hlow, hhigh.trans_lt hr.2⟩

theorem eq_of_contains {m other : Magnitude} (hm : m.significand ≠ 0) {q : ℚ}
    (h : (Interval.of m).Contains q) (h' : (Interval.of other).Contains q) : m = other := by
  have hpos : 0 < q := by
    by_contra hneg
    have hq : (0 : ℚ) ≤ quarters := Nat.cast_nonneg _
    have := mul_nonpos_of_nonpos_of_nonneg (not_lt.1 hneg) hq
    have := (h.bounds hm).1
    linarith
  have hratio : q = ((q.num.toNat : Nat) : ℚ) / q.den := by
    have hnum : ((q.num.toNat : Nat) : ℤ) = q.num := Int.toNat_of_nonneg (Rat.num_pos.2 hpos).le
    rw [← Int.cast_natCast, hnum, Rat.num_div_den]
  rw [hratio, ← Interval.holds_iff q.pos] at h h'
  have hround := Magnitude.ofRatio?_of_holds q.pos h
  rw [Magnitude.ofRatio?_of_holds q.pos h'] at hround
  exact (Option.some.inj hround).symm

theorem lt_of_contains {m other : Magnitude} (hm : m.significand ≠ 0)
    (hother : other.significand ≠ 0) (hlt : m.value < other.value) {q r : ℚ}
    (h : (Interval.of m).Contains q) (h' : (Interval.of other).Contains r) : q < r := by
  by_contra hle
  rw [not_lt] at hle
  -- a rational between both magnitudes would have to be rounded to both of them
  have hcommon : ∃ p, (Interval.of m).Contains p ∧ (Interval.of other).Contains p := by
    rcases le_or_gt q m.value with hq | hq
    · exact ⟨m.value, contains_value hm,
        h'.between (contains_value hother) (hle.trans hq) hlt.le⟩
    · rcases le_or_gt other.value r with hr | hr
      · exact ⟨other.value, (contains_value hm).between h hlt.le (hr.trans hle),
          contains_value hother⟩
      · rcases le_or_gt r m.value with hrm | hrm
        · exact ⟨m.value, contains_value hm,
            h'.between (contains_value hother) hrm hlt.le⟩
        · exact ⟨r, (contains_value hm).between h hrm.le hle, h'⟩
  obtain ⟨p, hp, hp'⟩ := hcommon
  exact hlt.ne (congrArg Magnitude.value (eq_of_contains hm hp hp'))

/-! ## The neighbours on a grid -/

/-- Whether a rational stands on the way from a place to another one. -/
def OnTheWay (place q target : ℚ) : Prop :=
  place ≤ q ∧ q ≤ target ∨ target ≤ q ∧ q ≤ place

theorem OnTheWay.abs_le {place q target : ℚ} (h : OnTheWay place q target) :
    |q - place| ≤ |target - place| := by
  rcases h with ⟨h₁, h₂⟩ | ⟨h₁, h₂⟩
  · rw [abs_of_nonneg (by linarith), abs_of_nonneg (by linarith)]
    linarith
  · rw [abs_of_nonpos (by linarith), abs_of_nonpos (by linarith)]
    linarith

/-- What is on the way from a magnitude into its interval is in the interval. -/
theorem OnTheWay.contains {m : Magnitude} (hm : m.significand ≠ 0) {q target : ℚ}
    (h : OnTheWay m.value q target) (htarget : (Interval.of m).Contains target) :
    (Interval.of m).Contains q := by
  rcases h with ⟨h₁, h₂⟩ | ⟨h₁, h₂⟩
  · exact (contains_value hm).between htarget h₁ h₂
  · exact htarget.between (contains_value hm) h₁ h₂

/-- Two neighbours on a grid with a place between them, the nearer one first. -/
structure Around (place grid : ℚ) (near far : Nat) : Prop where
  near_le (c : Nat) : |near * grid - place| ≤ |c * grid - place|
  onTheWay (c : Nat) :
    OnTheWay place (near * grid) (c * grid) ∨ OnTheWay place (far * grid) (c * grid)
  near_lt : near * grid ≤ place + grid
  far_lt : far * grid ≤ place + grid

/-- Every multiple of a grid stands below the place or above its successor. -/
theorem multiple_cases {place grid : ℚ} (hgrid : 0 < grid) {low : Nat}
    (hlow : low * grid ≤ place) (hhigh : place < (low + 1 : Nat) * grid) (c : Nat) :
    OnTheWay place (low * grid) (c * grid) ∨ OnTheWay place ((low + 1 : Nat) * grid) (c * grid) := by
  rcases Nat.lt_or_ge low c with hc | hc
  · have hle : ((low + 1 : Nat) : ℚ) ≤ c := by exact_mod_cast hc
    exact Or.inr (Or.inl ⟨hhigh.le, mul_le_mul_of_nonneg_right hle hgrid.le⟩)
  · have hle : (c : ℚ) ≤ low := by exact_mod_cast hc
    exact Or.inl (Or.inr ⟨mul_le_mul_of_nonneg_right hle hgrid.le, hlow⟩)

theorem around_of_low {place grid : ℚ} (hgrid : 0 < grid) {low : Nat} (hlow : low * grid ≤ place)
    (hhigh : place < (low + 1 : Nat) * grid) (hnear : 2 * (place - low * grid) ≤ grid) :
    Around place grid low (low + 1) where
  near_le c := by
    have hfar : |(low : ℚ) * grid - place| ≤ |((low + 1 : Nat) : ℚ) * grid - place| := by
      rw [abs_of_nonpos (by linarith), abs_of_pos (by linarith)]
      push_cast
      linarith
    rcases multiple_cases hgrid hlow hhigh c with h | h
    · exact h.abs_le
    · exact hfar.trans h.abs_le
  onTheWay := multiple_cases hgrid hlow hhigh
  near_lt := by linarith
  far_lt := by
    push_cast
    linarith

theorem around_of_high {place grid : ℚ} (hgrid : 0 < grid) {low : Nat} (hlow : low * grid ≤ place)
    (hhigh : place < (low + 1 : Nat) * grid) (hnear : grid ≤ 2 * (place - low * grid)) :
    Around place grid (low + 1) low where
  near_le c := by
    have hfar : |((low + 1 : Nat) : ℚ) * grid - place| ≤ |(low : ℚ) * grid - place| := by
      rw [abs_of_pos (by linarith), abs_of_nonpos (by linarith)]
      push_cast
      linarith
    rcases multiple_cases hgrid hlow hhigh c with h | h
    · exact hfar.trans h.abs_le
    · exact h.abs_le
  onTheWay c := (multiple_cases hgrid hlow hhigh c).symm
  near_lt := by
    push_cast
    linarith
  far_lt := by linarith

/-- A multiple in the interval of a magnitude to which none in the interval is nearer. -/
structure Best (m : Magnitude) (grid : ℚ) (c : Nat) : Prop where
  contains : (Interval.of m).Contains (c * grid)
  nearest (other : Nat) : (Interval.of m).Contains (other * grid) →
    |c * grid - m.value| ≤ |other * grid - m.value|
  le : c * grid ≤ m.value + grid

/-- A place on a grid compares with the multiples of the grid as a ratio with whole numbers. -/
theorem ratio_compare {place grid : ℚ} {n d : Nat} (hgrid : 0 < grid) (hd : 0 < d)
    (hplace : place * d = n * grid) (x y : Nat) :
    (x * grid ≤ y * place ↔ x * d ≤ y * n) ∧ (y * place ≤ x * grid ↔ y * n ≤ x * d) := by
  have hdPos : (0 : ℚ) < d := by exact_mod_cast hd
  have hmultiple : (x : ℚ) * grid * d = x * d * grid := mul_right_comm _ _ _
  have hratio : (y : ℚ) * place * d = y * n * grid := by
    rw [mul_assoc, hplace, mul_assoc]
  constructor
  · rw [← mul_le_mul_iff_of_pos_right hdPos, hmultiple, hratio, mul_le_mul_iff_of_pos_right hgrid]
    exact_mod_cast Iff.rfl
  · rw [← mul_le_mul_iff_of_pos_right hdPos, hmultiple, hratio, mul_le_mul_iff_of_pos_right hgrid]
    exact_mod_cast Iff.rfl

/-- The ratio that the search divides is that of the magnitude to the grid. -/
theorem value_mul_down (m : Magnitude) (point : Int) (count : Nat) {up down : Nat}
    (hup : up = 10 ^ ((count : Int) - point).toNat)
    (hdown : down = 10 ^ (point - (count : Int)).toNat) :
    m.value * (quarters * down : Nat) = (4 * m.units * up : Nat) * 10 ^ (point - count) := by
  have hgrid : (down : ℚ) / up = 10 ^ (point - count) := by
    rw [hup, hdown]
    exact grid_eq point count
  have hupNe : (up : ℚ) ≠ 0 := by
    rw [hup]
    positivity
  rw [← hgrid]
  push_cast
  rw [← mul_assoc, value_mul_quarters]
  field_simp

/-- The two candidates of the search are the neighbours of the magnitude on the grid. -/
theorem around_candidates (m : Magnitude) (point : Int) (count : Nat) {low up down n d : Nat}
    (hup : up = 10 ^ ((count : Int) - point).toNat)
    (hdown : down = 10 ^ (point - (count : Int)).toNat)
    (hn : n = 4 * m.units * up) (hd : d = quarters * down) (hlow : low = n / d) :
    (decide (2 * (n % d) < d) || decide (2 * (n % d) = d) && decide (low % 2 = 0)) = true ∧
        Around m.value (10 ^ (point - count)) low (low + 1) ∨
      (decide (2 * (n % d) < d) || decide (2 * (n % d) = d) && decide (low % 2 = 0)) = false ∧
        Around m.value (10 ^ (point - count)) (low + 1) low := by
  have hgrid : (0 : ℚ) < 10 ^ (point - count) := by positivity
  have hdPos : 0 < d := hd ▸ Nat.mul_pos quarters_pos (hdown ▸ Nat.pow_pos (by decide))
  have hplace : m.value * d = n * 10 ^ (point - count) := by
    rw [hn, hd]
    exact value_mul_down m point count hup hdown
  have hcompare := ratio_compare hgrid hdPos hplace
  have hdiv : low * d + n % d = n := by
    rw [hlow, Nat.mul_comm, Nat.div_add_mod]
  have hmod : n % d < d := Nat.mod_lt n hdPos
  have hlowLe : (low : ℚ) * 10 ^ (point - count) ≤ m.value := by
    have := (hcompare low 1).1.2 (by omega)
    rwa [Nat.cast_one, one_mul] at this
  have hhigh : m.value < ((low + 1 : Nat) : ℚ) * 10 ^ (point - count) := by
    rw [← not_le]
    intro hcontra
    have := (hcompare (low + 1) 1).1.1 (by rwa [Nat.cast_one, one_mul])
    rw [Nat.add_mul] at this
    omega
  cases hcond : (decide (2 * (n % d) < d) || decide (2 * (n % d) = d) && decide (low % 2 = 0)) with
  | true =>
      refine Or.inl ⟨rfl, around_of_low hgrid hlowLe hhigh ?_⟩
      simp only [Bool.or_eq_true, Bool.and_eq_true, decide_eq_true_eq] at hcond
      have := (hcompare (2 * low + 1) 2).2.2 (by
        rw [Nat.add_mul, Nat.mul_assoc]
        omega)
      push_cast at this
      linarith
  | false =>
      refine Or.inr ⟨rfl, around_of_high hgrid hlowLe hhigh ?_⟩
      simp only [Bool.or_eq_false_iff, Bool.and_eq_false_iff, decide_eq_false_iff_not] at hcond
      have := (hcompare (2 * low + 1) 2).1.2 (by
        rw [Nat.add_mul, Nat.mul_assoc]
        omega)
      push_cast at this
      linarith

theorem holds_multiple {m : Magnitude} (point : Int) (count c : Nat) :
    (Interval.of m).holds (c * 10 ^ (point - (count : Int)).toNat)
        (10 ^ ((count : Int) - point).toNat) ↔
      (Interval.of m).Contains (c * 10 ^ (point - count)) := by
  rw [Interval.holds_iff (Nat.pow_pos (by decide)), ← grid_eq, ← mul_div_assoc, ← Nat.cast_mul]

/-- Of two neighbours around a magnitude the near one is the best multiple if it is in the
interval, else the far one. -/
theorem best_of_around {m : Magnitude} (hm : m.significand ≠ 0) {grid : ℚ} {near far : Nat}
    (h : Around m.value grid near far) :
    ((Interval.of m).Contains (near * grid) → Best m grid near) ∧
      (¬ (Interval.of m).Contains (near * grid) →
        ((Interval.of m).Contains (far * grid) → Best m grid far) ∧
        (¬ (Interval.of m).Contains (far * grid) →
          ∀ c : Nat, ¬ (Interval.of m).Contains (c * grid))) := by
  refine ⟨fun hnear => ⟨hnear, fun c _ => h.near_le c, h.near_lt⟩, fun hnear => ⟨?_, ?_⟩⟩
  · refine fun hfar => ⟨hfar, fun c hc => ?_, h.far_lt⟩
    rcases h.onTheWay c with hway | hway
    · exact absurd (hway.contains hm hc) hnear
    · exact hway.abs_le
  · intro hfar c hc
    rcases h.onTheWay c with hway | hway
    · exact hnear (hway.contains hm hc)
    · exact hfar (hway.contains hm hc)

/-- **The search on a grid finds the best multiple**, if the interval has any. -/
theorem withCount?_spec {m : Magnitude} (hm : m.significand ≠ 0) (point : Int) (count : Nat) :
    (∃ c, withCount? m point count = some (ofCandidate c point count) ∧
        Best m (10 ^ (point - count)) c) ∨
      withCount? m point count = none ∧
        ∀ c : Nat, ¬ (Interval.of m).Contains (c * 10 ^ (point - count)) := by
  have hsearch : ∃ near far, Around m.value (10 ^ (point - count)) near far ∧
      withCount? m point count =
        if (Interval.of m).holds (near * 10 ^ (point - (count : Int)).toNat)
            (10 ^ ((count : Int) - point).toNat) then some (ofCandidate near point count)
        else if (Interval.of m).holds (far * 10 ^ (point - (count : Int)).toNat)
            (10 ^ ((count : Int) - point).toNat) then some (ofCandidate far point count)
        else none := by
    rcases around_candidates m point count rfl rfl rfl rfl rfl with
      ⟨hcond, haround⟩ | ⟨hcond, haround⟩
    · refine ⟨_, _, haround, ?_⟩
      simp only [withCount?, Nat.pow_eq, hcond, if_true]
    · refine ⟨_, _, haround, ?_⟩
      simp only [withCount?, Nat.pow_eq, hcond, Bool.false_eq_true, if_false,
        Nat.succ_ne_self]
  obtain ⟨near, far, haround, hsearch⟩ := hsearch
  obtain ⟨hbest, hnext⟩ := best_of_around hm haround
  rw [hsearch]
  by_cases hnear : (Interval.of m).Contains (near * 10 ^ (point - count))
  · exact Or.inl ⟨near, if_pos ((holds_multiple point count near).2 hnear), hbest hnear⟩
  · rw [if_neg (fun h => hnear ((holds_multiple point count near).1 h))]
    by_cases hfar : (Interval.of m).Contains (far * 10 ^ (point - count))
    · exact Or.inl ⟨far, if_pos ((holds_multiple point count far).2 hfar), (hnext hnear).1 hfar⟩
    · exact Or.inr ⟨if_neg (fun h => hfar ((holds_multiple point count far).1 h)),
        (hnext hnear).2 hfar⟩

/-! ## The search over all counts of digits -/

theorem lt_pow_pointOf {n d : Nat} (hn : 0 < n) (hd : 0 < d) :
    (n : ℚ) / d < (10 : ℚ) ^ pointOf n d := by
  have hd' : (0 : ℚ) < d := by exact_mod_cast hd
  rw [pointOf, div_lt_iff₀ hd']
  by_cases h : d ≤ n
  · rw [if_pos h, zpow_natCast]
    have hlt := (Nat.div_lt_iff_lt_mul hd).1 (Decimal.lt_pow_digitCount (n / d))
    exact_mod_cast hlt
  · have hq : (d - 1) / n ≠ 0 := (Nat.div_pos (by omega) hn).ne'
    have hpos := Decimal.digitCount_pos hq
    have hle : 10 ^ (Decimal.digitCount ((d - 1) / n) - 1) * n ≤ d - 1 :=
      (Nat.le_div_iff_mul_le hn).1 (Decimal.pow_digitCount_le hq)
    have hexp : 1 - (Decimal.digitCount ((d - 1) / n) : Int) =
        -((Decimal.digitCount ((d - 1) / n) - 1 : Nat) : Int) := by omega
    rw [if_neg h, hexp, zpow_neg, zpow_natCast, lt_inv_mul_iff₀ (by positivity)]
    have hlt : 10 ^ (Decimal.digitCount ((d - 1) / n) - 1) * n < d := by omega
    exact_mod_cast hlt

/-- Where the point of a magnitude stands. -/
def placeOf (m : Magnitude) : Int :=
  pointOf (4 * m.units) quarters

theorem placeOf_bounds {m : Magnitude} (hm : m.significand ≠ 0) :
    (10 : ℚ) ^ (placeOf m - 1) ≤ m.value ∧ m.value < (10 : ℚ) ^ placeOf m := by
  have hunits : 0 < 4 * m.units := lt_of_le_of_lt (Nat.zero_le _) (least_of hm).2
  rw [value_eq_div]
  exact ⟨pointOf_bounds hunits quarters_pos, lt_pow_pointOf hunits quarters_pos⟩

/-- The search ends with the first count of digits that the interval has a multiple for. -/
theorem of_eq {m : Magnitude} (hm : m.significand ≠ 0) :
    ∃ count c, 0 < count ∧ ShortestDigits.of m = ofCandidate c (placeOf m) count ∧
      Best m (10 ^ (placeOf m - count)) c ∧
      ∀ fewer : Nat, 0 < fewer → fewer < count →
        ∀ c : Nat, ¬ (Interval.of m).Contains (c * 10 ^ (placeOf m - fewer)) := by
  have hsome : ((List.range 17).findSome? fun i => withCount? m (placeOf m) (i + 1)).isSome := by
    rw [List.isSome_findSome?]
    exact List.any_eq_true.2 ⟨16, by simp, withCount?_seventeen hm⟩
  obtain ⟨s, hs⟩ := Option.isSome_iff_exists.1 hsome
  have hof : ShortestDigits.of m = s := by
    rw [ShortestDigits.of]
    simp only [placeOf] at hs
    simp only [hs]
  obtain ⟨front, i, back, hrange, hi, hfront⟩ := List.findSome?_eq_some_iff.1 hs
  rcases withCount?_spec hm (placeOf m) (i + 1) with ⟨c, hc, hbest⟩ | ⟨hnone, -⟩
  · refine ⟨i + 1, c, Nat.succ_pos i, ?_, hbest, ?_⟩
    · rw [hof]
      exact Option.some.inj (hi.symm.trans hc)
    · intro fewer hpos hfewer
      -- The counts are tried in order, so the fewer digits were tried before.
      have hmem : fewer - 1 ∈ front := by
        have hmemRange : fewer - 1 ∈ List.range 17 := by
          have : i ∈ List.range 17 := by simp [hrange]
          rw [List.mem_range] at this ⊢
          omega
        have hsorted := List.pairwise_lt_range (n := 17)
        rw [hrange, List.pairwise_append] at hsorted
        have hback := (List.pairwise_cons.1 hsorted.2.1).1
        rw [hrange, List.mem_append, List.mem_cons] at hmemRange
        rcases hmemRange with h | h | h
        · exact h
        · omega
        · have := hback _ h
          omega
      have hnone := hfront _ hmem
      rw [Nat.sub_add_cancel hpos] at hnone
      rcases withCount?_spec hm (placeOf m) fewer with ⟨c, hc, -⟩ | ⟨-, hno⟩
      · rw [hnone] at hc
        cases hc
      · exact hno
  · rw [hi] at hnone
    cases hnone

theorem digits_ne_zero_of_contains {m : Magnitude} (hm : m.significand ≠ 0) {d : Decimal}
    (hd : (Interval.of m).Contains d.value) : d.digits ≠ 0 := by
  intro hzero
  have hleast := (hd.bounds hm).1
  rw [Decimal.value, hzero, Nat.cast_zero, zero_mul, zero_mul] at hleast
  exact absurd hleast (by norm_num)

/-- For a decimal in the interval there is a multiple in the interval that is as near, on the grid
of any count of digits that is not less than that of the decimal. -/
theorem exists_multiple {m : Magnitude} (hm : m.significand ≠ 0) {d : Decimal}
    (hd : (Interval.of m).Contains d.value) {count : Nat}
    (hcount : Decimal.digitCount d.digits ≤ count) :
    ∃ c : Nat, (Interval.of m).Contains (c * 10 ^ (placeOf m - count)) ∧
      |(c : ℚ) * 10 ^ (placeOf m - count) - m.value| ≤ |d.value - m.value| := by
  have hdigits := digits_ne_zero_of_contains hm hd
  have hpos := Decimal.digitCount_pos hdigits
  obtain ⟨hlow, hhigh⟩ := Decimal.value_bounds hdigits
  rcases Int.lt_or_le ((Decimal.digitCount d.digits : Int) + d.exponent) (placeOf m) with h | h
  · -- the power of ten below the magnitude stands between the decimal and the magnitude
    have hpower : OnTheWay m.value (10 ^ (placeOf m - 1)) d.value := by
      refine Or.inr ⟨hhigh.le.trans (zpow_le_zpow_right₀ (by norm_num) (by omega)), ?_⟩
      exact (placeOf_bounds hm).1
    have hmultiple : ((10 ^ (count - 1) : Nat) : ℚ) * 10 ^ (placeOf m - count) =
        10 ^ (placeOf m - 1) := by
      have hexp : placeOf m - 1 = ((count - 1 : Nat) : Int) + (placeOf m - count) := by omega
      rw [hexp, zpow_add₀ (by norm_num), zpow_natCast]
      push_cast
      rfl
    exact ⟨10 ^ (count - 1), hmultiple ▸ hpower.contains hm hd, hmultiple ▸ hpower.abs_le⟩
  · obtain ⟨shift, hshift⟩ : ∃ shift : Nat, d.exponent = shift + (placeOf m - count) :=
      ⟨(d.exponent - (placeOf m - count)).toNat, by omega⟩
    have hmultiple : ((d.digits * 10 ^ shift : Nat) : ℚ) * 10 ^ (placeOf m - count) = d.value := by
      rw [Decimal.value, hshift, zpow_add₀ (by norm_num), zpow_natCast]
      push_cast
      ring
    exact ⟨d.digits * 10 ^ shift, hmultiple ▸ hd, hmultiple ▸ le_rfl⟩

/-- What digits have to be to write a magnitude: they read back as the magnitude whatever the sign
and the spelling, and of all decimals that do, none has fewer digits and none with as many is
nearer. -/
structure IsShortest (m : Magnitude) (s : ShortestDigits) : Prop where
  readBack (d : Decimal) : d.value = s.value → d.toBinary64 = .finite d.negative m
  fewest (d : Decimal) : d.toBinary64 = .finite d.negative m →
    Decimal.digitCount s.digits ≤ Decimal.digitCount d.digits
  nearest (d : Decimal) : d.toBinary64 = .finite d.negative m →
    Decimal.digitCount d.digits = Decimal.digitCount s.digits →
      |s.value - m.value| ≤ |d.value - m.value|
  /-- The last digit is not zero. -/
  last : s.digits % 10 ≠ 0

theorem dropZeros_mod {n : Nat} (h : n ≠ 0) : dropZeros n % 10 ≠ 0 := by
  induction n using dropZeros.induct with
  | case1 => exact absurd rfl h
  | case2 n hn hmod ih =>
      rw [dropZeros, if_neg hn, if_pos hmod]
      exact ih (by omega)
  | case3 n hn hmod =>
      rw [dropZeros, if_neg hn, if_neg hmod]
      exact hmod

theorem digitCount_ofCandidate_le {m : Magnitude} (hm : m.significand ≠ 0) {count c : Nat}
    (hcount : 0 < count) (hc : c ≠ 0) (h : c * 10 ^ (placeOf m - count) ≤ m.value +
      10 ^ (placeOf m - count)) :
    Decimal.digitCount (ofCandidate c (placeOf m) count).digits ≤ count := by
  have hgrid : (0 : ℚ) < 10 ^ (placeOf m - count) := by positivity
  have hle : c ≤ 10 ^ count := by
    have hplace : (10 : ℚ) ^ placeOf m = (10 ^ count : Nat) * 10 ^ (placeOf m - count) := by
      have hexp : placeOf m = (count : Int) + (placeOf m - count) := by omega
      rw [Nat.cast_pow, Nat.cast_ofNat, ← zpow_natCast, ← zpow_add₀ (by norm_num), ← hexp]
    have hlt : (c : ℚ) * 10 ^ (placeOf m - count) <
        ((10 ^ count + 1 : Nat) : ℚ) * 10 ^ (placeOf m - count) := by
      rw [Nat.cast_add, Nat.cast_one, add_mul, one_mul, ← hplace]
      exact h.trans_lt (by linarith [(placeOf_bounds hm).2])
    have := lt_of_mul_lt_mul_right hlt hgrid.le
    exact Nat.lt_succ_iff.1 (by exact_mod_cast this)
  obtain ⟨k, hvalue, hdigits, -⟩ := dropZeros_spec hc
  have hpow := Decimal.pow_digitCount_le hc
  rcases hle.lt_or_eq with hlt | heq
  · have := (Nat.pow_lt_pow_iff_right (by decide)).1 (hpow.trans_lt hlt)
    simp only [ofCandidate]
    omega
  · -- a power of ten loses at least one zero
    have hk : k ≠ 0 := by
      rintro rfl
      have hmod := dropZeros_mod hc
      rw [pow_zero, Nat.mul_one] at hvalue
      rw [hvalue, heq] at hmod
      exact hmod (Nat.mod_eq_zero_of_dvd (dvd_pow_self 10 hcount.ne'))
    have := (Nat.pow_le_pow_iff_right (by decide)).1 (hpow.trans hle)
    simp only [ofCandidate]
    omega

/-- **The digits that a magnitude is written with are the shortest.** -/
theorem isShortest_of {m : Magnitude} (hm : m.significand ≠ 0) :
    IsShortest m (ShortestDigits.of m) := by
  obtain ⟨count, c, hcountPos, hof, hbest, hfewer⟩ := of_eq hm
  have hc : c ≠ 0 := by
    rintro rfl
    have := (hbest.contains.bounds hm).1
    rw [Nat.cast_zero, zero_mul, zero_mul] at this
    exact absurd this (by norm_num)
  have hvalue : (ShortestDigits.of m).value = c * 10 ^ (placeOf m - count) := by
    rw [hof, value_ofCandidate hc]
  have hlength : Decimal.digitCount (ShortestDigits.of m).digits ≤ count := by
    rw [hof]
    exact digitCount_ofCandidate_le hm hcountPos hc hbest.le
  refine ⟨fun d hd => ?_, fun d hd => ?_, fun d hd hsame => ?_, ?_⟩
  · exact Decimal.toBinary64_of_contains hm (hd ▸ (contains_of hm).2)
  · rw [Decimal.toBinary64_eq_finite_iff hm] at hd
    obtain ⟨other, hother, -⟩ := exists_multiple hm hd (Nat.le_refl _)
    refine hlength.trans (not_lt.1 fun hlt => ?_)
    exact hfewer _ (Decimal.digitCount_pos (digits_ne_zero_of_contains hm hd)) hlt other hother
  · rw [Decimal.toBinary64_eq_finite_iff hm] at hd
    obtain ⟨other, hother, hle⟩ := exists_multiple hm hd (hsame ▸ hlength)
    rw [hvalue]
    exact (hbest.nearest other hother).trans hle
  · rw [hof]
    exact dropZeros_mod hc

end ShortestDigits

end IconForge
