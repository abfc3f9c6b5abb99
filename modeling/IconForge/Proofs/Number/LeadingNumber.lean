import Mathlib
import IconForge.Proofs.Number.Grammar
import IconForge.Proofs.Number.Nearest
import IconForge.Proofs.Text.Characters

set_option autoImplicit false

/-! # The number at the front of a text

The number that a text begins with is the value of the longest numeral behind its blanks, rounded to
the nearest binary64 number; a text without a numeral there has none, nor has one whose numeral is
too large for the format (`leadingNumber_longest`).

The grammar gives the numeral, and rounding is by value: the decimal that the reader makes of a
numeral has the numeral's value (`abs_value`), though it counts the digits on both sides of the
point as one number. That the numeral alone reads as the same number, with nothing to go wrong, is
`number?_text`: no character of it is padding or stands for grouping. -/

namespace IconForge.Numeral

open Text Binary64

/-! ## The value of a numeral -/

/-- The number that digits of any script stand for by their places. -/
def placeValue : List Char → Nat
  | [] => 0
  | c :: cs => (digitValue? c).getD 0 * 10 ^ cs.length + placeValue cs

theorem digitsValue_eq_placeValue (cs : List Char) : digitsValue cs = placeValue cs := by
  induction cs with
  | nil => rfl
  | cons c cs ih =>
      rw [placeValue, ← ih, ← List.singleton_append, digitsValue_append]
      simp [digitsValue]

/-- The power of ten that an exponent stands for. -/
def Exponent.power (e : Exponent) : ℚ :=
  if e.sign = some true then 1 / 10 ^ placeValue e.digits else 10 ^ placeValue e.digits

theorem Exponent.power_eq (e : Exponent) : e.power = 10 ^ e.value := by
  rw [power, value, digitsValue_eq_placeValue]
  split
  · rw [zpow_neg, zpow_natCast, one_div]
  · rw [zpow_natCast]

namespace Form

/-- The rational that a numeral without its sign denotes. -/
def size (p : Form) : ℚ :=
  (placeValue p.whole + placeValue (p.fraction.getD []) / 10 ^ (p.fraction.getD []).length) *
    (p.exponent.map Exponent.power).getD 1

def value (p : Form) : ℚ :=
  signed p.negative p.size

theorem value_decimal (p : Form) : p.decimal.value = p.size := by
  have hpower : (p.exponent.map Exponent.power).getD 1 =
      (10 : ℚ) ^ ((p.exponent.map Exponent.value).getD 0) := by
    cases p.exponent with
    | none => rfl
    | some e => exact e.power_eq
  have hten : (10 : ℚ) ≠ 0 := by norm_num
  rw [Decimal.value, decimal, size, hpower, zpow_sub₀ hten, zpow_natCast, digitsValue_append,
    digitsValue_eq_placeValue, digitsValue_eq_placeValue]
  push_cast
  field_simp

theorem abs_value (p : Form) : |p.value| = p.decimal.value := by
  have hnonneg : 0 ≤ p.size := p.value_decimal ▸ p.decimal.value_nonneg
  rw [value_decimal, value, signed]
  split
  · rw [abs_neg, abs_of_nonneg hnonneg]
  · rw [abs_of_nonneg hnonneg]

theorem value_eq_signed (p : Form) : p.value = signed p.negative p.decimal.value := by
  rw [value_decimal, value]

end Form

/-! ## A numeral by itself -/

theorem isBlank_of_isDecimalDigit {c : Char} (h : isDecimalDigit c) : isBlank c = false := by
  by_contra hblank
  rw [Bool.not_eq_false] at hblank
  -- Both classes are tables, so that they are apart is a matter of comparing bounds.
  have hcodes : blankCodes.all (fun code => decimalDigits.ranges.all fun range =>
      !(range.1 ≤ code && code ≤ range.2)) := by
    decide
  have hcode := List.all_eq_true.1 hcodes c.toNat (mem_blankCodes hblank)
  rw [isDecimalDigit, CharTable.contains, CharTable.rangeOf?, List.find?_isSome] at h
  obtain ⟨range, hrange, hin⟩ := h
  have hout := List.all_eq_true.1 hcode range hrange
  rw [hin] at hout
  exact absurd hout (by decide)

theorem mem_text {p : Form} (hp : p.Valid) {c : Char} (hc : c ∈ p.text) :
    isDecimalDigit c ∨ c ∈ ['+', '-', '.', 'e', 'E'] := by
  have hsign : ∀ sign : Option Bool, c ∈ signText sign → c ∈ ['+', '-', '.', 'e', 'E'] := by
    intro sign hmem
    match sign with
    | none => cases hmem
    | some true => rw [List.mem_singleton.1 hmem]; decide
    | some false => rw [List.mem_singleton.1 hmem]; decide
  simp only [Form.text, List.mem_append] at hc
  rcases hc with hc | hc | hc | hc
  · exact Or.inr (hsign _ hc)
  · exact Or.inl (hp.whole c hc)
  · rw [Form.fractionText] at hc
    split at hc
    · next digits hdigits =>
      rcases List.mem_cons.1 hc with rfl | hc
      · exact Or.inr (by decide)
      · exact Or.inl (hp.fraction digits hdigits c hc)
    · cases hc
  · rw [Form.exponentText] at hc
    split at hc
    · next e he =>
      rw [Exponent.text] at hc
      rcases List.mem_cons.1 hc with rfl | hc
      · cases e.capital with
        | true => exact Or.inr (by decide)
        | false => exact Or.inr (by decide)
      · rcases List.mem_append.1 hc with hc | hc
        · exact Or.inr (hsign _ hc)
        · exact Or.inl ((hp.exponent e he).digits c hc)
    · cases hc

theorem isPadding_of_mem_text {p : Form} (hp : p.Valid) {c : Char} (hc : c ∈ p.text) :
    isPadding c = false := by
  have hblank : isBlank c = false := by
    rcases mem_text hp hc with hdigit | hmark
    · exact isBlank_of_isDecimalDigit hdigit
    · have hmarks : ['+', '-', '.', 'e', 'E'].all fun c => !isBlank c := by
        decide
      simpa using List.all_eq_true.1 hmarks c hmark
  rw [isPadding, hblank, Bool.false_and]

theorem dropGrouping?_of_not_mem (afterDigit : Bool) {cs : List Char} (h : '_' ∉ cs) :
    dropGrouping? afterDigit cs = some cs := by
  induction cs generalizing afterDigit with
  | nil => rfl
  | cons c rest ih =>
      have hc : c ≠ '_' := fun heq => h (by simp [heq])
      have hrest := ih (isDecimalDigit c) (fun hmem => h (List.mem_cons_of_mem c hmem))
      unfold dropGrouping?
      split
      · next heq => cases heq
      · next heq =>
        cases heq
        exact absurd rfl hc
      · next heq =>
        cases heq
        rw [if_neg hc, hrest, Option.map_some]

/-- **The text of a numeral by itself reads as its decimal.** -/
theorem number?_text {p : Form} (hp : p.Valid) :
    number? p.text = some p.decimal.toBinary64 := by
  -- A whole text loses its padding and its grouping first; a numeral has neither.
  have hstrip : stripBy isPadding p.text = p.text :=
    stripBy_eq_self (fun c hc => isPadding_of_mem_text hp (List.mem_of_mem_head? hc))
      (fun c hc => isPadding_of_mem_text hp (List.mem_of_mem_getLast? hc))
  have hgrouping : '_' ∉ p.text := by
    intro hmem
    rcases mem_text hp hmem with hdigit | hmark
    · exact absurd hdigit (by decide)
    · exact absurd hmark (by decide)
  have htake : take? p.text = some (p.decimal, []) := by
    have := Form.take?_text hp (stops_nil p)
    rwa [List.append_nil] at this
  rw [number?, hstrip, dropGrouping?_of_not_mem false hgrouping]
  simp only
  rw [htake]

/-! ## What follows a numeral -/

section Behind

variable {c : Char} {cs rest : List Char}

/-- A numeral in front of a character that no numeral has ends there. -/
theorem isPrefix_text_iff (hc : ∀ p : Form, p.Valid → c ∉ p.text) {p : Form} (hp : p.Valid) :
    p.text <+: cs ++ c :: rest ↔ p.text <+: cs := by
  constructor
  · rintro ⟨tail, heq⟩
    obtain ⟨more, hmore, -⟩ := exists_append_of_notMem heq.symm (hc p hp)
    exact ⟨more, hmore.symm⟩
  · exact fun hprefix => hprefix.trans (List.prefix_append cs _)

theorem longest_append_cons_iff (hc : ∀ p : Form, p.Valid → c ∉ p.text) {p : Form} :
    Longest p (cs ++ c :: rest) ↔ Longest p cs := by
  constructor
  · rintro ⟨hvalid, hprefix, hle⟩
    exact ⟨hvalid, (isPrefix_text_iff hc hvalid).1 hprefix,
      fun other hother hfront => hle other hother ((isPrefix_text_iff hc hother).2 hfront)⟩
  · rintro ⟨hvalid, hprefix, hle⟩
    exact ⟨hvalid, (isPrefix_text_iff hc hvalid).2 hprefix,
      fun other hother hfront => hle other hother ((isPrefix_text_iff hc hother).1 hfront)⟩

theorem map_fst_take?_append_cons (hc : ∀ p : Form, p.Valid → c ∉ p.text) :
    (take? (cs ++ c :: rest)).map Prod.fst = (take? cs).map Prod.fst := by
  by_cases hsome : ∃ p : Form, p.Valid ∧ p.text <+: cs
  · obtain ⟨p, hp, hprefix⟩ := hsome
    obtain ⟨longest, hlongest⟩ := exists_longest hp hprefix
    obtain ⟨tail, -, htake⟩ := take?_of_longest hlongest
    obtain ⟨more, -, hbehind⟩ := take?_of_longest ((longest_append_cons_iff hc).2 hlongest)
    rw [htake, hbehind]
    rfl
  · have htake : take? cs = none := by
      rw [← Option.not_isSome_iff_eq_none, take?_isSome_iff]
      exact hsome
    have hbehind : take? (cs ++ c :: rest) = none := by
      rw [← Option.not_isSome_iff_eq_none, take?_isSome_iff]
      rintro ⟨p, hp, hprefix⟩
      exact hsome ⟨p, hp, (isPrefix_text_iff hc hp).1 hprefix⟩
    rw [htake, hbehind]

theorem leadingNumber?_eq (cs : List Char) :
    leadingNumber? cs = ((take? (cs.dropWhile isBlank)).map Prod.fst).bind fun decimal =>
      if decimal.toBinary64.isFinite then some decimal.toBinary64 else none := by
  rw [leadingNumber?]
  cases take? (cs.dropWhile isBlank) with
  | none => rfl
  | some taken => rfl

theorem leadingNumber?_append_cons (hblank : isBlank c = false)
    (hc : ∀ p : Form, p.Valid → c ∉ p.text) :
    leadingNumber? (cs ++ c :: rest) = leadingNumber? cs := by
  have hdrop : (cs ++ c :: rest).dropWhile isBlank = cs.dropWhile isBlank ++ c :: rest := by
    rw [List.dropWhile_append, List.dropWhile_cons_of_neg (by simp [hblank])]
    split
    · next hempty => rw [List.isEmpty_iff.1 hempty, List.nil_append]
    · rfl
  rw [leadingNumber?_eq, leadingNumber?_eq, hdrop, map_fst_take?_append_cons hc]

end Behind

/-! ## The number at the front -/

/-- **The number that a text begins with is that of the longest numeral behind its blanks.** It is
the nearest one to the numeral's value with the numeral's sign, and none where that is too large.
What stands behind the numeral does not matter: the numeral by itself reads as the same number. -/
theorem leadingNumber_longest (cs : List Char) :
    ((¬ ∃ p : Form, p.Valid ∧ p.text <+: cs.dropWhile isBlank) → leadingNumber? cs = none) ∧
      ((∃ p : Form, p.Valid ∧ p.text <+: cs.dropWhile isBlank) →
        ∃ p, Longest p (cs.dropWhile isBlank)) ∧
      ∀ p, Longest p (cs.dropWhile isBlank) →
        (∃ x, number? p.text = some x ∧ leadingNumber? cs = if x.isFinite then some x else none) ∧
          (2 ^ 1024 - 2 ^ 970 ≤ |p.value| → leadingNumber? cs = none) ∧
          (|p.value| < 2 ^ 1024 - 2 ^ 970 → ∃ m : Magnitude,
            leadingNumber? cs = some (.finite p.negative m) ∧ Nearest p.negative m p.value) := by
  refine ⟨fun hnone => ?_, fun ⟨p, hp, hprefix⟩ => exists_longest hp hprefix, fun p hp => ?_⟩
  · have htake : take? (cs.dropWhile isBlank) = none := by
      rw [← Option.not_isSome_iff_eq_none, take?_isSome_iff]
      exact hnone
    rw [leadingNumber?, htake]
  · obtain ⟨tail, -, htake⟩ := take?_of_longest hp
    have hnumber : leadingNumber? cs =
        if p.decimal.toBinary64.isFinite then some p.decimal.toBinary64 else none := by
      rw [leadingNumber?, htake]
    obtain ⟨hlarge, hfinite⟩ := p.decimal.toBinary64_nearest
    refine ⟨⟨p.decimal.toBinary64, number?_text hp.valid, hnumber⟩, fun hle => ?_, fun hlt => ?_⟩
    · rw [p.abs_value] at hle
      rw [hnumber, hlarge hle]
      rfl
    · rw [p.abs_value] at hlt
      obtain ⟨m, hm, hnearest⟩ := hfinite hlt
      refine ⟨m, ?_, ?_⟩
      · rw [hnumber, hm]
        rfl
      · rw [p.value_eq_signed]
        exact nearest_signed hnearest p.decimal.value_nonneg p.negative

/-- A sign, a digit of another script and a fraction; the `e` behind them begins no exponent. -/
theorem leadingNumber_longest_unit :
    leadingNumber? "px".toList = none ∧
      (∃ p, Longest p ("\t-٣.5e+1.x".toList.dropWhile isBlank)) ∧
      Longest ⟨some true, ['٣'], some ['5'], none⟩ ("\t-٣.5em".toList.dropWhile isBlank) ∧
      ∃ m : Magnitude, leadingNumber? "\t-٣.5em".toList = some (.finite true m) ∧
        Nearest true m (-7 / 2) := by
  have hnone : ¬ ∃ p : Form, p.Valid ∧ p.text <+: "px".toList.dropWhile isBlank := by
    rw [← take?_isSome_iff]
    decide +kernel
  have hsome : ∃ p : Form, p.Valid ∧ p.text <+: "\t-٣.5e+1.x".toList.dropWhile isBlank := by
    rw [← take?_isSome_iff]
    decide +kernel
  have hvalid : Form.Valid ⟨some true, ['٣'], some ['5'], none⟩ := by
    have hthree : isDecimalDigit '٣' := by decide
    have hfive : isDecimalDigit '5' := by decide
    exact ⟨by simpa using hthree, by simpa using hfive, by simp, by simp⟩
  have hstops : Stops ⟨some true, ['٣'], some ['5'], none⟩ ['e', 'm'] := by
    refine ⟨by simpa using isDecimalDigit_letter false, by simp, ?_⟩
    intro _ e he hfront
    exact absurd (e.eq_of_text_prefix he hfront) (by decide)
  have hlongest := (longest_iff_stops hvalid ['e', 'm']).2 hstops
  have hvalue : Form.value ⟨some true, ['٣'], some ['5'], none⟩ = -7 / 2 := by
    have hthree : digitValue? '٣' = some 3 := by decide
    have hfive : digitValue? '5' = some 5 := by decide
    simp [Form.value, Form.size, Form.negative, signed, placeValue, hthree, hfive]
    norm_num
  have hnumber := ((leadingNumber_longest "\t-٣.5em".toList).2.2 _ hlongest).2.2 (by
    rw [hvalue]
    exact lt_overflow (by norm_num [abs_of_nonpos]))
  rw [hvalue] at hnumber
  exact ⟨(leadingNumber_longest "px".toList).1 hnone,
    (leadingNumber_longest "\t-٣.5e+1.x".toList).2.1 hsome, hlongest, hnumber⟩

end IconForge.Numeral
