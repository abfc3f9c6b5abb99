import Mathlib
import IconForge.Number.Layout
import IconForge.Proofs.Number.Grammar
import IconForge.Proofs.Number.Shortest

set_option autoImplicit false

/-! # Numbers read back from their text

A finite number that is written in any layout, whole numbers ending with nothing or with `.0`, is
read back as an equal number (`leadingNumber?_render`). Zeros count as equal whatever their signs.

Between writing and reading stands the *spelling* of a number: its digits in front of the point,
those behind it and an exponent. Every layout writes a spelling whose value is that of the shortest
digits (`magnitude_eq_spelling`), and a spelling is a numeral, so that reading it gives its value
(`take?_spelling`). -/

namespace IconForge

open Text

/-! ## Spellings -/

/-- A number as it is spelled, without its sign. -/
structure Spelling where
  /-- The digits in front of the point. -/
  whole : List Char
  /-- The digits behind the point, if there is one. -/
  fraction : Option (List Char)
  /-- Whether the exponent is negative, and its digits. -/
  exponent : Option (Bool × List Char)

namespace Spelling

def fractionText (s : Spelling) : List Char :=
  match s.fraction with
  | some digits => '.' :: digits
  | none => []

def exponentText (s : Spelling) : List Char :=
  match s.exponent with
  | some (negative, digits) => 'e' :: (if negative then '-' else '+') :: digits
  | none => []

def text (s : Spelling) : List Char :=
  s.whole ++ s.fractionText ++ s.exponentText

def exponentValue (s : Spelling) : Int :=
  match s.exponent with
  | some (negative, digits) =>
    if negative then -(Numeral.digitsValue digits : Int) else Numeral.digitsValue digits
  | none => 0

/-- The number that is spelled, with a sign. -/
def decimal (s : Spelling) (negative : Bool) : Decimal where
  negative := negative
  digits := Numeral.digitsValue (s.whole ++ s.fraction.getD [])
  exponent := s.exponentValue - (s.fraction.getD []).length

/-- A spelling has digits of ASCII at its places, and some of them in front of the point and in
the exponent. -/
structure Valid (s : Spelling) : Prop where
  whole_ne : s.whole ≠ []
  whole : ∀ c ∈ s.whole, c.isDigit
  fraction : ∀ digits ∈ s.fraction, ∀ c ∈ digits, c.isDigit
  exponent : ∀ item ∈ s.exponent, item.2 ≠ [] ∧ ∀ c ∈ item.2, c.isDigit

end Spelling

/-! ## Reading a spelling -/

namespace Spelling

/-- A spelling with its sign is a numeral: one with digits of ASCII only, and with a small letter
and a sign in its exponent. -/
def form (s : Spelling) (negative : Bool) : Numeral.Form where
  sign := if negative then some true else none
  whole := s.whole
  fraction := s.fraction
  exponent := s.exponent.map fun item => ⟨false, some item.1, item.2⟩

theorem text_form (s : Spelling) (negative : Bool) :
    (s.form negative).text = (if negative then ['-'] else []) ++ s.text := by
  have hsign : Numeral.signText (s.form negative).sign = if negative then ['-'] else [] := by
    cases negative with
    | true => rfl
    | false => rfl
  have hexponent : (s.form negative).exponentText = s.exponentText := by
    cases h : s.exponent with
    | none => simp [Numeral.Form.exponentText, form, exponentText, h]
    | some item =>
        obtain ⟨below, digits⟩ := item
        cases below with
        | true => simp [Numeral.Form.exponentText, form, exponentText, h, Numeral.Exponent.text,
            Numeral.signText]
        | false => simp [Numeral.Form.exponentText, form, exponentText, h, Numeral.Exponent.text,
            Numeral.signText]
  rw [Numeral.Form.text, hsign, hexponent, text, List.append_assoc]
  rfl

theorem valid_form {s : Spelling} (h : s.Valid) (negative : Bool) : (s.form negative).Valid where
  whole c hc := isDecimalDigit_of_isDigit (h.whole c hc)
  fraction digits hdigits c hc := isDecimalDigit_of_isDigit (h.fraction digits hdigits c hc)
  exponent e he := by
    obtain ⟨item, hitem, rfl⟩ := Option.map_eq_some_iff.1 he
    obtain ⟨hne, hdigits⟩ := h.exponent item hitem
    exact ⟨hne, fun c hc => isDecimalDigit_of_isDigit (hdigits c hc)⟩
  ne_nil hwhole := absurd hwhole h.whole_ne

theorem decimal_form (s : Spelling) (negative : Bool) :
    (s.form negative).decimal = s.decimal negative := by
  have hnegative : (s.form negative).negative = negative := by
    cases negative with
    | true => rfl
    | false => rfl
  have hexponent : ((s.form negative).exponent.map Numeral.Exponent.value).getD 0 =
      s.exponentValue := by
    cases h : s.exponent with
    | none => simp [form, exponentValue, h]
    | some item => simp [form, exponentValue, h, Numeral.Exponent.value]
  rw [Numeral.Form.decimal, hnegative, hexponent]
  rfl

end Spelling

namespace Numeral

theorem takeDigits_of_digits {digits rest : List Char} (hdigits : ∀ c ∈ digits, c.isDigit)
    (hrest : ∀ c ∈ rest.head?, isDecimalDigit c = false) :
    takeDigits (digits ++ rest) = (digits, rest) :=
  takeDigits_append (fun c hc => isDecimalDigit_of_isDigit (hdigits c hc)) hrest

/-- **Reading a spelling with its sign takes all of it and gives its value.** -/
theorem take?_spelling {s : Spelling} (h : s.Valid) (negative : Bool) :
    take? ((if negative then ['-'] else []) ++ s.text) = some (s.decimal negative, []) := by
  have htake := Form.take?_text (Spelling.valid_form h negative) (stops_nil _)
  rwa [List.append_nil, Spelling.text_form, Spelling.decimal_form] at htake

end Numeral

/-! ## The spelling that a layout chooses -/

namespace NumberLayout

/-- The endings of whole numbers that reading understands. -/
def Readable (layout : NumberLayout) : Prop :=
  layout.wholeEnd = "" ∨ layout.wholeEnd = ".0"

/-- The fraction of a whole number. -/
def wholeFraction (layout : NumberLayout) : Option (List Char) :=
  if layout.wholeEnd = "" then none else some ['0']

def fullSpelling (layout : NumberLayout) (digits : List Char) (point : Int) : Spelling :=
  if point ≤ 0 then ⟨['0'], some (List.replicate point.natAbs '0' ++ digits), none⟩
  else if digits.length ≤ point.toNat then
    ⟨digits ++ List.replicate (point.toNat - digits.length) '0', layout.wholeFraction, none⟩
  else ⟨digits.take point.toNat, some (digits.drop point.toNat), none⟩

def scientificSpelling (layout : NumberLayout) (digits : List Char) (point : Int) : Spelling where
  whole := digits.take 1
  fraction := if digits.length ≤ 1 then none else some (digits.drop 1)
  exponent := some (decide (point - 1 < 0), (layout.exponentDigits (point - 1).natAbs).toList)

def spelling (layout : NumberLayout) (s : ShortestDigits) : Spelling :=
  if layout.fullAbove < s.point && s.point ≤ layout.fullUpTo then
    layout.fullSpelling (Nat.toDigits 10 s.digits) s.point
  else layout.scientificSpelling (Nat.toDigits 10 s.digits) s.point

theorem toList_signed (negative : Bool) (text : String) :
    (signed negative text).toList = (if negative then ['-'] else []) ++ text.toList := by
  cases negative with
  | true => simp [signed]
  | false => simp [signed]

theorem toList_zeros (count : Nat) : (zeros count).toList = List.replicate count '0' := by
  rw [zeros, String.toList_ofList]

theorem toList_exponentDigits (layout : NumberLayout) (exponent : Nat) :
    ∃ count, (layout.exponentDigits exponent).toList =
      List.replicate count '0' ++ Nat.toDigits 10 exponent := by
  refine ⟨layout.exponentWidth - (toString exponent).length, ?_⟩
  simp only [exponentDigits, String.toList_append, toList_zeros, toList_toString]

theorem toList_full {layout : NumberLayout} (h : layout.Readable) (digits : List Char)
    (point : Int) :
    (layout.full digits point).toList = (layout.fullSpelling digits point).text := by
  unfold full fullSpelling
  by_cases hpoint : point ≤ 0
  · rw [if_pos hpoint, if_pos hpoint]
    simp [Spelling.text, Spelling.fractionText, Spelling.exponentText, toList_zeros]
  · rw [if_neg hpoint, if_neg hpoint]
    by_cases hlength : digits.length ≤ point.toNat
    · simp only [hlength, if_true]
      rcases h with h | h
      · simp [Spelling.text, Spelling.fractionText, Spelling.exponentText, toList_zeros,
          wholeFraction, h]
      · simp [Spelling.text, Spelling.fractionText, Spelling.exponentText, toList_zeros,
          wholeFraction, h]
    · simp only [hlength, if_false]
      simp [Spelling.text, Spelling.fractionText, Spelling.exponentText]

theorem toList_scientific (layout : NumberLayout) {digits : List Char} (h : digits ≠ [])
    (point : Int) :
    (layout.scientific digits point).toList = (layout.scientificSpelling digits point).text := by
  have hsign : (if point - 1 < 0 then "-" else "+").toList =
      [if decide (point - 1 < 0) then '-' else '+'] := by
    by_cases hneg : point - 1 < 0
    · simp [hneg]
    · simp [hneg]
  unfold scientific scientificSpelling
  match digits, h with
  | [first], _ =>
    simp only [String.toList_append, hsign]
    simp [Spelling.text, Spelling.fractionText, Spelling.exponentText]
  | first :: second :: rest, _ =>
    simp only [String.toList_append, hsign]
    simp [Spelling.text, Spelling.fractionText, Spelling.exponentText]

/-- **A layout writes the spelling that it chooses.** -/
theorem magnitude_eq_spelling {layout : NumberLayout} (h : layout.Readable) (m : Magnitude) :
    (layout.magnitude m).toList = (layout.spelling (ShortestDigits.of m)).text := by
  simp only [magnitude, spelling, toList_toString]
  split
  · exact toList_full h _ _
  · exact toList_scientific layout Nat.toDigits_ne_nil _

/-! ## Its digits and its value -/

theorem isDigit_of_mem_replicate {count : Nat} {c : Char}
    (h : c ∈ List.replicate count '0') : c.isDigit := by
  rw [List.eq_of_mem_replicate h]
  rfl

theorem valid_fullSpelling (layout : NumberLayout) {digits : List Char} (hne : digits ≠ [])
    (hdigits : ∀ c ∈ digits, c.isDigit) (point : Int) :
    (layout.fullSpelling digits point).Valid := by
  unfold fullSpelling
  split
  · refine ⟨by simp, by simp, ?_, by simp⟩
    rintro _ ⟨⟩ c hc
    rcases List.mem_append.1 hc with hc | hc
    · exact isDigit_of_mem_replicate hc
    · exact hdigits c hc
  · next hpoint =>
    split
    · refine ⟨by simp [hne], ?_, ?_, by simp⟩
      · intro c hc
        rcases List.mem_append.1 hc with hc | hc
        · exact hdigits c hc
        · exact isDigit_of_mem_replicate hc
      · intro fraction hfraction c hc
        simp only [wholeFraction] at hfraction
        split at hfraction
        · cases hfraction
        · cases hfraction
          rw [List.mem_singleton.1 hc]
          rfl
    · refine ⟨?_, fun c hc => hdigits c (List.mem_of_mem_take hc), ?_, by simp⟩
      · rw [ne_eq, List.take_eq_nil_iff]
        rintro (hzero | hnil)
        · omega
        · exact hne hnil
      · rintro _ ⟨⟩ c hc
        exact hdigits c (List.mem_of_mem_drop hc)

theorem valid_scientificSpelling (layout : NumberLayout) {digits : List Char} (hne : digits ≠ [])
    (hdigits : ∀ c ∈ digits, c.isDigit) (point : Int) :
    (layout.scientificSpelling digits point).Valid := by
  obtain ⟨count, hexponent⟩ := toList_exponentDigits layout (point - 1).natAbs
  refine ⟨?_, fun c hc => hdigits c (List.mem_of_mem_take hc), ?_, ?_⟩
  · simp [scientificSpelling, hne]
  · intro fraction hfraction c hc
    simp only [scientificSpelling] at hfraction
    split at hfraction
    · cases hfraction
    · cases hfraction
      exact hdigits c (List.mem_of_mem_drop hc)
  · rintro _ ⟨⟩
    simp only [hexponent]
    refine ⟨by simp [Nat.toDigits_ne_nil], fun c hc => ?_⟩
    rcases List.mem_append.1 hc with hc | hc
    · exact isDigit_of_mem_replicate hc
    · exact isDigit_of_mem_toDigits hc

theorem valid_spelling (layout : NumberLayout) (s : ShortestDigits) :
    (layout.spelling s).Valid := by
  unfold spelling
  split
  · exact valid_fullSpelling layout Nat.toDigits_ne_nil (fun _ hc => isDigit_of_mem_toDigits hc) _
  · exact valid_scientificSpelling layout Nat.toDigits_ne_nil
      (fun _ hc => isDigit_of_mem_toDigits hc) _

open Numeral in
/-- Spelled in full, digits have the value that the place of their point gives. -/
theorem value_fullSpelling (layout : NumberLayout) (negative : Bool) (digits : List Char)
    (point : Int) :
    ((layout.fullSpelling digits point).decimal negative).value =
      digitsValue digits * 10 ^ (point - (digits.length : Int)) := by
  unfold fullSpelling
  -- The digits stand behind the point, in front of it or on both sides.
  by_cases hpoint : point ≤ 0
  · rw [if_pos hpoint]
    have hzero : digitsValue ['0'] = 0 := digitsValue_replicate_zero 1
    have hexp : (0 : Int) - (point.natAbs + digits.length : Nat) = point - digits.length := by omega
    simp only [Spelling.decimal, Spelling.exponentValue, Decimal.value, Option.getD_some,
      digitsValue_append, hzero, digitsValue_replicate_zero, List.length_append,
      List.length_replicate, hexp]
    simp
  · rw [if_neg hpoint]
    by_cases hlength : digits.length ≤ point.toNat
    · rw [if_pos hlength]
      obtain ⟨zeros, hzeros⟩ : ∃ zeros : Nat, point = digits.length + zeros :=
        ⟨point.toNat - digits.length, by omega⟩
      have hcount : point.toNat - digits.length = zeros := by omega
      have hexp : point - (digits.length : Int) = zeros := by omega
      have hzero : digitsValue ['0'] = 0 := digitsValue_replicate_zero 1
      rw [hexp, hcount, zpow_natCast]
      simp only [Spelling.decimal, Spelling.exponentValue, Decimal.value, wholeFraction]
      split
      · simp [digitsValue_append, digitsValue_replicate_zero]
      · simp only [Option.getD_some, digitsValue_append, digitsValue_replicate_zero, hzero,
          List.length_replicate, List.length_singleton, Nat.add_zero]
        push_cast
        field_simp
    · rw [if_neg hlength]
      have hexp : (0 : Int) - (digits.length - point.toNat : Nat) = point - digits.length := by
        omega
      simp only [Spelling.decimal, Spelling.exponentValue, Decimal.value, Option.getD_some,
        List.take_append_drop, List.length_drop, hexp]

open Numeral in
theorem digitsValue_exponentDigits (layout : NumberLayout) (exponent : Nat) :
    digitsValue (layout.exponentDigits exponent).toList = exponent := by
  obtain ⟨count, hexponent⟩ := toList_exponentDigits layout exponent
  rw [hexponent, digitsValue_append, digitsValue_replicate_zero, digitsValue_toDigits,
    Nat.zero_mul, Nat.zero_add]

/-- The exponent counts from behind the first digit. -/
theorem exponentValue_scientificSpelling (layout : NumberLayout) (digits : List Char)
    (point : Int) : (layout.scientificSpelling digits point).exponentValue = point - 1 := by
  simp only [Spelling.exponentValue, scientificSpelling, digitsValue_exponentDigits]
  split
  · next hneg =>
    rw [decide_eq_true_eq] at hneg
    omega
  · next hneg =>
    rw [decide_eq_true_eq] at hneg
    omega

open Numeral in
/-- Spelled with an exponent, digits have the value that the place of their point gives. -/
theorem value_scientificSpelling (layout : NumberLayout) (negative : Bool) {digits : List Char}
    (hne : digits ≠ []) (point : Int) :
    ((layout.scientificSpelling digits point).decimal negative).value =
      digitsValue digits * 10 ^ (point - (digits.length : Int)) := by
  simp only [Spelling.decimal, Decimal.value, exponentValue_scientificSpelling]
  obtain ⟨first, rest, rfl⟩ := List.exists_cons_of_ne_nil hne
  cases rest with
  | nil => simp [scientificSpelling]
  | cons second rest =>
      have hexp : point - 1 - ((rest.length + 1 : Nat) : Int) =
          point - ((rest.length + 1 + 1 : Nat) : Int) := by omega
      simp only [scientificSpelling, List.length_cons, List.take_one, List.head?_cons,
        Option.toList_some, if_false, Option.getD_some, List.drop_one, List.tail_cons,
        List.singleton_append, show ¬ (rest.length + 1 + 1 ≤ 1) by omega, hexp]

/-- **The spelling of the shortest digits has their value.** -/
theorem value_spelling (layout : NumberLayout) (negative : Bool) {s : ShortestDigits}
    (h : s.digits ≠ 0) : ((layout.spelling s).decimal negative).value = s.value := by
  have hvalue : s.value = Numeral.digitsValue (Nat.toDigits 10 s.digits) *
      10 ^ (s.point - ((Nat.toDigits 10 s.digits).length : Int)) := by
    rw [Numeral.digitsValue_toDigits, length_toDigits h]
    rfl
  rw [hvalue]
  unfold spelling
  split
  · exact value_fullSpelling layout negative _ _
  · exact value_scientificSpelling layout negative Nat.toDigits_ne_nil _

end NumberLayout

/-! ## Reading a written number -/

namespace Binary64

/-- Zero of either sign. -/
def IsZero : Binary64 → Prop
  | .finite _ m => m.significand = 0
  | _ => False

/-- Whether two numbers are equal as numbers: the two zeros are. -/
def Equal (x y : Binary64) : Prop :=
  x = y ∨ x.IsZero ∧ y.IsZero

instance (x : Binary64) : Decidable x.IsZero :=
  match x with
  | .finite _ m => inferInstanceAs (Decidable (m.significand = 0))
  | .infinite _ => inferInstanceAs (Decidable False)
  | .notANumber => inferInstanceAs (Decidable False)

instance (x y : Binary64) : Decidable (x.Equal y) :=
  inferInstanceAs (Decidable (_ ∨ _))

end Binary64

/-- The characters that finite numbers are written with. -/
def isNumeralCharacter (c : Char) : Bool :=
  c.isDigit || c = '-' || c = '+' || c = '.' || c = 'e'

namespace Spelling

theorem isNumeralCharacter_of_mem_text {s : Spelling} (h : s.Valid) {c : Char} (hc : c ∈ s.text) :
    isNumeralCharacter c := by
  have hdigit : ∀ d : Char, d.isDigit → isNumeralCharacter d := by
    intro d hd
    simp [isNumeralCharacter, hd]
  simp only [text, List.mem_append] at hc
  rcases hc with (hc | hc) | hc
  · exact hdigit c (h.whole c hc)
  · rw [fractionText] at hc
    split at hc
    · next digits hdigits =>
      rcases List.mem_cons.1 hc with rfl | hc
      · decide
      · exact hdigit c (h.fraction digits hdigits c hc)
    · cases hc
  · rw [exponentText] at hc
    split at hc
    · next negative digits hdigits =>
      rcases List.mem_cons.1 hc with rfl | hc
      · decide
      · rcases List.mem_cons.1 hc with rfl | hc
        · cases negative
          · decide
          · decide
        · exact hdigit c ((h.exponent _ hdigits).2 c hc)
    · cases hc

end Spelling

namespace NumberLayout

open Numeral

theorem exists_spelling_of_render {layout : NumberLayout} (h : layout.Readable)
    (negative : Bool) (m : Magnitude) :
    ∃ (shown : Bool) (s : Spelling), s.Valid ∧
      (layout.render (.finite negative m)).toList = (if shown then ['-'] else []) ++ s.text ∧
      ((s.decimal shown).toBinary64).Equal (.finite negative m) := by
  by_cases hm : m.significand = 0
  · refine ⟨negative && layout.signedZero, ⟨['0'], layout.wholeFraction, none⟩, ?_, ?_, ?_⟩
    · refine ⟨by simp, by simp, ?_, by simp⟩
      intro fraction hfraction c hc
      simp only [wholeFraction] at hfraction
      split at hfraction
      · cases hfraction
      · cases hfraction
        rw [List.mem_singleton.1 hc]
        rfl
    · simp only [render, hm, if_true, toList_signed]
      rcases h with h | h
      · simp [Spelling.text, Spelling.fractionText, Spelling.exponentText, wholeFraction, h]
      · simp [Spelling.text, Spelling.fractionText, Spelling.exponentText, wholeFraction, h]
    · -- A zero is read as a zero, with or without its sign.
      have hzero : digitsValue ['0'] = 0 := digitsValue_replicate_zero 1
      have hzeros : digitsValue ['0', '0'] = 0 := digitsValue_replicate_zero 2
      rw [Decimal.toBinary64_of_digits_eq_zero]
      · exact Or.inr ⟨rfl, hm⟩
      · simp only [Spelling.decimal, wholeFraction]
        split
        · exact hzero
        · exact hzeros
  · refine ⟨negative, layout.spelling (ShortestDigits.of m), valid_spelling layout _, ?_, ?_⟩
    · simp only [render, hm, if_false, toList_signed]
      rw [magnitude_eq_spelling h]
    · obtain ⟨hdigits, hcontains⟩ := ShortestDigits.contains_of hm
      left
      exact Decimal.toBinary64_of_contains hm
        (by rw [value_spelling layout negative hdigits]; exact hcontains)

theorem exists_finite {x : Binary64} (hx : x.isFinite) : ∃ negative m, x = .finite negative m := by
  cases x with
  | finite negative m => exact ⟨negative, m, rfl⟩
  | infinite negative => cases hx
  | notANumber => cases hx

theorem isNumeralCharacter_of_mem_render {layout : NumberLayout} (h : layout.Readable)
    {x : Binary64} (hx : x.isFinite) {c : Char} (hc : c ∈ (layout.render x).toList) :
    isNumeralCharacter c := by
  obtain ⟨negative, m, rfl⟩ := exists_finite hx
  obtain ⟨shown, s, hvalid, htext, -⟩ := exists_spelling_of_render h negative m
  rw [htext, List.mem_append] at hc
  rcases hc with hc | hc
  · cases shown with
    | true =>
        rw [List.mem_singleton.1 hc]
        decide
    | false => cases hc
  · exact Spelling.isNumeralCharacter_of_mem_text hvalid hc

theorem isBlank_of_isNumeralCharacter {c : Char} (h : isNumeralCharacter c) :
    isBlank c = false := by
  simp only [isNumeralCharacter, Bool.or_eq_true, decide_eq_true_eq] at h
  rcases h with (((h | rfl) | rfl) | rfl) | rfl
  · have hrange : 0x30 ≤ c.toNat ∧ c.toNat ≤ 0x39 := by
      simp only [Char.isDigit, Bool.and_eq_true, decide_eq_true_eq] at h
      exact h
    simp only [isBlank, Bool.or_eq_false_iff, Bool.and_eq_false_iff, decide_eq_false_iff_not]
    omega
  · decide
  · decide
  · decide
  · decide

theorem isFinite_of_leadingNumber? {cs : List Char} {x : Binary64}
    (h : leadingNumber? cs = some x) : x.isFinite := by
  rw [leadingNumber?] at h
  split at h
  · cases h
  · simp only at h
    split at h
    · next hfinite =>
      cases h
      exact hfinite
    · cases h

/-- **What is written for a finite number is read back as an equal number.** -/
theorem leadingNumber?_render {layout : NumberLayout} (h : layout.Readable) {x : Binary64}
    (hx : x.isFinite) :
    ∃ y, leadingNumber? (layout.render x).toList = some y ∧ y.isFinite ∧ y.Equal x := by
  have hblank : (layout.render x).toList.dropWhile isBlank = (layout.render x).toList :=
    dropWhile_eq_self fun c hc => isBlank_of_isNumeralCharacter
      (isNumeralCharacter_of_mem_render h hx (List.mem_of_mem_head? hc))
  obtain ⟨negative, m, rfl⟩ := exists_finite hx
  obtain ⟨shown, s, hvalid, htext, hequal⟩ := exists_spelling_of_render h negative m
  have hfinite : ((s.decimal shown).toBinary64).isFinite := by
    rcases hequal with heq | ⟨hzero, -⟩
    · rw [heq]
      rfl
    · revert hzero
      cases (s.decimal shown).toBinary64 with
      | finite negative m => exact fun _ => rfl
      | infinite negative => exact False.elim
      | notANumber => exact False.elim
  refine ⟨(s.decimal shown).toBinary64, ?_, hfinite, hequal⟩
  rw [leadingNumber?, hblank, htext, take?_spelling hvalid]
  simp only [hfinite, if_true]

end NumberLayout

end IconForge
