import Mathlib
import IconForge.Proofs.Number.Digits
import IconForge.Proofs.Text.Characters

set_option autoImplicit false

/-! # The grammar of numerals

A numeral is an optional sign, digits with an optional point and an optional exponent. This file
says what that means apart from the reader, by the parts of a numeral and the text they make, and
proves that the reader takes the longest numeral at the front of a text (`take?_of_longest`) and
fails exactly where there is none (`take?_isSome_iff`).

A numeral at the front of a text is the longest one when nothing behind it can make it longer
(`longest_iff_stops`): no digit, no point where the numeral has none yet, and no exponent. The
letter of an exponent alone, or with its sign, is none, so `1em` and `1e+` both begin with `1`. -/

namespace IconForge.Numeral

open Text

/-! ## The parts of a numeral -/

/-- The text of an optional sign; `true` is a minus. -/
def signText : Option Bool → List Char
  | none => []
  | some false => ['+']
  | some true => ['-']

/-- An exponent in its parts. -/
structure Exponent where
  /-- Whether its letter is a capital one. -/
  capital : Bool
  /-- Its sign, if it has one. -/
  sign : Option Bool
  /-- Its digits. -/
  digits : List Char
deriving DecidableEq

namespace Exponent

def text (e : Exponent) : List Char :=
  (if e.capital then 'E' else 'e') :: (signText e.sign ++ e.digits)

/-- An exponent has one digit at least. -/
structure Valid (e : Exponent) : Prop where
  ne_nil : e.digits ≠ []
  digits : ∀ c ∈ e.digits, isDecimalDigit c

def value (e : Exponent) : Int :=
  if e.sign = some true then -(digitsValue e.digits : Int) else digitsValue e.digits

end Exponent

/-- A numeral in its parts. -/
structure Form where
  /-- Its sign, if it has one. -/
  sign : Option Bool
  /-- The digits in front of the point. -/
  whole : List Char
  /-- The digits behind the point, if there is a point. -/
  fraction : Option (List Char)
  /-- Its exponent, if it has one. -/
  exponent : Option Exponent
deriving DecidableEq

namespace Form

/-- The text of the point and the digits behind it. -/
def fractionText (p : Form) : List Char :=
  match p.fraction with
  | some digits => '.' :: digits
  | none => []

def exponentText (p : Form) : List Char :=
  match p.exponent with
  | some e => e.text
  | none => []

def text (p : Form) : List Char :=
  signText p.sign ++ (p.whole ++ (p.fractionText ++ p.exponentText))

/-- A numeral has a digit on one side of its point at least. -/
structure Valid (p : Form) : Prop where
  whole : ∀ c ∈ p.whole, isDecimalDigit c
  fraction : ∀ digits ∈ p.fraction, ∀ c ∈ digits, isDecimalDigit c
  exponent : ∀ e ∈ p.exponent, e.Valid
  ne_nil : p.whole = [] → p.fraction.getD [] ≠ []

def negative (p : Form) : Bool :=
  p.sign == some true

def decimal (p : Form) : Decimal where
  negative := p.negative
  digits := digitsValue (p.whole ++ p.fraction.getD [])
  exponent := (p.exponent.map Exponent.value).getD 0 - (p.fraction.getD []).length

end Form

/-! ## Characters of a numeral -/

theorem isDecimalDigit_point : isDecimalDigit '.' = false := by
  decide

theorem isDecimalDigit_letter (capital : Bool) :
    isDecimalDigit (if capital then 'E' else 'e') = false := by
  cases capital with
  | true => decide
  | false => decide

theorem ne_sign_of_isDecimalDigit {c : Char} (h : isDecimalDigit c) : c ≠ '+' ∧ c ≠ '-' := by
  constructor
  · rintro rfl
    exact absurd h (by decide)
  · rintro rfl
    exact absurd h (by decide)

/-! ## Taking the parts -/

theorem takeDigits_append {digits rest : List Char} (hdigits : ∀ c ∈ digits, isDecimalDigit c)
    (hrest : ∀ c ∈ rest.head?, isDecimalDigit c = false) :
    takeDigits (digits ++ rest) = (digits, rest) := by
  obtain ⟨htake, hdrop⟩ := takeWhile_dropWhile_append hdigits hrest
  rw [takeDigits, htake, hdrop]

theorem exists_takeDigits (cs : List Char) :
    ∃ digits rest, cs = digits ++ rest ∧ (∀ c ∈ digits, isDecimalDigit c) ∧
      (∀ c ∈ rest.head?, isDecimalDigit c = false) ∧ takeDigits cs = (digits, rest) := by
  refine ⟨cs.takeWhile isDecimalDigit, cs.dropWhile isDecimalDigit,
    List.takeWhile_append_dropWhile.symm, fun c hc => List.mem_takeWhile_imp hc,
    fun c hc => of_mem_head?_dropWhile hc, rfl⟩

theorem takeSign_append (sign : Option Bool) {rest : List Char}
    (hrest : ∀ c ∈ rest.head?, c ≠ '+' ∧ c ≠ '-') :
    takeSign (signText sign ++ rest) = (sign == some true, rest) := by
  match sign with
  | some false => rfl
  | some true => rfl
  | none =>
    rw [signText, List.nil_append]
    unfold takeSign
    split
    · next rest => exact absurd rfl (hrest '+' rfl).1
    · next rest => exact absurd rfl (hrest '-' rfl).2
    · rfl

theorem exists_takeSign (cs : List Char) :
    ∃ sign rest, cs = signText sign ++ rest ∧ takeSign cs = (sign == some true, rest) := by
  unfold takeSign
  split
  · next rest => exact ⟨some false, rest, rfl, rfl⟩
  · next rest => exact ⟨some true, rest, rfl, rfl⟩
  · exact ⟨none, cs, rfl, rfl⟩

theorem takeExponent_append {e : Exponent} (he : e.Valid) {rest : List Char}
    (hrest : ∀ c ∈ rest.head?, isDecimalDigit c = false) :
    takeExponent (e.text ++ rest) = (e.value, rest) := by
  have hsign : takeSign (signText e.sign ++ (e.digits ++ rest)) =
      (e.sign == some true, e.digits ++ rest) := by
    apply takeSign_append
    obtain ⟨c, cs, hdigits⟩ := List.exists_cons_of_ne_nil he.ne_nil
    rw [hdigits]
    rintro _ ⟨⟩
    exact ne_sign_of_isDecimalDigit (he.digits c (by simp [hdigits]))
  have hempty : e.digits.isEmpty = false := by
    rw [List.isEmpty_eq_false_iff]
    exact he.ne_nil
  rw [Exponent.text, List.cons_append, List.append_assoc, takeExponent, if_pos (by simp), hsign]
  simp only
  rw [takeDigits_append he.digits hrest]
  simp only [hempty, Exponent.value, beq_iff_eq, Bool.false_eq_true, if_false]

/-- An exponent is taken whole, or there is none. -/
theorem takeExponent_cases (cs : List Char) :
    (∃ (e : Exponent) (rest : List Char), e.Valid ∧ cs = e.text ++ rest) ∨ takeExponent cs = (0, cs) := by
  cases cs with
  | nil => exact Or.inr rfl
  | cons letter behind =>
      by_cases hletter : letter = 'e' ∨ letter = 'E'
      · obtain ⟨sign, unsigned, hbehind, hsign⟩ := exists_takeSign behind
        obtain ⟨digits, rest, hunsigned, hdigits, -, htake⟩ := exists_takeDigits unsigned
        by_cases hempty : digits = []
        · right
          rw [takeExponent, if_pos (by simpa using hletter), hsign]
          simp only
          rw [htake]
          simp [hempty]
        · refine Or.inl ⟨⟨letter == 'E', sign, digits⟩, rest, ⟨hempty, hdigits⟩, ?_⟩
          rw [hbehind, hunsigned]
          rcases hletter with rfl | rfl
          · simp [Exponent.text]
          · simp [Exponent.text]
      · right
        rw [takeExponent, if_neg (by simpa using hletter)]

/-! ## Where a numeral stops -/

/-- Whether nothing at the front of a text makes a numeral in front of it longer. -/
structure Stops (p : Form) (tail : List Char) : Prop where
  digit : ∀ c ∈ tail.head?, isDecimalDigit c = false
  point : p.fraction = none → p.exponent = none → ∀ c ∈ tail.head?, c ≠ '.'
  exponent : p.exponent = none → ∀ e : Exponent, e.Valid → ¬ e.text <+: tail

theorem stops_nil (p : Form) : Stops p [] where
  digit := by rintro c ⟨⟩
  point := by rintro - - c ⟨⟩
  exponent := by
    rintro - e - hfront
    exact absurd (List.prefix_nil.1 hfront) (by simp [Exponent.text])

/-- What follows the letter of an exponent is its sign or a digit. -/
theorem Exponent.eq_of_text_prefix {e : Exponent} (he : e.Valid) {letter next : Char}
    {rest : List Char} (h : e.text <+: letter :: next :: rest) :
    next = '+' ∨ next = '-' ∨ isDecimalDigit next := by
  obtain ⟨d, digits, hdigits⟩ := List.exists_cons_of_ne_nil he.ne_nil
  have hd : isDecimalDigit d := he.digits d (by simp [hdigits])
  have hbehind : signText e.sign ++ d :: digits <+: next :: rest := by
    rw [Exponent.text, hdigits] at h
    exact (List.cons_prefix_cons.1 h).2
  cases hsign : e.sign with
  | none =>
      rw [hsign] at hbehind
      exact Or.inr (Or.inr ((List.cons_prefix_cons.1 hbehind).1 ▸ hd))
  | some negative =>
      rw [hsign] at hbehind
      cases negative with
      | false => exact Or.inl (List.cons_prefix_cons.1 hbehind).1.symm
      | true => exact Or.inr (Or.inl (List.cons_prefix_cons.1 hbehind).1.symm)

namespace Form

theorem head?_exponentText {p : Form} {tail : List Char} (hs : Stops p tail) :
    (∀ c ∈ (p.exponentText ++ tail).head?, isDecimalDigit c = false) ∧
      (p.fraction = none → ∀ c ∈ (p.exponentText ++ tail).head?, c ≠ '.') := by
  rw [exponentText]
  cases hexponent : p.exponent with
  | none => exact ⟨hs.digit, fun hfraction => hs.point hfraction hexponent⟩
  | some e =>
      constructor
      · rintro _ ⟨⟩
        exact isDecimalDigit_letter e.capital
      · rintro - _ ⟨⟩
        cases e.capital with
        | true => decide
        | false => decide

theorem takeExponent_exponentText {p : Form} (hp : p.Valid) {tail : List Char}
    (hs : Stops p tail) :
    takeExponent (p.exponentText ++ tail) = ((p.exponent.map Exponent.value).getD 0, tail) := by
  rw [exponentText]
  cases hexponent : p.exponent with
  | some e => exact takeExponent_append (hp.exponent e hexponent) hs.digit
  | none =>
      rcases takeExponent_cases tail with ⟨e, rest, he, htail⟩ | htake
      · exact absurd ⟨rest, htail.symm⟩ (hs.exponent hexponent e he)
      · exact htake

theorem takeFixed?_text {p : Form} (hp : p.Valid) {tail : List Char} (hs : Stops p tail) :
    takeFixed? (p.whole ++ (p.fractionText ++ (p.exponentText ++ tail))) =
      some (p.whole, p.fraction.getD [], p.exponentText ++ tail) := by
  obtain ⟨hdigit, hpoint⟩ := head?_exponentText hs
  have hne := hp.ne_nil
  unfold takeFixed?
  rw [fractionText]
  cases hfraction : p.fraction with
  | some digits =>
      rw [hfraction] at hne
      rw [List.cons_append, takeDigits_append hp.whole (by rintro _ ⟨⟩; exact isDecimalDigit_point)]
      simp only
      rw [takeDigits_append (hp.fraction digits hfraction) hdigit]
      simpa using hne
  | none =>
      rw [hfraction] at hne
      have hwhole : p.whole.isEmpty = false := by
        rw [List.isEmpty_eq_false_iff]
        exact fun h => hne h rfl
      rw [List.nil_append, takeDigits_append hp.whole hdigit]
      simp only [hwhole]
      split
      · next heq => exact absurd rfl (hpoint hfraction '.' (by rw [heq]; rfl))
      · rfl

/-- **A numeral that nothing behind it makes longer is taken whole.** -/
theorem take?_text {p : Form} (hp : p.Valid) {tail : List Char} (hs : Stops p tail) :
    take? (p.text ++ tail) = some (p.decimal, tail) := by
  have hsign : takeSign (p.text ++ tail) =
      (p.negative, p.whole ++ (p.fractionText ++ (p.exponentText ++ tail))) := by
    rw [text, List.append_assoc, List.append_assoc, List.append_assoc]
    apply takeSign_append
    cases hwhole : p.whole with
    | cons c cs =>
        rintro _ ⟨⟩
        exact ne_sign_of_isDecimalDigit (hp.whole c (by simp [hwhole]))
    | nil =>
        have hne := hp.ne_nil hwhole
        rw [fractionText]
        cases hfraction : p.fraction with
        | none => exact absurd (by rw [hfraction]; rfl) hne
        | some digits =>
            rintro _ ⟨⟩
            decide
  unfold take?
  rw [hsign]
  simp only
  rw [takeFixed?_text hp hs]
  simp only
  rw [takeExponent_exponentText hp hs]
  rfl

end Form

/-! ## The longest numeral -/

/-- A numeral that no other one at the front of a text is longer than. -/
structure Longest (p : Form) (cs : List Char) : Prop where
  valid : p.Valid
  isPrefix : p.text <+: cs
  le : ∀ other : Form, other.Valid → other.text <+: cs → other.text.length ≤ p.text.length

/-- Where a text begins with a numeral, it begins with a longest one. -/
theorem exists_longest {p : Form} {cs : List Char} (hp : p.Valid) (hfront : p.text <+: cs) :
    ∃ longest, Longest longest cs := by
  obtain ⟨longest, ⟨hvalid, hlongest⟩, hmin⟩ :=
    (measure fun other : Form => cs.length - other.text.length).wf.has_min
      {other | other.Valid ∧ other.text <+: cs} ⟨p, hp, hfront⟩
  refine ⟨longest, hvalid, hlongest, fun other hother hotherPrefix => ?_⟩
  have hnot : ¬ cs.length - other.text.length < cs.length - longest.text.length :=
    hmin other ⟨hother, hotherPrefix⟩
  have := hotherPrefix.length_le
  have := hlongest.length_le
  omega

/-- Behind a numeral, a digit belongs to the part that the numeral ends with. -/
theorem Form.exists_text_digit {p : Form} (hp : p.Valid) {c : Char} (hc : isDecimalDigit c) :
    ∃ longer : Form, longer.Valid ∧ longer.text = p.text ++ [c] := by
  have hdigits : ∀ {digits : List Char}, (∀ d ∈ digits, isDecimalDigit d) →
      ∀ d ∈ digits ++ [c], isDecimalDigit d := by
    intro digits hdigits d hd
    rcases List.mem_append.1 hd with hd | hd
    · exact hdigits d hd
    · rwa [List.mem_singleton.1 hd]
  cases hexponent : p.exponent with
  | some e =>
      have he := hp.exponent e hexponent
      refine ⟨{ p with exponent := some { e with digits := e.digits ++ [c] } },
        ⟨hp.whole, hp.fraction, ?_, hp.ne_nil⟩, ?_⟩
      · rintro _ ⟨⟩
        exact ⟨by simp, hdigits he.digits⟩
      · simp [Form.text, Form.fractionText, Form.exponentText, Exponent.text, hexponent]
  | none =>
      cases hfraction : p.fraction with
      | some digits =>
          refine ⟨{ p with fraction := some (digits ++ [c]) },
            ⟨hp.whole, ?_, hp.exponent, by simp⟩, ?_⟩
          · rintro _ ⟨⟩
            exact hdigits (hp.fraction digits hfraction)
          · simp [Form.text, Form.fractionText, Form.exponentText, hexponent, hfraction]
      | none =>
          refine ⟨{ p with whole := p.whole ++ [c] },
            ⟨hdigits hp.whole, hp.fraction, hp.exponent, by simp⟩, ?_⟩
          simp [Form.text, Form.fractionText, Form.exponentText, hexponent, hfraction]

/-- So does a point, where the numeral has neither a point nor an exponent. -/
theorem Form.exists_text_point {p : Form} (hp : p.Valid) (hfraction : p.fraction = none)
    (hexponent : p.exponent = none) :
    ∃ longer : Form, longer.Valid ∧ longer.text = p.text ++ ['.'] := by
  refine ⟨{ p with fraction := some [] }, ⟨hp.whole, by simp, hp.exponent, ?_⟩, ?_⟩
  · intro hwhole
    exact absurd (by rw [hfraction]; rfl) (hp.ne_nil hwhole)
  · simp [Form.text, Form.fractionText, Form.exponentText, hexponent, hfraction]

/-- And an exponent, where it has none. -/
theorem Form.exists_text_exponent {p : Form} (hp : p.Valid) (hexponent : p.exponent = none)
    {e : Exponent} (he : e.Valid) :
    ∃ longer : Form, longer.Valid ∧ longer.text = p.text ++ e.text := by
  refine ⟨{ p with exponent := some e }, ⟨hp.whole, hp.fraction, ?_, hp.ne_nil⟩, ?_⟩
  · rintro _ ⟨⟩
    exact he
  · simp [Form.text, Form.fractionText, Form.exponentText, hexponent]

theorem Longest.eq_nil {p : Form} {more rest : List Char}
    (h : Longest p (p.text ++ (more ++ rest)))
    (hlonger : ∃ longer : Form, longer.Valid ∧ longer.text = p.text ++ more) : more = [] := by
  obtain ⟨longer, hvalid, htext⟩ := hlonger
  have hle := h.le longer hvalid ⟨rest, by rw [htext, List.append_assoc]⟩
  rw [htext, List.length_append] at hle
  exact List.length_eq_zero_iff.1 (by omega)

/-- The longest numeral cannot be made longer by what follows it. -/
theorem Longest.stops {p : Form} {tail : List Char} (h : Longest p (p.text ++ tail)) :
    Stops p tail := by
  refine ⟨?_, ?_, ?_⟩
  · intro c hc
    obtain ⟨rest, rfl⟩ := List.head?_eq_some_iff.1 (Option.mem_def.1 hc)
    by_contra hdigit
    rw [Bool.not_eq_false] at hdigit
    have hnil : [c] = [] := Longest.eq_nil h (Form.exists_text_digit h.valid hdigit)
    cases hnil
  · rintro hfraction hexponent c hc rfl
    obtain ⟨rest, rfl⟩ := List.head?_eq_some_iff.1 (Option.mem_def.1 hc)
    have hnil : ['.'] = [] := Longest.eq_nil h (Form.exists_text_point h.valid hfraction hexponent)
    cases hnil
  · rintro hexponent e he ⟨rest, rfl⟩
    have hnil : e.text = [] := h.eq_nil (Form.exists_text_exponent h.valid hexponent he)
    cases hnil

/-- **The reader takes the longest numeral.** -/
theorem take?_of_longest {p : Form} {cs : List Char} (h : Longest p cs) :
    ∃ tail, cs = p.text ++ tail ∧ take? cs = some (p.decimal, tail) := by
  obtain ⟨tail, rfl⟩ := h.isPrefix
  exact ⟨tail, rfl, Form.take?_text h.valid h.stops⟩

/-- A numeral at the front of a text is the longest one when nothing behind it makes it longer. -/
theorem longest_iff_stops {p : Form} (hp : p.Valid) (tail : List Char) :
    Longest p (p.text ++ tail) ↔ Stops p tail := by
  refine ⟨Longest.stops, fun hs => ?_⟩
  obtain ⟨longest, hlongest⟩ := exists_longest hp (List.prefix_append p.text tail)
  -- both are what the reader takes, so the same text is left behind them
  obtain ⟨rest, hrest, htake⟩ := take?_of_longest hlongest
  rw [Form.take?_text hp hs] at htake
  obtain ⟨-, rfl⟩ : p.decimal = longest.decimal ∧ tail = rest := by simpa using htake
  have hlength : longest.text.length = p.text.length := by
    rw [List.append_cancel_right hrest]
  refine ⟨hp, List.prefix_append p.text tail, fun other hvalid hother => ?_⟩
  rw [← hlength]
  exact hlongest.le other hvalid hother

theorem exists_form_of_take? {cs tail : List Char} {d : Decimal} (h : take? cs = some (d, tail)) :
    ∃ p : Form, p.Valid ∧ p.text <+: cs := by
  obtain ⟨sign, unsigned, rfl, hsign⟩ := exists_takeSign cs
  obtain ⟨whole, rest, rfl, hwhole, -, htake⟩ := exists_takeDigits unsigned
  unfold take? at h
  rw [hsign] at h
  simp only at h
  cases hfixed : takeFixed? (whole ++ rest) with
  | none => simp [hfixed] at h
  | some parts =>
      -- Without its exponent a numeral is still one, so the exponent is left aside.
      unfold takeFixed? at hfixed
      rw [htake] at hfixed
      simp only at hfixed
      split at hfixed
      · next behind =>
        obtain ⟨fraction, rest, rfl, hfraction, -, htakeFraction⟩ := exists_takeDigits behind
        rw [htakeFraction] at hfixed
        refine ⟨⟨sign, whole, some fraction, none⟩, ⟨hwhole, ?_, by simp, ?_⟩, ?_⟩
        · rintro _ ⟨⟩
          exact hfraction
        · rintro rfl hnil
          simp only [Option.getD_some] at hnil
          simp [hnil] at hfixed
        · exact ⟨rest, by simp [Form.text, Form.fractionText, Form.exponentText]⟩
      · refine ⟨⟨sign, whole, none, none⟩, ⟨hwhole, by simp, by simp, ?_⟩, ?_⟩
        · rintro rfl
          simp at hfixed
        · exact ⟨rest, by simp [Form.text, Form.fractionText, Form.exponentText]⟩

/-- **A numeral is taken exactly where there is one.** -/
theorem take?_isSome_iff (cs : List Char) :
    (take? cs).isSome ↔ ∃ p : Form, p.Valid ∧ p.text <+: cs := by
  constructor
  · intro h
    obtain ⟨⟨d, tail⟩, htake⟩ := Option.isSome_iff_exists.1 h
    exact exists_form_of_take? htake
  · rintro ⟨p, hp, hfront⟩
    obtain ⟨longest, hlongest⟩ := exists_longest hp hfront
    obtain ⟨tail, -, htake⟩ := take?_of_longest hlongest
    rw [htake]
    rfl

end IconForge.Numeral
