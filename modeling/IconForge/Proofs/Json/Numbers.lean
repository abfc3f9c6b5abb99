import Mathlib
import IconForge.Json.Reader
import IconForge.Json.Writer
import IconForge.Proofs.Number.ReadBack

set_option autoImplicit false

/-! # Numbers written and read

A number is read as it was written when nothing behind it continues it (`readNumber_integer`,
`readNumber_real`): an integer with as many digits as the reader takes, and every binary64 number
with its sign.

A record spells a finite number so that the reader takes all of it for one binary64 number: no
zero stands in front of another digit, and there is a fraction or an exponent (`Complete`). -/

namespace IconForge

open Numeral

/-! ## The first digit -/

theorem head_toDigits_ne {n : Nat} (h : n ≠ 0) : ∀ c ∈ (Nat.toDigits 10 n).head?, c ≠ '0' := by
  induction n using Nat.strong_induction_on with
  | _ n ih =>
      by_cases hlt : n < 10
      · have hall : ∀ k < 10, k ≠ 0 → Nat.digitChar k ≠ '0' := by decide
        rw [Nat.toDigits_of_lt_base hlt]
        rintro c ⟨⟩
        exact hall n hlt h
      · have hne : Nat.toDigits 10 (n / 10) ≠ [] := Nat.toDigits_ne_nil
        rw [Nat.toDigits_of_base_le (by decide) (by omega), List.head?_append_of_ne_nil _ hne]
        exact ih (n / 10) (by omega) (by omega)

/-- Digits as the reader wants them in front of the point: a lone zero, or no zero in front. -/
def Leads (digits : List Char) : Prop :=
  digits = ['0'] ∨ ∃ c rest, digits = c :: rest ∧ c ≠ '0'

theorem Leads.ne_nil {digits : List Char} (h : Leads digits) : digits ≠ [] := by
  rcases h with rfl | ⟨c, rest, rfl, -⟩
  · exact List.cons_ne_nil _ _
  · exact List.cons_ne_nil _ _

theorem leads_of_head {digits : List Char} (hne : digits ≠ []) (h : ∀ c ∈ digits.head?, c ≠ '0') :
    Leads digits := by
  obtain ⟨c, rest, rfl⟩ := List.exists_cons_of_ne_nil hne
  exact Or.inr ⟨c, rest, rfl, h c rfl⟩

theorem leads_toDigits (n : Nat) : Leads (Nat.toDigits 10 n) := by
  rcases Nat.eq_zero_or_pos n with rfl | hpos
  · exact Or.inl rfl
  · exact leads_of_head Nat.toDigits_ne_nil (head_toDigits_ne hpos.ne')

namespace Spelling

/-- A spelling that the reader takes for one binary64 number. -/
structure Complete (s : Spelling) : Prop where
  valid : s.Valid
  leads : Leads s.whole
  fraction : s.fraction ≠ some []
  notWhole : s.fraction.isSome ∨ s.exponent.isSome

end Spelling

namespace NumberLayout

/-- Written out in full for a record, digits have a fraction. -/
theorem complete_fullSpelling_record {n : Nat} (h : n ≠ 0) (point : Int) :
    (record.fullSpelling (Nat.toDigits 10 n) point).Complete := by
  have hvalid := valid_fullSpelling record (Nat.toDigits_ne_nil (b := 10) (n := n))
    (fun _ hc => isDigit_of_mem_toDigits hc) point
  have hhead := head_toDigits_ne h
  have hne : Nat.toDigits 10 n ≠ [] := Nat.toDigits_ne_nil
  generalize Nat.toDigits 10 n = digits at hvalid hhead hne
  unfold fullSpelling at hvalid ⊢
  -- The digits stand behind the point, in front of it or on both sides.
  -- The digits stand behind the point, in front of it or on both sides.
  split at hvalid
  · next hpoint =>
    rw [if_pos hpoint]
    exact ⟨hvalid, Or.inl rfl, by simp [hne], Or.inl rfl⟩
  · next hpoint =>
    rw [if_neg hpoint]
    split at hvalid
    · next hlength =>
      rw [if_pos hlength]
      refine ⟨hvalid, leads_of_head hvalid.whole_ne ?_, ?_, Or.inl rfl⟩
      · rw [List.head?_append_of_ne_nil _ hne]
        exact hhead
      · rw [show record.wholeFraction = some ['0'] by decide]
        simp
    · next hlength =>
      rw [if_neg hlength]
      refine ⟨hvalid, leads_of_head hvalid.whole_ne ?_, ?_, Or.inl rfl⟩
      · rw [List.head?_take, if_neg (by omega)]
        exact hhead
      · simp only [ne_eq, Option.some.injEq, List.drop_eq_nil_iff]
        omega

theorem complete_scientificSpelling {n : Nat} (h : n ≠ 0) (layout : NumberLayout) (point : Int) :
    (layout.scientificSpelling (Nat.toDigits 10 n) point).Complete := by
  have hvalid := valid_scientificSpelling layout (Nat.toDigits_ne_nil (b := 10) (n := n))
    (fun _ hc => isDigit_of_mem_toDigits hc) point
  refine ⟨hvalid, leads_of_head hvalid.whole_ne ?_, ?_, Or.inr rfl⟩
  · rw [scientificSpelling, List.head?_take, if_neg Nat.one_ne_zero]
    exact head_toDigits_ne h
  · rw [scientificSpelling]
    dsimp only
    split
    · rintro ⟨⟩
    · next hlength =>
      simp only [ne_eq, Option.some.injEq, List.drop_eq_nil_iff]
      omega

/-- **The text of a finite number in a record is a sign and a complete spelling of just this
number.** -/
theorem exists_complete_of_render (negative : Bool) (m : Magnitude) :
    ∃ s : Spelling, s.Complete ∧
      (record.render (.finite negative m)).toList = (if negative then ['-'] else []) ++ s.text ∧
      (s.decimal negative).toBinary64 = .finite negative m := by
  by_cases hm : m.significand = 0
  · refine ⟨⟨['0'], some ['0'], none⟩, ⟨⟨?_, ?_, ?_, ?_⟩, Or.inl rfl, ?_, Or.inl rfl⟩, ?_, ?_⟩
    · exact List.cons_ne_nil _ _
    · simp
    · simp
    · simp
    · simp
    · simp only [render, hm, if_true, toList_signed, show record.signedZero = true from rfl,
        Bool.and_true]
      rfl
    · -- There is one zero: its scale can be no other.
      have hzero : m = .zero := by
        obtain ⟨significand, scale, hlt, hle, hnormal⟩ := m
        obtain rfl : significand = 0 := hm
        obtain rfl : scale = 0 := hnormal.resolve_right (by decide)
        rfl
      rw [hzero, Decimal.toBinary64_of_digits_eq_zero]
      · rfl
      · exact digitsValue_replicate_zero 2
  · obtain ⟨hdigits, hcontains⟩ := ShortestDigits.contains_of hm
    refine ⟨record.spelling (ShortestDigits.of m), ?_, ?_, ?_⟩
    · rw [spelling]
      split
      · exact complete_fullSpelling_record hdigits _
      · exact complete_scientificSpelling hdigits _ _
    · simp only [render, hm, if_false, toList_signed]
      rw [magnitude_eq_spelling (Or.inr rfl)]
    · exact Decimal.toBinary64_of_contains hm
        (by rw [value_spelling record negative hdigits]; exact hcontains)

end NumberLayout

namespace Json

/-! ## What ends a number -/

/-- What comes behind a value in a text: nothing, a comma or a new line. -/
def Ended (rest : List Char) : Prop :=
  ∀ c ∈ rest.head?, c = ',' ∨ c = '\n'

theorem Ended.not_digit {rest : List Char} (h : Ended rest) :
    ∀ c ∈ rest.head?, c.isDigit = false := by
  intro c hc
  rcases h c hc with rfl | rfl
  · rfl
  · rfl

/-! ## Digits -/

theorem takeDigits_append {digits rest : List Char} (hdigits : ∀ c ∈ digits, c.isDigit)
    (hrest : ∀ c ∈ rest.head?, c.isDigit = false) :
    takeDigits (digits ++ rest) = (digits, rest) := by
  obtain ⟨htake, hdrop⟩ := Text.takeWhile_dropWhile_append hdigits hrest
  rw [takeDigits, htake, hdrop]

theorem digitsValue_eq {digits : List Char} (h : ∀ c ∈ digits, c.isDigit) :
    digitsValue digits = Numeral.digitsValue digits := by
  have hstep : ∀ (value : Nat), ∀ c ∈ digits,
      value * 10 + (c.toNat - '0'.toNat) = value * 10 + (Text.digitValue? c).getD 0 := by
    intro value c hc
    rw [Text.digitValue?_of_isDigit (h c hc), Option.getD_some]
  exact List.foldl_ext _ _ _ hstep

theorem takeWhole?_append {whole rest : List Char} (hleads : Leads whole)
    (hdigits : ∀ c ∈ whole, c.isDigit) (hrest : ∀ c ∈ rest.head?, c.isDigit = false) :
    takeWhole? (whole ++ rest) = some (whole, rest) := by
  rcases hleads with rfl | ⟨c, digits, rfl, hc⟩
  · rfl
  · have htake := takeDigits_append hdigits hrest
    rw [List.cons_append] at htake ⊢
    rw [takeWhole?.eq_2 c _ (fun heq => hc heq), if_pos (hdigits c List.mem_cons_self), htake]

/-! ## Parts behind the digits -/

theorem takeFraction?_of_ne {rest : List Char} (h : ∀ c ∈ rest.head?, c ≠ '.') :
    takeFraction? rest = none := by
  unfold takeFraction?
  split
  · exact absurd rfl (h '.' rfl)
  · rfl

theorem takeExponent?_of_ne {rest : List Char} (h : ∀ c ∈ rest.head?, c ≠ 'e' ∧ c ≠ 'E') :
    takeExponent? rest = none := by
  unfold takeExponent?
  split
  · next c behind =>
    obtain ⟨he, hE⟩ := h c rfl
    rw [if_neg (by simp [he, hE])]
  · rfl

theorem takeFraction?_digits {digits rest : List Char} (hne : digits ≠ [])
    (hdigits : ∀ c ∈ digits, c.isDigit) (hrest : ∀ c ∈ rest.head?, c.isDigit = false) :
    takeFraction? ('.' :: (digits ++ rest)) = some (digits, rest) := by
  have hempty : digits.isEmpty = false := by
    rw [List.isEmpty_eq_false_iff]
    exact hne
  simp only [takeFraction?, takeDigits_append hdigits hrest, hempty, Bool.false_eq_true, if_false]

theorem takeExponent?_digits {negative : Bool} {digits rest : List Char} (hne : digits ≠ [])
    (hdigits : ∀ c ∈ digits, c.isDigit) (hrest : ∀ c ∈ rest.head?, c.isDigit = false) :
    takeExponent? ('e' :: (if negative then '-' else '+') :: (digits ++ rest)) =
      some (integerOfDigits negative digits, rest) := by
  have hempty : digits.isEmpty = false := by
    rw [List.isEmpty_eq_false_iff]
    exact hne
  cases negative with
  | true => simp [takeExponent?, takeDigits_append hdigits hrest, hempty]
  | false => simp [takeExponent?, takeDigits_append hdigits hrest, hempty]

/-! ## Numbers -/

/-- Digits have no sign in front that they do not show. -/
theorem takeMinus_digits (negative : Bool) {whole : List Char} (hne : whole ≠ [])
    (hdigits : ∀ c ∈ whole, c.isDigit) (rest : List Char) :
    takeMinus ((if negative then ['-'] else []) ++ (whole ++ rest)) = (negative, whole ++ rest) := by
  cases negative with
  | true => rfl
  | false =>
      obtain ⟨c, digits, rfl⟩ := List.exists_cons_of_ne_nil hne
      have hc : c ≠ '-' := by
        rintro rfl
        exact absurd (hdigits '-' List.mem_cons_self) (by decide)
      exact takeMinus.eq_2 (c :: (digits ++ rest)) (fun _ heq => hc (List.cons.inj heq).1)

/-- Digits that nothing continues are read as an integer, if they are not too many. -/
theorem readNumber_integer (negative : Bool) {whole rest : List Char} (hleads : Leads whole)
    (hdigits : ∀ c ∈ whole, c.isDigit) (hlength : whole.length ≤ maxDigits)
    (hrest : Ended rest) :
    readNumber ((if negative then ['-'] else []) ++ (whole ++ rest)) =
      .ok (.integer (integerOfDigits negative whole), rest) := by
  have hwhole := takeWhole?_append hleads hdigits hrest.not_digit
  have hfraction : takeFraction? rest = none := by
    refine takeFraction?_of_ne fun c hc => ?_
    rcases hrest c hc with rfl | rfl <;> decide
  have hexponent : takeExponent? rest = none := by
    refine takeExponent?_of_ne fun c hc => ?_
    rcases hrest c hc with rfl | rfl <;> decide
  rw [readNumber, takeMinus_digits negative hleads.ne_nil hdigits]
  simp only [hwhole, hfraction, Option.elim_none, hexponent, if_pos hlength]

theorem head?_fractionText (s : Spelling) {rest : List Char} (hrest : Ended rest) :
    (∀ c ∈ (s.exponentText ++ rest).head?, c.isDigit = false ∧ c ≠ '.') ∧
      ∀ c ∈ (s.fractionText ++ (s.exponentText ++ rest)).head?, c.isDigit = false := by
  have hexponent : ∀ c ∈ (s.exponentText ++ rest).head?, c.isDigit = false ∧ c ≠ '.' := by
    intro c hc
    cases hcase : s.exponent with
    | none =>
        rw [Spelling.exponentText, hcase] at hc
        rcases hrest c hc with rfl | rfl
        · exact ⟨rfl, by decide⟩
        · exact ⟨rfl, by decide⟩
    | some item =>
        rw [Spelling.exponentText, hcase] at hc
        cases hc
        exact ⟨rfl, by decide⟩
  refine ⟨hexponent, fun c hc => ?_⟩
  cases hcase : s.fraction with
  | none =>
      rw [Spelling.fractionText, hcase] at hc
      exact (hexponent c hc).1
  | some digits =>
      rw [Spelling.fractionText, hcase] at hc
      cases hc
      rfl

/-- The fraction of a spelling is taken if there is one. -/
theorem takeFraction?_spelling {s : Spelling} (h : s.Complete) {rest : List Char}
    (hrest : Ended rest) :
    takeFraction? (s.fractionText ++ (s.exponentText ++ rest)) =
      s.fraction.map (·, s.exponentText ++ rest) := by
  obtain ⟨hbehind, -⟩ := head?_fractionText s hrest
  cases hcase : s.fraction with
  | none =>
      rw [Spelling.fractionText, hcase]
      exact takeFraction?_of_ne fun c hc => (hbehind c hc).2
  | some digits =>
      have hne : digits ≠ [] := fun hnil => h.fraction (hnil ▸ hcase)
      rw [Spelling.fractionText, hcase]
      exact takeFraction?_digits hne (h.valid.fraction digits hcase) fun c hc => (hbehind c hc).1

theorem takeExponent?_spelling {s : Spelling} (h : s.Complete) {rest : List Char}
    (hrest : Ended rest) :
    takeExponent? (s.exponentText ++ rest) =
      s.exponent.map fun item => (integerOfDigits item.1 item.2, rest) := by
  cases hcase : s.exponent with
  | none =>
      rw [Spelling.exponentText, hcase]
      refine takeExponent?_of_ne fun c hc => ?_
      rcases hrest c hc with rfl | rfl <;> decide
  | some item =>
      obtain ⟨hne, hdigits⟩ := h.valid.exponent item hcase
      rw [Spelling.exponentText, hcase]
      exact takeExponent?_digits hne hdigits hrest.not_digit

/-- **A spelling that nothing continues is read as the number that it spells.** -/
theorem readNumber_real (negative : Bool) {s : Spelling} (h : s.Complete) {rest : List Char}
    (hrest : Ended rest) :
    readNumber ((if negative then ['-'] else []) ++ (s.text ++ rest)) =
      .ok (.real (s.decimal negative).toBinary64, rest) := by
  have htext : s.text ++ rest = s.whole ++ (s.fractionText ++ (s.exponentText ++ rest)) := by
    rw [Spelling.text, List.append_assoc, List.append_assoc]
  obtain ⟨-, hbehindWhole⟩ := head?_fractionText s hrest
  have hwhole := takeWhole?_append h.leads h.valid.whole hbehindWhole
  have hfraction := takeFraction?_spelling h hrest
  have hexponent := takeExponent?_spelling h hrest
  rw [htext, readNumber, takeMinus_digits negative h.leads.ne_nil h.valid.whole]
  simp only [hwhole, hfraction]
  have hplain : digitsValue s.whole = Numeral.digitsValue s.whole := digitsValue_eq h.valid.whole
  have hvalue : ∀ digits ∈ s.fraction,
      digitsValue (s.whole ++ digits) = Numeral.digitsValue (s.whole ++ digits) := by
    intro digits hdigits
    exact digitsValue_eq (List.forall_mem_append.2 ⟨h.valid.whole, h.valid.fraction digits hdigits⟩)
  have hinteger : ∀ item ∈ s.exponent, integerOfDigits item.1 item.2 = s.exponentValue := by
    intro item hitem
    rw [integerOfDigits, digitsValue_eq (h.valid.exponent item hitem).2, Spelling.exponentValue,
      Option.mem_def.1 hitem]
  -- The reader counts the digits of a fraction, of which there may be none if there is an exponent.
  rw [Spelling.decimal]
  cases hf : s.fraction with
  | none =>
      have hrest : s.fractionText ++ (s.exponentText ++ rest) = s.exponentText ++ rest := by
        rw [Spelling.fractionText, hf, List.nil_append]
      obtain ⟨item, he⟩ : ∃ item, s.exponent = some item := by
        rcases h.notWhole with hsome | hsome
        · rw [hf] at hsome
          cases hsome
        · exact Option.isSome_iff_exists.1 hsome
      rw [hrest, Option.map_none, Option.elim_none, hexponent, he, Option.map_some]
      simp only [Option.getD_none, List.append_nil, List.length_nil, hinteger item he, hplain,
        Nat.cast_zero, Int.sub_zero]
  | some digits =>
      rw [Option.map_some, Option.elim_some, hexponent]
      cases he : s.exponent with
      | none =>
          have hzero : s.exponentValue = 0 := by
            rw [Spelling.exponentValue, he]
          have htail : s.exponentText ++ rest = rest := by
            rw [Spelling.exponentText, he, List.nil_append]
          simp only [Option.map_none, Option.getD_some, hvalue digits hf, hzero, Int.zero_sub,
            htail]
      | some item =>
          simp only [Option.map_some, Option.getD_some, hvalue digits hf, hinteger item he]

/-! ## Integers -/

theorem toList_toString_int (value : Int) :
    (toString value).toList =
      (if decide (value < 0) then ['-'] else []) ++ Nat.toDigits 10 value.natAbs := by
  cases value with
  | ofNat n =>
      rw [decide_eq_false (by simp)]
      exact toList_toString n
  | negSucc n =>
      rw [decide_eq_true (Int.negSucc_lt_zero n)]
      show ("-" ++ toString (n + 1)).toList = _
      rw [String.toList_append, toList_toString]
      rfl

theorem integerOfDigits_toDigits (value : Int) :
    integerOfDigits (decide (value < 0)) (Nat.toDigits 10 value.natAbs) = value := by
  rw [integerOfDigits, digitsValue_eq (fun _ hc => isDigit_of_mem_toDigits hc),
    digitsValue_toDigits]
  split
  · next hneg =>
    rw [decide_eq_true_eq] at hneg
    omega
  · next hneg =>
    rw [decide_eq_true_eq] at hneg
    omega

/-! ## Words -/

theorem readPlain_word {word : String} {value : Json} (h : (word, value) ∈ words)
    (rest : List Char) : readPlain (word.toList ++ rest) = .ok (value, rest) := by
  simp only [words, List.mem_cons, Prod.mk.injEq, List.not_mem_nil, or_false] at h
  rcases h with ⟨rfl, rfl⟩ | ⟨rfl, rfl⟩ | ⟨rfl, rfl⟩ | ⟨rfl, rfl⟩ | ⟨rfl, rfl⟩ | ⟨rfl, rfl⟩ <;> rfl

/-- A number is no word. -/
theorem readPlain_number (negative : Bool) {whole : List Char} (hne : whole ≠ [])
    (hdigits : ∀ c ∈ whole, c.isDigit) (rest : List Char) :
    readPlain ((if negative then ['-'] else []) ++ (whole ++ rest)) =
      readNumber ((if negative then ['-'] else []) ++ (whole ++ rest)) := by
  obtain ⟨c, digits, rfl⟩ := List.exists_cons_of_ne_nil hne
  have hletters : ∀ letter ∈ ['n', 't', 'f', 'N', 'I', '-'], letter.isDigit = false := by simp
  have hc : ∀ letter ∈ ['n', 't', 'f', 'N', 'I', '-'], letter ≠ c := by
    rintro letter hletter rfl
    exact absurd (hdigits letter List.mem_cons_self) (by simp [hletters letter hletter])
  simp only [List.forall_mem_cons, ne_eq] at hc
  obtain ⟨hn, ht, hf, hN, hI, hminus, -⟩ := hc
  have hword : readWord? ((if negative then ['-'] else []) ++ (c :: digits ++ rest)) = none := by
    cases negative with
    | true =>
        simp only [if_true, List.cons_append, List.nil_append]
        simp [readWord?, words, dropWord?, hI]
    | false =>
        simp only [Bool.false_eq_true, if_false, List.cons_append, List.nil_append]
        simp [readWord?, words, dropWord?, hn, ht, hf, hN, hI, hminus]
  rw [readPlain, hword]

end Json

end IconForge
