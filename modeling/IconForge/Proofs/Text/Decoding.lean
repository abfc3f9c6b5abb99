import Mathlib
import IconForge.Text.Utf8

set_option autoImplicit false

/-! # What bytes stand for

What UTF-8 is can be said without a reader. A number is held by one to four bytes, of which the
first says how many there are (`Holds`). A character is spelled by the fewest bytes that hold its
number (`Spells`), and a text by the bytes of its characters one after the other (`IsText`). Since
characters are no surrogates and none is larger than `U+10FFFF`, this leaves out overlong forms,
surrogates and numbers that are too large.

The reader takes exactly the first bytes of a character at a time (`decodeFrom_spells`,
`beginsCharacter_of_decodeFrom`), so it reads exactly the texts (`decode_eq_ok_iff`), and what was
written from characters is read as these characters (`decode_encode`). -/

namespace IconForge.Text.Utf8

/-! ## Numbers in bytes -/

/-- A byte that continues a character. -/
def Continues (b : UInt8) : Prop :=
  0x80 ≤ b.toNat ∧ b.toNat < 0xc0

/-- Bytes that hold a number. The first byte begins with as many ones as there are bytes, but for a
single byte, which begins with a zero. Each of the others adds six bits to the number. -/
inductive Holds : List UInt8 → Nat → Prop where
  | one {a : UInt8} (ha : a.toNat < 0x80) : Holds [a] a.toNat
  | two {a b : UInt8} (ha : 0xc0 ≤ a.toNat ∧ a.toNat < 0xe0) (hb : Continues b) :
      Holds [a, b] ((a.toNat - 0xc0) * 64 + (b.toNat - 0x80))
  | three {a b c : UInt8} (ha : 0xe0 ≤ a.toNat ∧ a.toNat < 0xf0) (hb : Continues b)
      (hc : Continues c) :
      Holds [a, b, c] (((a.toNat - 0xe0) * 64 + (b.toNat - 0x80)) * 64 + (c.toNat - 0x80))
  | four {a b c d : UInt8} (ha : 0xf0 ≤ a.toNat ∧ a.toNat < 0xf8) (hb : Continues b)
      (hc : Continues c) (hd : Continues d) :
      Holds [a, b, c, d]
        ((((a.toNat - 0xf0) * 64 + (b.toNat - 0x80)) * 64 + (c.toNat - 0x80)) * 64 +
          (d.toNat - 0x80))

/-- The bytes of a character: they hold its number, and no fewer bytes do. -/
structure Spells (bytes : List UInt8) (c : Char) : Prop where
  holds : Holds bytes c.toNat
  shortest : ∀ other, Holds other c.toNat → bytes.length ≤ other.length

/-- The bytes of a text: those of its characters. -/
inductive IsText : List UInt8 → List Char → Prop where
  | nil : IsText [] []
  | cons {bytes rest : List UInt8} {c : Char} {cs : List Char} (hfirst : Spells bytes c)
      (hrest : IsText rest cs) : IsText (bytes ++ rest) (c :: cs)

/-- The first number that so many bytes cannot hold. -/
def limit : Nat → Nat
  | 0 => 0
  | 1 => 0x80
  | 2 => 0x800
  | 3 => 0x10000
  | _ + 4 => 0x200000

theorem limit_mono : Monotone limit := by
  refine monotone_nat_of_le_succ fun count => ?_
  match count with
  | 0 => decide
  | 1 => decide
  | 2 => decide
  | 3 => decide
  | _ + 4 => exact le_rfl

theorem Holds.lt_limit {bytes : List UInt8} {value : Nat} (h : Holds bytes value) :
    value < limit bytes.length := by
  cases h with
  | one ha => exact ha
  | two ha hb =>
      obtain ⟨-, hb⟩ := hb
      show _ < 0x800
      omega
  | three ha hb hc =>
      obtain ⟨-, hb⟩ := hb
      obtain ⟨-, hc⟩ := hc
      show _ < 0x10000
      omega
  | four ha hb hc hd =>
      obtain ⟨-, hb⟩ := hb
      obtain ⟨-, hc⟩ := hc
      obtain ⟨-, hd⟩ := hd
      show _ < 0x200000
      omega

theorem Holds.length_pos {bytes : List UInt8} {value : Nat} (h : Holds bytes value) :
    0 < bytes.length := by
  cases h <;> exact Nat.succ_pos _

theorem continues_ofNat {n : Nat} (h : n < 64) : Continues (.ofNat (n + 0x80)) := by
  rw [Continues, UInt8.toNat_ofNat']
  omega

/-- The written bytes of a character hold its number, for which fewer bytes are not enough. -/
theorem holds_utf8EncodeChar (c : Char) : Holds (String.utf8EncodeChar c) c.toNat ∧
    limit ((String.utf8EncodeChar c).length - 1) ≤ c.toNat := by
  have hvalid : c.toNat < 0x110000 := by
    rcases c.valid with h | h
    · exact Nat.lt_trans h (by decide)
    · exact h.2
  have hval : c.val.toNat = c.toNat := rfl
  rw [String.utf8EncodeChar, hval]
  generalize c.toNat = n at hvalid
  -- One case for each number of bytes.
  split_ifs with hone htwo hthree
  · refine ⟨?_, Nat.zero_le n⟩
    have hfirst : (UInt8.ofNat n).toNat = n := by
      rw [UInt8.toNat_ofNat']
      omega
    have hholds : Holds [UInt8.ofNat n] (UInt8.ofNat n).toNat := .one (by omega)
    rwa [hfirst] at hholds
  · refine ⟨?_, show 0x80 ≤ n by omega⟩
    have hholds : Holds [.ofNat (n / 64 % 32 + 192), .ofNat (n % 64 + 128)] _ :=
      .two (by rw [UInt8.toNat_ofNat']; omega) (continues_ofNat (by omega))
    simp only [UInt8.toNat_ofNat'] at hholds
    convert hholds using 1
    omega
  · refine ⟨?_, show 0x800 ≤ n by omega⟩
    have hholds : Holds [.ofNat (n / 4096 % 16 + 224), .ofNat (n / 64 % 64 + 128),
        .ofNat (n % 64 + 128)] _ :=
      .three (by rw [UInt8.toNat_ofNat']; omega) (continues_ofNat (by omega))
        (continues_ofNat (by omega))
    simp only [UInt8.toNat_ofNat'] at hholds
    convert hholds using 1
    omega
  · refine ⟨?_, show 0x10000 ≤ n by omega⟩
    have hholds : Holds [.ofNat (n / 262144 % 8 + 240), .ofNat (n / 4096 % 64 + 128),
        .ofNat (n / 64 % 64 + 128), .ofNat (n % 64 + 128)] _ :=
      .four (by rw [UInt8.toNat_ofNat']; omega) (continues_ofNat (by omega))
        (continues_ofNat (by omega)) (continues_ofNat (by omega))
    simp only [UInt8.toNat_ofNat'] at hholds
    convert hholds using 1
    omega

/-- Bytes with the number of a character are its bytes when fewer could not hold it. -/
theorem spells_iff {bytes : List UInt8} {c : Char} :
    Spells bytes c ↔ Holds bytes c.toNat ∧ limit (bytes.length - 1) ≤ c.toNat := by
  constructor
  · rintro ⟨hholds, hshortest⟩
    obtain ⟨hwritten, hlimit⟩ := holds_utf8EncodeChar c
    have hlength := hshortest _ hwritten
    exact ⟨hholds, (limit_mono (by omega)).trans hlimit⟩
  · rintro ⟨hholds, hlimit⟩
    refine ⟨hholds, fun other hother => ?_⟩
    by_contra hshort
    have hfew : limit other.length ≤ limit (bytes.length - 1) := limit_mono (by omega)
    have hlt := hother.lt_limit
    omega

theorem spells_utf8EncodeChar (c : Char) : Spells (String.utf8EncodeChar c) c :=
  spells_iff.2 (holds_utf8EncodeChar c)

theorem isText_encode (cs : List Char) : IsText (encode cs) cs := by
  induction cs with
  | nil => exact .nil
  | cons c cs ih => exact .cons (spells_utf8EncodeChar c) ih

/-! ## Steps of the reader -/

section Steps

variable {a b first least most : UInt8} {taken due value position : Nat} {done : List Char}
  {rest : List UInt8}

/-- The state after a first byte, by its number. -/
theorem lead?_eq (a : UInt8) : lead? a =
    if 0xc2 ≤ a.toNat ∧ a.toNat < 0xe0 then some (.inside a 1 1 0x80 0xbf (a.toNat - 0xc0))
    else if 0xe0 ≤ a.toNat ∧ a.toNat < 0xf0 then
      some (.inside a 1 2 (if a.toNat = 0xe0 then 0xa0 else 0x80)
        (if a.toNat = 0xed then 0x9f else 0xbf) (a.toNat - 0xe0))
    else if 0xf0 ≤ a.toNat ∧ a.toNat < 0xf5 then
      some (.inside a 1 3 (if a.toNat = 0xf0 then 0x90 else 0x80)
        (if a.toNat = 0xf4 then 0x8f else 0xbf) (a.toNat - 0xf0))
    else none := by
  simp only [lead?, Bool.and_eq_true, decide_eq_true_eq, UInt8.le_iff_toNat_le, ← UInt8.toNat_inj,
    UInt8.reduceToNat]
  -- What is left on the way to a state differs only in how its number is said.
  split_ifs
  all_goals first
    | with_reducible rfl
    | omega
    | simp only [Option.some.injEq, State.inside.injEq, true_and]; omega

theorem lead?_two (h : 0xc2 ≤ a.toNat ∧ a.toNat < 0xe0) :
    lead? a = some (.inside a 1 1 0x80 0xbf (a.toNat - 0xc0)) := by
  rw [lead?_eq, if_pos h]

theorem lead?_three (h : 0xe0 ≤ a.toNat ∧ a.toNat < 0xf0) :
    lead? a = some (.inside a 1 2 (if a.toNat = 0xe0 then 0xa0 else 0x80)
      (if a.toNat = 0xed then 0x9f else 0xbf) (a.toNat - 0xe0)) := by
  rw [lead?_eq, if_neg (by omega), if_pos h]

theorem lead?_four (h : 0xf0 ≤ a.toNat ∧ a.toNat < 0xf5) :
    lead? a = some (.inside a 1 3 (if a.toNat = 0xf0 then 0x90 else 0x80)
      (if a.toNat = 0xf4 then 0x8f else 0xbf) (a.toNat - 0xf0)) := by
  rw [lead?_eq, if_neg (by omega), if_neg (by omega), if_pos h]

theorem range_of_lead? (h : (lead? a).isSome) : 0xc2 ≤ a.toNat ∧ a.toNat < 0xf5 := by
  by_contra hout
  rw [lead?_eq, if_neg (by omega), if_neg (by omega), if_neg (by omega)] at h
  cases h

theorem decodeFrom_single (h : a.toNat < 0x80) :
    decodeFrom .between done position (a :: rest) =
      decodeFrom .between (Char.ofNat a.toNat :: done) (position + 1) rest := by
  rw [decodeFrom, if_pos (UInt8.lt_iff_toNat_lt.2 h)]

theorem decodeFrom_lead {state : State} (h : lead? a = some state) :
    decodeFrom .between done position (a :: rest) = decodeFrom state done (position + 1) rest := by
  obtain ⟨habove, -⟩ := range_of_lead? (by rw [h]; rfl)
  have hnot : ¬ a < 0x80 := fun hlt => by
    have hlow : a.toNat < 0x80 := UInt8.lt_iff_toNat_lt.1 hlt
    omega
  rw [decodeFrom, if_neg hnot, h]

theorem decodeFrom_last (hb : least.toNat ≤ b.toNat ∧ b.toNat ≤ most.toNat) :
    decodeFrom (.inside first taken 1 least most value) done position (b :: rest) =
      decodeFrom .between (Char.ofNat (value * 64 + (b.toNat - 0x80)) :: done) (position + 1)
        rest := by
  rw [decodeFrom, if_pos]
  · rfl
  · rwa [Bool.and_eq_true, decide_eq_true_eq, decide_eq_true_eq, UInt8.le_iff_toNat_le,
      UInt8.le_iff_toNat_le]

theorem decodeFrom_next (hb : least.toNat ≤ b.toNat ∧ b.toNat ≤ most.toNat) :
    decodeFrom (.inside first taken (due + 2) least most value) done position (b :: rest) =
      decodeFrom (.inside first (taken + 1) (due + 1) 0x80 0xbf (value * 64 + (b.toNat - 0x80)))
        done (position + 1) rest := by
  have hmany : ¬ due + 2 ≤ 1 := by omega
  rw [decodeFrom, if_pos]
  · exact if_neg hmany
  · rwa [Bool.and_eq_true, decide_eq_true_eq, decide_eq_true_eq, UInt8.le_iff_toNat_le,
      UInt8.le_iff_toNat_le]

theorem Continues.limits (h : Continues b) :
    (0x80 : UInt8).toNat ≤ b.toNat ∧ b.toNat ≤ (0xbf : UInt8).toNat :=
  ⟨h.1, Nat.le_of_lt_succ h.2⟩

theorem continues_of_limits (h : (0x80 : UInt8).toNat ≤ b.toNat ∧ b.toNat ≤ (0xbf : UInt8).toNat) :
    Continues b :=
  ⟨h.1, Nat.lt_succ_of_le h.2⟩

/-- The limits of the second byte of three shut out overlong forms and surrogates. -/
theorem limits_three_iff : (if a.toNat = 0xe0 then 0xa0 else 0x80 : UInt8).toNat ≤ b.toNat ∧
      b.toNat ≤ (if a.toNat = 0xed then 0x9f else 0xbf : UInt8).toNat ↔
    Continues b ∧ (a.toNat = 0xe0 → 0xa0 ≤ b.toNat) ∧ (a.toNat = 0xed → b.toNat ≤ 0x9f) := by
  rw [Continues, apply_ite UInt8.toNat, apply_ite UInt8.toNat]
  simp only [UInt8.reduceToNat]
  split_ifs <;> omega

/-- The limits of the second byte of four shut out overlong forms and numbers that are too large. -/
theorem limits_four_iff : (if a.toNat = 0xf0 then 0x90 else 0x80 : UInt8).toNat ≤ b.toNat ∧
      b.toNat ≤ (if a.toNat = 0xf4 then 0x8f else 0xbf : UInt8).toNat ↔
    Continues b ∧ (a.toNat = 0xf0 → 0x90 ≤ b.toNat) ∧ (a.toNat = 0xf4 → b.toNat ≤ 0x8f) := by
  rw [Continues, apply_ite UInt8.toNat, apply_ite UInt8.toNat]
  simp only [UInt8.reduceToNat]
  split_ifs <;> omega

/-- Inside a character, a byte between the limits has to follow. -/
theorem exists_of_decodeFrom_inside {bytes : List UInt8} {cs : List Char}
    (h : decodeFrom (.inside first taken due least most value) done position bytes = .ok cs) :
    ∃ b rest, bytes = b :: rest ∧ least.toNat ≤ b.toNat ∧ b.toNat ≤ most.toNat := by
  cases bytes with
  | nil => cases h
  | cons b rest =>
      rw [decodeFrom] at h
      split at h
      · next hlimits =>
        rw [Bool.and_eq_true, decide_eq_true_eq, decide_eq_true_eq, UInt8.le_iff_toNat_le,
          UInt8.le_iff_toNat_le] at hlimits
        exact ⟨b, rest, rfl, hlimits⟩
      · cases h

end Steps

/-! ## Characters -/

/-- **The reader takes the bytes of a character.** -/
theorem decodeFrom_spells {bytes : List UInt8} {c : Char} (h : Spells bytes c) (done : List Char)
    (position : Nat) (rest : List UInt8) :
    decodeFrom .between done position (bytes ++ rest) =
      decodeFrom .between (c :: done) (position + bytes.length) rest := by
  obtain ⟨hholds, hlimit⟩ := spells_iff.1 h
  have hvalid : c.toNat < 0xd800 ∨ 0xdfff < c.toNat ∧ c.toNat < 0x110000 := c.valid
  have hchar : Char.ofNat c.toNat = c := Char.ofNat_toNat c
  generalize c.toNat = n at hholds hlimit hvalid hchar
  -- After a lead, each byte has to be between limits, which depend on the lead for the first only.
  cases hholds with
  | one ha =>
      rw [List.singleton_append, decodeFrom_single ha, hchar]
      rfl
  | @two a b ha hb =>
      have hlimit : 0x80 ≤ (a.toNat - 0xc0) * 64 + (b.toNat - 0x80) := hlimit
      have hb' := hb.2
      rw [List.cons_append, List.singleton_append, decodeFrom_lead (lead?_two (by omega)),
        decodeFrom_last hb.limits, hchar]
      rfl
  | @three a b d ha hb hd =>
      have hlimit : 0x800 ≤ ((a.toNat - 0xe0) * 64 + (b.toNat - 0x80)) * 64 + (d.toNat - 0x80) :=
        hlimit
      have hb' := hb.2
      have hd' := hd.2
      rw [List.cons_append, List.cons_append, List.singleton_append,
        decodeFrom_lead (lead?_three (by omega)),
        decodeFrom_next (limits_three_iff.2 ⟨hb, by omega, by omega⟩), decodeFrom_last hd.limits,
        hchar]
      rfl
  | @four a b d e ha hb hd he =>
      have hlimit : 0x10000 ≤ (((a.toNat - 0xf0) * 64 + (b.toNat - 0x80)) * 64 +
          (d.toNat - 0x80)) * 64 + (e.toNat - 0x80) := hlimit
      have hb' := hb.2
      have hd' := hd.2
      have he' := he.2
      rw [List.cons_append, List.cons_append, List.cons_append, List.singleton_append,
        decodeFrom_lead (lead?_four (by omega)),
        decodeFrom_next (limits_four_iff.2 ⟨hb, by omega, by omega⟩), decodeFrom_next hd.limits,
        decodeFrom_last he.limits, hchar]
      rfl

theorem spells_ofNat {bytes : List UInt8} {value : Nat} (h : Holds bytes value)
    (hlimit : limit (bytes.length - 1) ≤ value)
    (hvalid : value < 0xd800 ∨ 0xdfff < value ∧ value < 0x110000) :
    Spells bytes (Char.ofNat value) := by
  have hvalue : (Char.ofNat value).toNat = value := by
    rw [Char.toNat_ofNat, if_pos hvalid]
  exact spells_iff.2 (by rw [hvalue]; exact ⟨h, hlimit⟩)

/-- Whether bytes begin with those of a character. -/
def BeginsCharacter (bytes : List UInt8) : Prop :=
  ∃ front c rest, bytes = front ++ rest ∧ Spells front c

section Reading

variable {a : UInt8} {rest : List UInt8} {done cs : List Char} {position : Nat}

theorem beginsCharacter_two (ha : 0xc2 ≤ a.toNat ∧ a.toNat < 0xe0)
    (h : decodeFrom .between done position (a :: rest) = .ok cs) : BeginsCharacter (a :: rest) := by
  rw [decodeFrom_lead (lead?_two ha)] at h
  obtain ⟨b, tail, rfl, hlimits⟩ := exists_of_decodeFrom_inside h
  have hb := continues_of_limits hlimits
  have hb' := hb.2
  have hlimit : 0x80 ≤ (a.toNat - 0xc0) * 64 + (b.toNat - 0x80) := by omega
  exact ⟨[a, b], _, tail, rfl, spells_ofNat (.two (by omega) hb) hlimit (by omega)⟩

theorem beginsCharacter_three (ha : 0xe0 ≤ a.toNat ∧ a.toNat < 0xf0)
    (h : decodeFrom .between done position (a :: rest) = .ok cs) : BeginsCharacter (a :: rest) := by
  rw [decodeFrom_lead (lead?_three ha)] at h
  obtain ⟨b, rest, rfl, hlimits⟩ := exists_of_decodeFrom_inside h
  rw [decodeFrom_next hlimits] at h
  obtain ⟨hb, hshort, hsurrogate⟩ := limits_three_iff.1 hlimits
  obtain ⟨d, tail, rfl, hlimits⟩ := exists_of_decodeFrom_inside h
  have hd := continues_of_limits hlimits
  have hb' := hb.2
  have hd' := hd.2
  have hlimit : 0x800 ≤ ((a.toNat - 0xe0) * 64 + (b.toNat - 0x80)) * 64 + (d.toNat - 0x80) := by
    omega
  exact ⟨[a, b, d], _, tail, rfl, spells_ofNat (.three ha hb hd) hlimit (by omega)⟩

theorem beginsCharacter_four (ha : 0xf0 ≤ a.toNat ∧ a.toNat < 0xf5)
    (h : decodeFrom .between done position (a :: rest) = .ok cs) : BeginsCharacter (a :: rest) := by
  rw [decodeFrom_lead (lead?_four ha)] at h
  obtain ⟨b, rest, rfl, hlimits⟩ := exists_of_decodeFrom_inside h
  rw [decodeFrom_next hlimits] at h
  obtain ⟨hb, hshort, hlarge⟩ := limits_four_iff.1 hlimits
  obtain ⟨d, rest, rfl, hlimits⟩ := exists_of_decodeFrom_inside h
  rw [decodeFrom_next hlimits] at h
  have hd := continues_of_limits hlimits
  obtain ⟨e, tail, rfl, hlimits⟩ := exists_of_decodeFrom_inside h
  have he := continues_of_limits hlimits
  have hb' := hb.2
  have hd' := hd.2
  have he' := he.2
  have hlimit : 0x10000 ≤ (((a.toNat - 0xf0) * 64 + (b.toNat - 0x80)) * 64 +
      (d.toNat - 0x80)) * 64 + (e.toNat - 0x80) := by
    omega
  exact ⟨[a, b, d, e], _, tail, rfl, spells_ofNat (.four (by omega) hb hd he) hlimit (by omega)⟩

/-- **What is read begins with the bytes of a character.** -/
theorem beginsCharacter_of_decodeFrom (h : decodeFrom .between done position (a :: rest) = .ok cs) :
    BeginsCharacter (a :: rest) := by
  by_cases hsingle : a.toNat < 0x80
  · exact ⟨[a], _, rest, rfl, spells_ofNat (.one hsingle) (Nat.zero_le _) (by omega)⟩
  · have hlead : (lead? a).isSome := by
      have hnot : ¬ a < 0x80 := fun hlt => hsingle (UInt8.lt_iff_toNat_lt.1 hlt)
      rw [decodeFrom, if_neg hnot] at h
      cases hstate : lead? a with
      | none =>
          rw [hstate] at h
          cases h
      | some state => rfl
    obtain ⟨hlow, hhigh⟩ := range_of_lead? hlead
    by_cases htwo : a.toNat < 0xe0
    · exact beginsCharacter_two ⟨hlow, htwo⟩ h
    · by_cases hthree : a.toNat < 0xf0
      · exact beginsCharacter_three ⟨by omega, hthree⟩ h
      · exact beginsCharacter_four ⟨by omega, hhigh⟩ h

end Reading

/-! ## Texts -/

theorem decodeFrom_text {bytes : List UInt8} {cs : List Char} (h : IsText bytes cs)
    (done : List Char) (position : Nat) :
    decodeFrom .between done position bytes = .ok (done.reverse ++ cs) := by
  induction h generalizing done position with
  | nil => rw [decodeFrom, List.append_nil]
  | cons hfirst hrest ih =>
      rw [decodeFrom_spells hfirst, ih, List.reverse_cons, List.append_assoc,
        List.singleton_append]

theorem isText_of_decodeFrom {bytes : List UInt8} {done cs : List Char} {position : Nat}
    (h : decodeFrom .between done position bytes = .ok cs) :
    ∃ more, cs = done.reverse ++ more ∧ IsText bytes more := by
  -- Every character takes at least one byte away.
  induction hlength : bytes.length using Nat.strong_induction_on
    generalizing bytes done position with
  | _ length ih =>
      cases bytes with
      | nil =>
          rw [decodeFrom] at h
          cases h
          exact ⟨[], (List.append_nil _).symm, .nil⟩
      | cons a rest =>
          obtain ⟨front, c, tail, heq, hspells⟩ := beginsCharacter_of_decodeFrom h
          rw [heq, decodeFrom_spells hspells] at h
          have hpos := hspells.holds.length_pos
          have hshorter : tail.length < length := by
            rw [← hlength, heq, List.length_append]
            omega
          obtain ⟨more, rfl, htail⟩ := ih tail.length hshorter h rfl
          refine ⟨c :: more, ?_, heq ▸ .cons hspells htail⟩
          rw [List.reverse_cons, List.append_assoc, List.singleton_append]

/-- **Exactly the bytes of texts are read**, and as these texts. -/
theorem decode_eq_ok_iff {bytes : List UInt8} {cs : List Char} :
    decode bytes = .ok cs ↔ IsText bytes cs := by
  constructor
  · intro h
    obtain ⟨more, rfl, htext⟩ := isText_of_decodeFrom h
    exact htext
  · intro h
    exact decodeFrom_text h [] 0

theorem decode_encode (cs : List Char) : decode (encode cs) = .ok cs :=
  decode_eq_ok_iff.2 (isText_encode cs)

end IconForge.Text.Utf8
