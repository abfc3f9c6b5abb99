import Mathlib
import IconForge.Text.Encoding

set_option autoImplicit false

/-! # The spelling of names

A name with escaped bytes is spelled anew from its bytes, which may join into characters. An ending
in ASCII is not made that way: a character of more than one byte lies above ASCII, so what a spelled
name ends with in ASCII, the name itself ends with (`suffix_of_suffix_spellName`). -/

namespace IconForge.Text

/-! ## Decoded characters -/

namespace Utf8

/-- The least number that a character can have of which bits were read and more bytes are due. -/
def lowest (due : Nat) (least : UInt8) (value : Nat) : Nat :=
  (value * 64 + (least.toNat - 0x80)) * 64 ^ (due - 1)

/-- The first number behind those that such a character can have. -/
def behindHighest (due : Nat) (most : UInt8) (value : Nat) : Nat :=
  (value * 64 + (most.toNat - 0x80) + 1) * 64 ^ (due - 1)

/-- What the decoder knows inside a character: the bytes that are due make it a character above
ASCII, and no number that is none. -/
structure Awaits (due : Nat) (least most : UInt8) (value : Nat) : Prop where
  due_pos : 0 < due
  least_ge : 0x80 ≤ least.toNat
  above_ascii : 0x80 ≤ lowest due least value
  valid : behindHighest due most value ≤ 0xd800 ∨
    0xe000 ≤ lowest due least value ∧ behindHighest due most value ≤ 0x110000

/-- A first byte that needs more bytes leads into a character. -/
theorem exists_inside_of_lead? {b : UInt8} {state : State} (h : lead? b = some state) :
    ∃ taken due least most value, state = .inside b taken due least most value ∧
      Awaits due least most value := by
  rw [lead?] at h
  simp only [Bool.and_eq_true, decide_eq_true_eq, UInt8.le_iff_toNat_le, ← UInt8.toNat_inj,
    UInt8.reduceToNat] at h
  split_ifs at h
  all_goals
    cases h
    refine ⟨_, _, _, _, _, rfl, ?_⟩
    constructor
    · decide
    · decide
    · simp only [lowest, UInt8.reduceToNat, Nat.reduceSub, Nat.reducePow]
      omega
    · simp only [lowest, behindHighest, UInt8.reduceToNat, Nat.reduceSub, Nat.reducePow]
      omega

/-- One more byte keeps a character between the limits. -/
theorem Awaits.next {due : Nat} {least most b : UInt8} {value : Nat} (h : Awaits due least most value)
    (hleast : least.toNat ≤ b.toNat) (hmost : b.toNat ≤ most.toNat) (hdue : 1 < due) :
    Awaits (due - 1) 0x80 0xbf (value * 64 + (b.toNat - 0x80)) := by
  obtain ⟨more, rfl⟩ : ∃ more, due = more + 2 := ⟨due - 2, by omega⟩
  have hpow : (64 : Nat) ^ (more + 1) = 64 * 64 ^ more := by rw [Nat.pow_succ, Nat.mul_comm]
  obtain ⟨-, hge, habove, hvalid⟩ := h
  simp only [lowest, behindHighest, show more + 2 - 1 = more + 1 by omega,
    hpow] at habove hvalid
  have hlow : (value * 64 + (least.toNat - 0x80)) * (64 * 64 ^ more) ≤
      (value * 64 + (b.toNat - 0x80)) * 64 * 64 ^ more := by
    rw [Nat.mul_assoc]
    exact Nat.mul_le_mul_right _ (by omega)
  have hhigh : ((value * 64 + (b.toNat - 0x80)) * 64 + 63 + 1) * 64 ^ more ≤
      (value * 64 + (most.toNat - 0x80) + 1) * (64 * 64 ^ more) := by
    rw [← Nat.mul_assoc]
    exact Nat.mul_le_mul_right _ (by omega)
  constructor
  · omega
  · decide
  · simp only [lowest, UInt8.reduceToNat, Nat.sub_self, Nat.add_zero,
      show more + 2 - 1 - 1 = more by omega]
    omega
  · simp only [lowest, behindHighest, UInt8.reduceToNat, Nat.reduceSub, Nat.add_zero,
      show more + 2 - 1 - 1 = more by omega]
    omega

/-- The last byte makes a character above ASCII. -/
theorem Awaits.last {least most b : UInt8} {value : Nat} (h : Awaits 1 least most value)
    (hleast : least.toNat ≤ b.toNat) (hmost : b.toNat ≤ most.toNat) :
    0x80 ≤ (Char.ofNat (value * 64 + (b.toNat - 0x80))).toNat := by
  obtain ⟨-, hge, habove, hvalid⟩ := h
  simp only [lowest, behindHighest, Nat.sub_self, Nat.pow_zero, Nat.mul_one] at habove hvalid
  have hchar : (value * 64 + (b.toNat - 0x80)).isValidChar := by
    rw [Nat.isValidChar]
    omega
  rw [Char.toNat_ofNat, if_pos hchar]
  omega

theorem decodeFrom_isPrefix {bytes : List UInt8} {state : State} {done cs : List Char}
    {position : Nat} (h : decodeFrom state done position bytes = .ok cs) :
    done.reverse <+: cs := by
  induction bytes generalizing state done position with
  | nil =>
      cases state with
      | between =>
          rw [decodeFrom] at h
          cases h
          exact List.prefix_rfl
      | inside first taken due least most value => cases h
  | cons b rest ih =>
      have hmore : ∀ c : Char, (c :: done).reverse <+: cs → done.reverse <+: cs := by
        intro c hc
        rw [List.reverse_cons] at hc
        exact (List.prefix_append _ _).trans hc
      cases state with
      | between =>
          rw [decodeFrom] at h
          split at h
          · exact hmore _ (ih h)
          · split at h
            · exact ih h
            · cases h
      | inside first taken due least most value =>
          rw [decodeFrom] at h
          split at h
          · simp only at h
            split at h
            · exact hmore _ (ih h)
            · exact ih h
          · cases h

/-- A character of more than one byte lies above ASCII. -/
theorem above_ascii_of_decodeFrom {bytes : List UInt8} {first least most : UInt8}
    {taken due value position : Nat} {c : Char} (hawaits : Awaits due least most value)
    (h : decodeFrom (.inside first taken due least most value) [] position bytes = .ok [c]) :
    0x80 ≤ c.toNat := by
  induction bytes generalizing taken due least most value position with
  | nil => cases h
  | cons b rest ih =>
      rw [decodeFrom] at h
      split at h
      · next hlimits =>
        simp only [Bool.and_eq_true, decide_eq_true_eq, UInt8.le_iff_toNat_le] at hlimits
        simp only at h
        split at h
        · next hdue =>
          obtain rfl : due = 1 := by
            have := hawaits.due_pos
            omega
          have hstays := decodeFrom_isPrefix h
          rw [List.reverse_singleton, List.cons_prefix_cons] at hstays
          rw [← hstays.1]
          exact hawaits.last hlimits.1 hlimits.2
        · next hdue => exact ih (hawaits.next hlimits.1 hlimits.2 (by omega)) h
      · cases h

/-- A single character is the first byte, or it lies above ASCII, as that byte does. -/
theorem eq_or_above_ascii_of_decode {b : UInt8} {rest : List UInt8} {c : Char}
    (h : decode (b :: rest) = .ok [c]) :
    (b.toNat < 0x80 ∧ c = Char.ofNat b.toNat) ∨ (0x80 ≤ b.toNat ∧ 0x80 ≤ c.toNat) := by
  rw [decode, decodeFrom] at h
  split at h
  · next hascii =>
    have hstays := decodeFrom_isPrefix h
    rw [List.reverse_singleton, List.cons_prefix_cons] at hstays
    exact Or.inl ⟨UInt8.lt_iff_toNat_lt.1 hascii, hstays.1.symm⟩
  · next habove =>
    have hb : 0x80 ≤ b.toNat := Nat.not_lt.1 fun hlt => habove (UInt8.lt_iff_toNat_lt.2 hlt)
    split at h
    · next state hlead =>
      obtain ⟨taken, due, least, most, value, rfl, hawaits⟩ := exists_inside_of_lead? hlead
      exact Or.inr ⟨hb, above_ascii_of_decodeFrom hawaits h⟩
    · cases h

end Utf8

namespace Encoding

open Utf8

/-! ## Names of bytes -/

/-- The byte of a character in ASCII. -/
def asciiByte (c : Char) : UInt8 :=
  UInt8.ofNat c.toNat

theorem asciiByte_ofNat (b : UInt8) (h : b.toNat < 0x80) : asciiByte (Char.ofNat b.toNat) = b := by
  rw [asciiByte, Char.toNat_ofNat, if_pos (Or.inl (by omega)), UInt8.ofNat_toNat]

theorem frontCharacter?_of_lt {b : UInt8} (hb : b.toNat < 0x80) (rest : List UInt8) :
    frontCharacter? (b :: rest) = some (Char.ofNat b.toNat, 1) := by
  have hdecode : decode ((b :: rest).take 1) = .ok [Char.ofNat b.toNat] := by
    rw [List.take_succ_cons, List.take_zero, decode, decodeFrom,
      if_pos (UInt8.lt_iff_toNat_lt.2 hb), decodeFrom]
    rfl
  rw [frontCharacter?, List.findSome?_cons, hdecode]

theorem frontCharacter?_ascii {b : UInt8} {rest : List UInt8} {c : Char} {count : Nat}
    (hc : c.toNat < 0x80) (h : frontCharacter? (b :: rest) = some (c, count)) :
    b = asciiByte c ∧ count = 1 := by
  by_cases hb : b.toNat < 0x80
  · rw [frontCharacter?_of_lt hb, Option.some.injEq, Prod.mk.injEq] at h
    rw [← h.1, asciiByte_ofNat b hb]
    exact ⟨rfl, h.2.symm⟩
  · exfalso
    rw [frontCharacter?] at h
    obtain ⟨k, hk, hfound⟩ := List.exists_of_findSome?_eq_some h
    split at hfound
    · next found hdecode =>
      cases hfound
      obtain ⟨more, rfl⟩ : ∃ more, count = more + 1 := by
        refine Nat.exists_eq_add_one.2 (Nat.pos_of_ne_zero ?_)
        intro hzero
        rw [hzero] at hk
        exact absurd hk (by decide)
      rw [List.take_succ_cons] at hdecode
      rcases eq_or_above_ascii_of_decode hdecode with ⟨hlt, -⟩ | ⟨-, habove⟩
      · exact hb hlt
      · omega
    · cases hfound

theorem eq_of_nameOfBytes_eq {cs : List Char} (hascii : ∀ c ∈ cs, c.toNat < 0x80)
    {bytes : List UInt8} (h : nameOfBytes bytes = CodeText.ofChars cs) :
    bytes = cs.map asciiByte := by
  induction cs generalizing bytes with
  | nil =>
      cases bytes with
      | nil => rfl
      | cons b rest =>
          rw [nameOfBytes] at h
          split at h
          · cases h
          · cases h
  | cons c cs ih =>
      cases bytes with
      | nil =>
          rw [nameOfBytes] at h
          cases h
      | cons b rest =>
          rw [nameOfBytes] at h
          split at h
          · next first count hfront =>
            obtain ⟨hfirst, hrest⟩ := List.cons.inj h
            cases hfirst
            obtain ⟨rfl, rfl⟩ := frontCharacter?_ascii (hascii c List.mem_cons_self) hfront
            rw [List.map_cons, ← ih (fun d hd => hascii d (List.mem_cons_of_mem _ hd)) hrest]
            rfl
          · cases h

theorem suffix_of_suffix_nameOfBytes {cs : List Char} (hascii : ∀ c ∈ cs, c.toNat < 0x80)
    {bytes : List UInt8} (h : CodeText.ofChars cs <:+ nameOfBytes bytes) :
    cs.map asciiByte <:+ bytes := by
  have hwhole : ∀ bytes, CodeText.ofChars cs = nameOfBytes bytes → cs.map asciiByte <:+ bytes :=
    fun bytes heq => eq_of_nameOfBytes_eq hascii heq.symm ▸ List.suffix_rfl
  induction bytes using nameOfBytes.induct with
  | case1 =>
      rw [nameOfBytes] at h
      exact hwhole [] (by rw [nameOfBytes]; exact List.suffix_nil.1 h)
  | case2 b rest c count hfront ih =>
      have hname : nameOfBytes (b :: rest) = .char c :: nameOfBytes (rest.drop (count - 1)) := by
        rw [nameOfBytes, hfront]
      rw [hname, List.suffix_cons_iff, ← hname] at h
      rcases h with hall | htail
      · exact hwhole _ hall
      · exact (ih htail).trans ((List.drop_suffix _ _).trans (List.suffix_cons b rest))
  | case3 b rest hfront ih =>
      have hname : nameOfBytes (b :: rest) = escapeByte b :: nameOfBytes rest := by
        rw [nameOfBytes, hfront]
      rw [hname, List.suffix_cons_iff, ← hname] at h
      rcases h with hall | htail
      · exact hwhole _ hall
      · exact (ih htail).trans (List.suffix_cons b rest)

/-! ## Bytes of names -/

theorem above_ascii_of_mem_utf8EncodeChar {c : Char} {b : UInt8} (hc : 0x80 ≤ c.toNat)
    (h : b ∈ String.utf8EncodeChar c) : 0x80 ≤ b.toNat := by
  have hval : c.val.toNat = c.toNat := rfl
  rw [String.utf8EncodeChar, hval] at h
  split_ifs at h with h₁ h₂ h₃
  · omega
  · simp only [List.mem_cons, List.not_mem_nil, or_false] at h
    rcases h with rfl | rfl
    all_goals
      rw [UInt8.toNat_ofNat']
      omega
  · simp only [List.mem_cons, List.not_mem_nil, or_false] at h
    rcases h with rfl | rfl | rfl
    all_goals
      rw [UInt8.toNat_ofNat']
      omega
  · simp only [List.mem_cons, List.not_mem_nil, or_false] at h
    rcases h with rfl | rfl | rfl | rfl
    all_goals
      rw [UInt8.toNat_ofNat']
      omega

/-- A byte in ASCII is the only one of its character. -/
theorem exists_char_of_mem_pointBytes {point : CodePoint} {b : UInt8} (hb : b.toNat < 0x80)
    (h : b ∈ pointBytes point) :
    ∃ c : Char, point = .char c ∧ c.toNat < 0x80 ∧ pointBytes point = [asciiByte c] ∧
      b = asciiByte c := by
  cases point with
  | char c =>
      have hc : c.toNat < 0x80 := by
        by_contra habove
        have := above_ascii_of_mem_utf8EncodeChar (by omega) h
        omega
      have hbytes : pointBytes (.char c) = [asciiByte c] :=
        if_pos (show c.toNat ≤ 127 by omega)
      rw [hbytes, List.mem_singleton] at h
      exact ⟨c, rfl, hc, hbytes, h⟩
  | surrogate half =>
      exfalso
      rw [pointBytes, Option.mem_toList, escapedByte?] at h
      split_ifs at h with hrange
      · rw [Option.some.injEq] at h
        rw [← h, Nat.toUInt8, UInt8.toNat_ofNat'] at hb
        omega

theorem asciiByte_injective {c d : Char} (hc : c.toNat < 0x80) (hd : d.toNat < 0x80)
    (h : asciiByte c = asciiByte d) : c = d := by
  have hnat := congrArg UInt8.toNat h
  rw [asciiByte, asciiByte, UInt8.toNat_ofNat', UInt8.toNat_ofNat'] at hnat
  rw [← Char.toNat_inj]
  omega

theorem toNat_asciiByte_lt {c : Char} (hc : c.toNat < 0x80) : (asciiByte c).toNat < 0x80 := by
  rw [asciiByte, UInt8.toNat_ofNat']
  omega

/-- What the bytes of a name end with in ASCII, the name ends with, when all of its code points have
bytes. -/
theorem suffix_of_suffix_pointBytes {cs : List Char} (hascii : ∀ c ∈ cs, c.toNat < 0x80)
    {name : CodeText} (hbytes : ∀ point ∈ name, pointBytes point ≠ [])
    (h : cs.map asciiByte <:+ name.flatMap pointBytes) : CodeText.ofChars cs <:+ name := by
  -- From the end: the last byte is the one of the last code point.
  induction cs using List.reverseRecOn generalizing name with
  | nil => exact List.nil_suffix
  | append_singleton cs c ih =>
      have hc : c.toNat < 0x80 := hascii c (by simp)
      rw [List.map_append, List.map_singleton] at h
      rcases List.eq_nil_or_concat name with rfl | ⟨front, point, rfl⟩
      · rw [List.flatMap_nil, List.suffix_nil] at h
        exact absurd h (List.append_ne_nil_of_right_ne_nil _ (List.cons_ne_nil _ _))
      · rw [List.concat_eq_append] at h hbytes ⊢
        obtain ⟨bytes, b, hpoint⟩ := (List.eq_nil_or_concat (pointBytes point)).resolve_left
          (hbytes point (by simp))
        rw [List.concat_eq_append] at hpoint
        rw [List.flatMap_append, List.flatMap_singleton, hpoint, ← List.append_assoc,
          List.suffix_concat_iff] at h
        rcases h with hnil | ⟨before, hbefore, hsuffix⟩
        · exact absurd hnil (List.append_ne_nil_of_right_ne_nil _ (List.cons_ne_nil _ _))
        obtain ⟨rfl, hlast⟩ := List.append_inj' hbefore rfl
        obtain rfl := List.singleton_inj.1 hlast
        have hmem : asciiByte c ∈ pointBytes point := by
          rw [hpoint]
          exact List.mem_concat_self
        obtain ⟨d, rfl, hd, hbytes', hsame⟩ := exists_char_of_mem_pointBytes
          (toNat_asciiByte_lt hc) hmem
        obtain rfl := asciiByte_injective hc hd hsame
        obtain rfl : bytes = [] := by
          rw [hbytes', ← List.nil_append [asciiByte c]] at hpoint
          exact (List.append_inj' hpoint rfl).1.symm
        rw [List.append_nil] at hsuffix
        have hfront := ih (fun e he => hascii e (List.mem_append_left _ he))
          (fun other hother => hbytes other (List.mem_append_left _ hother)) hsuffix
        obtain ⟨lead, hlead⟩ := hfront
        refine ⟨lead, ?_⟩
        rw [← hlead, CodeText.ofChars, List.map_append, List.append_assoc]
        rfl

/-- **A name is spelled with no other ending in ASCII than it has.** -/
theorem suffix_of_suffix_spellName {cs : List Char} (hascii : ∀ c ∈ cs, c.toNat < 0x80)
    {name : CodeText} (hbytes : ∀ point ∈ name, pointBytes point ≠ [])
    (h : CodeText.ofChars cs <:+ spellName name) : CodeText.ofChars cs <:+ name := by
  rw [spellName] at h
  split at h
  · exact suffix_of_suffix_pointBytes hascii hbytes (suffix_of_suffix_nameOfBytes hascii h)
  · exact h

/-- **Only a name in ASCII itself is spelled in ASCII.** -/
theorem eq_of_spellName_eq {cs : List Char} (hascii : ∀ c ∈ cs, c.toNat < 0x80)
    {name : CodeText} (hbytes : ∀ point ∈ name, pointBytes point ≠ [])
    (h : spellName name = CodeText.ofChars cs) : name = CodeText.ofChars cs := by
  obtain ⟨front, hfront⟩ := suffix_of_suffix_spellName hascii hbytes (h ▸ List.suffix_rfl)
  rw [spellName] at h
  split at h
  · -- There are no more code points than bytes, so there is no room for more in front.
    have hlength : (name.flatMap pointBytes).length = cs.length := by
      rw [eq_of_nameOfBytes_eq hascii h, List.length_map]
    have hle : name.length ≤ (name.flatMap pointBytes).length := by
      rw [List.length_flatMap]
      refine (List.length_le_sum_of_one_le _ ?_).trans_eq' (List.length_map _)
      intro count hcount
      obtain ⟨point, hpoint, rfl⟩ := List.mem_map.1 hcount
      exact List.length_pos_iff.2 (hbytes point hpoint)
    have hnil : front = [] := by
      rw [hlength, ← hfront, List.length_append, CodeText.ofChars, List.length_map] at hle
      rw [← List.length_eq_zero_iff]
      omega
    rw [← hfront, hnil, List.nil_append]
  · exact h

/-- In a text without a fault every code point has bytes. -/
theorem pointBytes_ne_nil {use : Use} {text : CodeText} {position : Nat}
    (h : faultFrom? use position text = none) : ∀ point ∈ text, pointBytes point ≠ [] := by
  induction text generalizing position with
  | nil => simp
  | cons first text ih =>
      intro point hpoint
      cases first with
      | char c =>
          rw [faultFrom?] at h
          rcases List.mem_cons.1 hpoint with rfl | hrest
          · exact String.utf8EncodeChar_ne_nil
          · exact ih h point hrest
      | surrogate half =>
          rw [faultFrom?] at h
          split_ifs at h with hallowed
          rcases List.mem_cons.1 hpoint with rfl | hrest
          · cases use with
            | content => cases hallowed
            | name =>
                obtain ⟨b, hb⟩ := Option.isSome_iff_exists.1 hallowed
                rw [pointBytes, hb]
                exact List.cons_ne_nil b []
          · exact ih h point hrest

/-! ## Texts without a fault -/

/-- A text has no fault when each of its surrogates has a byte. -/
theorem faultFrom?_eq_none_iff {use : Use} {text : CodeText} {position : Nat} :
    faultFrom? use position text = none ↔ ∀ half, .surrogate half ∈ text → use.allows half := by
  induction text generalizing position with
  | nil => simp [faultFrom?]
  | cons first text ih =>
      cases first with
      | char c => simp [faultFrom?, ih]
      | surrogate other =>
          rw [faultFrom?]
          by_cases hallows : use.allows other
          · simp [hallows, ih]
          · simp [hallows]

/-- The surrogates in the name of bytes have these bytes. -/
theorem allows_of_mem_nameOfBytes {bytes : List UInt8} {half : Surrogate}
    (h : .surrogate half ∈ nameOfBytes bytes) : Use.name.allows half := by
  induction bytes using nameOfBytes.induct with
  | case1 =>
      rw [nameOfBytes] at h
      cases h
  | case2 b rest c count hfront ih =>
      rw [nameOfBytes, hfront] at h
      exact ih (by simpa using h)
  | case3 b rest hfront ih =>
      rw [nameOfBytes, hfront] at h
      rcases List.mem_cons.1 h with hhalf | hrest
      · -- The byte is not in ASCII, since no character begins with it.
        have hb : 0x80 ≤ b.toNat := by
          refine Nat.le_of_not_lt fun hlt => ?_
          rw [frontCharacter?_of_lt hlt] at hfront
          cases hfront
        have hlt := b.toNat_lt
        have hnumber : half.toNat = 0xdc00 + b.toNat := by
          rw [escapeByte, CodePoint.surrogate.injEq] at hhalf
          rw [hhalf]
        rw [Use.allows, escapedByte?, if_pos (by omega)]
        rfl
      · exact ih hrest

theorem allows_of_spelled {name : CodeText} (h : spellName name = name) {half : Surrogate}
    (hmem : .surrogate half ∈ name) : Use.name.allows half := by
  rw [spellName, if_pos (List.any_eq_true.2 ⟨_, hmem, rfl⟩)] at h
  rw [← h] at hmem
  exact allows_of_mem_nameOfBytes hmem

end Encoding

end IconForge.Text
