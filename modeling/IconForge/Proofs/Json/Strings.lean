import Mathlib
import IconForge.Json.Reader
import IconForge.Json.Writer

set_option autoImplicit false

/-! # Strings written and read

A string that is written for a record is read back as it was (`readString_written`), whatever comes
behind its closing quote. The proof goes character by character (`readString_character`): what is
written for a character is read as that character as long as anything comes behind it, and behind a
character of a string comes the closing quote at least. A character beyond the first plane is
written as two code units, which are read as one character again. -/

namespace IconForge.Json

open IconForge.Text

/-! ## Code units -/

theorem hexValue?_digitChar {n : Nat} (h : n < 16) : hexValue? (Nat.digitChar n) = some n := by
  have hall : ∀ n < 16, hexValue? (Nat.digitChar n) = some n := by decide
  exact hall n h

theorem exists_hexDigits {n : Nat} (h : n < 0x10000) :
    ∃ a b c d, hexDigits 4 n = [a, b, c, d] ∧ unit? a b c d = some n := by
  refine ⟨_, _, _, _, rfl, ?_⟩
  have hdigit : ∀ m, hexValue? (Nat.digitChar (m % 16)) = some (m % 16) :=
    fun m => hexValue?_digitChar (Nat.mod_lt m (by decide))
  simp only [unit?, hdigit, Option.bind_eq_bind, Option.bind_some, Option.pure_def]
  congr 1
  omega

/-- A unit that does not begin a pair is read alone. -/
theorem readUnit_single {n : Nat} (h : n < 0x10000) (hhigh : isHighSurrogate n = false)
    {rest : List Char} (hrest : rest ≠ []) :
    readUnit (hexDigits 4 n ++ rest) = .ok (pointOfUnit n, rest) := by
  obtain ⟨a, b, c, d, hdigits, hunit⟩ := exists_hexDigits h
  obtain ⟨next, behind, rfl⟩ := List.exists_cons_of_ne_nil hrest
  rw [hdigits]
  simp only [List.cons_append, List.nil_append, readUnit, hunit, hhigh, Bool.false_and,
    Bool.false_eq_true, if_false]

/-- The two units of a pair are read as one character. -/
theorem readUnit_pair {high low : Nat} (hhigh : isHighSurrogate high = true)
    (hlow : isLowSurrogate low = true) {rest : List Char} (hrest : rest ≠ []) :
    readUnit (hexDigits 4 high ++ writeUnit low ++ rest) = .ok (pointOfPair high low, rest) := by
  have hhighLt : high < 0x10000 := by
    simp only [isHighSurrogate, Bool.and_eq_true, decide_eq_true_eq] at hhigh
    omega
  have hlowLt : low < 0x10000 := by
    simp only [isLowSurrogate, Bool.and_eq_true, decide_eq_true_eq] at hlow
    omega
  obtain ⟨a, b, c, d, hdigits, hunit⟩ := exists_hexDigits hhighLt
  obtain ⟨e, f, g, h, hdigits', hunit'⟩ := exists_hexDigits hlowLt
  obtain ⟨next, behind, rfl⟩ := List.exists_cons_of_ne_nil hrest
  rw [writeUnit, hdigits, hdigits']
  simp only [List.cons_append, List.nil_append, readUnit, hunit, hunit', hhigh, hlow,
    decide_true, Bool.and_self, if_true]

/-! ## Characters -/

theorem toNat_cases (c : Char) :
    c.toNat < 0xd800 ∨ 0xe000 ≤ c.toNat ∧ c.toNat < 0x110000 := by
  rcases c.valid with h | ⟨h, h'⟩
  · exact Or.inl h
  · exact Or.inr ⟨h, h'⟩

/-- The units of a character are read as that character. -/
theorem readEscape_units (opening : List Char) (c : Char) {rest : List Char} (hrest : rest ≠ []) :
    ∃ units, writeUnits c = '\\' :: units ∧
      readEscape opening (units ++ rest) = .ok (.char c, rest) := by
  have hrange := toNat_cases c
  -- One unit in the basic plane, else a high and a low surrogate.
  by_cases hplane : c.toNat < 0x10000
  · refine ⟨'u' :: hexDigits 4 c.toNat, by simp only [writeUnits, hplane, if_true, writeUnit], ?_⟩
    have hhigh : isHighSurrogate c.toNat = false := by
      simp only [isHighSurrogate, Bool.and_eq_false_iff, decide_eq_false_iff_not]
      omega
    have hpoint : pointOfUnit c.toNat = .char c := by
      rw [pointOfUnit, dif_neg (by omega), Char.ofNat_toNat]
    rw [List.cons_append, readEscape, readUnit_single hplane hhigh hrest, hpoint]
  · refine ⟨'u' :: hexDigits 4 (0xd800 + (c.toNat - 0x10000) / 0x400) ++
      writeUnit (0xdc00 + (c.toNat - 0x10000) % 0x400), ?_, ?_⟩
    · simp only [writeUnits, hplane, if_false]
      rfl
    · have hhigh : isHighSurrogate (0xd800 + (c.toNat - 0x10000) / 0x400) = true := by
        simp only [isHighSurrogate, Bool.and_eq_true, decide_eq_true_eq]
        omega
      have hlow : isLowSurrogate (0xdc00 + (c.toNat - 0x10000) % 0x400) = true := by
        simp only [isLowSurrogate, Bool.and_eq_true, decide_eq_true_eq]
        omega
      have hpoint : pointOfPair (0xd800 + (c.toNat - 0x10000) / 0x400)
          (0xdc00 + (c.toNat - 0x10000) % 0x400) = .char c := by
        have hsum : 0x10000 + (0xd800 + (c.toNat - 0x10000) / 0x400 - 0xd800) * 0x400 +
            (0xdc00 + (c.toNat - 0x10000) % 0x400 - 0xdc00) = c.toNat := by omega
        rw [pointOfPair, hsum, Char.ofNat_toNat]
      rw [List.cons_append, List.cons_append, readEscape, readUnit_pair hhigh hlow hrest, hpoint]

/-- A backslash with what an escape is read from stands for the code point that is read. -/
theorem readString_escape {opening cs rest : List Char} {point : CodePoint} (done : CodeText)
    (h : readEscape opening cs = .ok (point, rest)) :
    readString opening done ('\\' :: cs) = readString opening (point :: done) rest := by
  rw [readString.eq_def]
  simp only
  split
  · next heq => rw [h] at heq; cases heq
  · next heq => rw [h] at heq; cases heq; rfl

/-- One step: a character is read as it was written. -/
theorem readString_character (opening : List Char) (done : CodeText) (c : Char) {rest : List Char}
    (hrest : rest ≠ []) :
    readString opening done (writeCharacter .record c ++ rest) =
      readString opening (.char c :: done) rest := by
  have hunits : readString opening done (writeUnits c ++ rest) =
      readString opening (.char c :: done) rest := by
    obtain ⟨units, hwritten, hread⟩ := readEscape_units opening c hrest
    rw [hwritten, List.cons_append]
    exact readString_escape done hread
  unfold writeCharacter
  -- Seven escapes with a letter, the slash, which stays as it is, and the delete character.
  split
  · exact readString_escape done rfl
  · exact readString_escape done rfl
  · exact readString_escape done rfl
  · exact readString_escape done rfl
  · exact readString_escape done rfl
  · exact readString_escape done rfl
  · exact readString_escape done rfl
  · rw [if_neg (by decide), List.singleton_append, readString, if_neg (by decide)]
    · decide
    · decide
  · exact hunits
  · next _ hquote hbackslash _ _ _ _ _ _ _ =>
    split
    · exact hunits
    · next hplain =>
      have hcontrol : ¬ c < ' ' := by
        intro hlt
        simp [hlt] at hplain
      rw [List.singleton_append, readString, if_neg hcontrol]
      · exact fun heq => hquote heq
      · exact fun heq => hbackslash heq

/-- A string is read as it was written, up to its closing quote. -/
theorem readString_written (opening : List Char) (done : CodeText) {text : CodeText}
    (h : ∀ point ∈ text, point.isSurrogate = false) (rest : List Char) :
    readString opening done (text.flatMap (writePoint .record) ++ '"' :: rest) =
      .ok (done.reverse ++ text, rest) := by
  induction text generalizing done with
  | nil =>
      rw [List.flatMap_nil, List.nil_append, readString, List.append_nil]
  | cons point text ih =>
      cases point with
      | surrogate half => exact absurd (h _ List.mem_cons_self) Bool.true_eq_false.mp
      | char c =>
          rw [List.flatMap_cons, List.append_assoc, writePoint,
            readString_character opening done c (by simp),
            ih _ (fun other hother => h other (List.mem_cons_of_mem _ hother)),
            List.reverse_cons, List.append_assoc]
          rfl

end IconForge.Json
