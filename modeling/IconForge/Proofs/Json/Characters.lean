import Mathlib
import IconForge.Proofs.Json.RoundTrip

set_option autoImplicit false

/-! # The characters of a text

Every value is written with line feeds and the printing characters of ASCII only
(`isPlain_of_mem_write`). So its text has the same bytes in every file, and no line end in it is
changed when it is read. -/

namespace IconForge.Json

open IconForge.Text

/-- A line feed or a printing character of ASCII. -/
def IsPlain (c : Char) : Prop :=
  c = '\n' ∨ ' ' ≤ c ∧ c < '\x7f'

instance (c : Char) : Decidable (IsPlain c) :=
  inferInstanceAs (Decidable (_ ∨ _))

/-! ## Strings -/

theorem isPlain_of_mem_hexDigits {width n : Nat} {c : Char} (h : c ∈ hexDigits width n) :
    IsPlain c := by
  have hdigit : ∀ m < 16, IsPlain (Nat.digitChar m) := by decide
  induction width generalizing n with
  | zero => cases h
  | succ width ih =>
      rw [hexDigits, List.mem_append, List.mem_singleton] at h
      rcases h with h | rfl
      · exact ih h
      · exact hdigit _ (Nat.mod_lt n (by decide))

theorem isPlain_of_mem_writeUnit {n : Nat} {c : Char} (h : c ∈ writeUnit n) : IsPlain c := by
  rw [writeUnit, List.mem_cons, List.mem_cons] at h
  rcases h with rfl | rfl | h
  · decide
  · decide
  · exact isPlain_of_mem_hexDigits h

theorem isPlain_of_mem_writeUnits {d c : Char} (h : c ∈ writeUnits d) : IsPlain c := by
  rw [writeUnits] at h
  split at h
  · exact isPlain_of_mem_writeUnit h
  · exact (List.mem_append.1 h).elim isPlain_of_mem_writeUnit isPlain_of_mem_writeUnit

theorem isPlain_of_mem_escape {letter c : Char} (hletter : IsPlain letter)
    (h : c ∈ ['\\', letter]) : IsPlain c := by
  rw [List.mem_cons, List.mem_singleton] at h
  rcases h with rfl | rfl
  · decide
  · exact hletter

theorem isPlain_of_mem_writeCharacter {d c : Char} (h : c ∈ writeCharacter .record d) :
    IsPlain c := by
  unfold writeCharacter at h
  split at h
  · exact isPlain_of_mem_escape (by decide) h
  · exact isPlain_of_mem_escape (by decide) h
  · exact isPlain_of_mem_escape (by decide) h
  · exact isPlain_of_mem_escape (by decide) h
  · exact isPlain_of_mem_escape (by decide) h
  · exact isPlain_of_mem_escape (by decide) h
  · exact isPlain_of_mem_escape (by decide) h
  · rw [if_neg (by decide), List.mem_singleton] at h
    rw [h]
    decide
  · rw [if_pos (show StringStyle.record.escapesDelete = true from rfl)] at h
    exact isPlain_of_mem_writeUnits h
  · next _ _ _ _ _ _ _ _ _ hdelete =>
    split at h
    · exact isPlain_of_mem_writeUnits h
    · next hprinting =>
      rw [Bool.or_eq_true, decide_eq_true_eq, decide_eq_true_eq, not_or, not_lt, not_lt]
        at hprinting
      rw [List.mem_singleton.1 h]
      exact Or.inr ⟨hprinting.1, lt_of_le_of_ne hprinting.2 hdelete⟩

theorem isPlain_of_mem_writeString {value : CodeText} {c : Char}
    (h : c ∈ (writeString .record value).toList) : IsPlain c := by
  rw [toList_writeString, List.mem_cons, List.mem_append, List.mem_singleton, List.mem_flatMap] at h
  rcases h with rfl | ⟨point, -, hpoint⟩ | rfl
  · decide
  · cases point with
    | char d => exact isPlain_of_mem_writeCharacter hpoint
    | surrogate half => exact isPlain_of_mem_writeUnit hpoint
  · decide

/-! ## Words and numbers -/

theorem isPlain_of_mem_word {word : String} (hword : word ∈ words.map (·.1)) {c : Char}
    (h : c ∈ word.toList) : IsPlain c := by
  have hall : ∀ word ∈ words.map (·.1), ∀ c ∈ word.toList, IsPlain c := by
    simp [words, IsPlain]
  exact hall word hword c h

theorem isPlain_of_isDigit {c : Char} (h : c.isDigit) : IsPlain c := by
  simp only [Char.isDigit, Bool.and_eq_true, decide_eq_true_eq] at h
  refine Or.inr ⟨?_, ?_⟩
  · exact (show (' ' : Char).val ≤ 48 by decide).trans h.1
  · exact lt_of_le_of_lt h.2 (by decide)

theorem isPlain_of_mem_integer {value : Int} {c : Char} (h : c ∈ (toString value).toList) :
    IsPlain c := by
  rw [toList_toString_int, List.mem_append] at h
  rcases h with h | h
  · split at h
    · rw [List.mem_singleton.1 h]
      decide
    · cases h
  · exact isPlain_of_isDigit (isDigit_of_mem_toDigits h)

theorem isPlain_of_mem_writeReal {value : Binary64} {c : Char}
    (h : c ∈ (writeReal value).toList) : IsPlain c := by
  cases value with
  | notANumber => exact isPlain_of_mem_word (by simp [words, writeReal]) h
  | infinite negative =>
      cases negative with
      | true => exact isPlain_of_mem_word (by simp [words, writeReal]) h
      | false => exact isPlain_of_mem_word (by simp [words, writeReal]) h
  | finite negative m =>
      have hnumeral := NumberLayout.isNumeralCharacter_of_mem_render (Or.inr rfl) rfl h
      simp only [isNumeralCharacter, Bool.or_eq_true, decide_eq_true_eq] at hnumeral
      rcases hnumeral with (((hdigit | rfl) | rfl) | rfl) | rfl
      · exact isPlain_of_isDigit hdigit
      · decide
      · decide
      · decide
      · decide

/-! ## Blocks -/

theorem isPlain_of_mem_newLine {depth : Nat} {c : Char} (h : c ∈ (newLine depth).toList) :
    IsPlain c := by
  rw [toList_newLine, List.mem_cons] at h
  rcases h with rfl | h
  · decide
  · rw [List.eq_of_mem_replicate h]
    decide

theorem isPlain_of_mem_behindPart {depth : Nat} {closing : List Char} {parts : List String}
    (hclosing : ∀ c ∈ closing, IsPlain c) (h : ∀ part ∈ parts, ∀ c ∈ part.toList, IsPlain c)
    {c : Char} (hc : c ∈ behindPart depth closing parts) : IsPlain c := by
  induction parts with
  | nil => exact hclosing c hc
  | cons part parts ih =>
      rw [behindPart, List.mem_cons, List.mem_append, List.mem_append] at hc
      rcases hc with rfl | hc | hc | hc
      · decide
      · exact isPlain_of_mem_newLine hc
      · exact h part List.mem_cons_self c hc
      · exact ih (fun part hpart => h part (List.mem_cons_of_mem _ hpart)) hc

theorem isPlain_of_mem_writeBlock {depth : Nat} {opening closing : String} {parts : List String}
    (hopening : ∀ c ∈ opening.toList, IsPlain c) (hclosing : ∀ c ∈ closing.toList, IsPlain c)
    (h : ∀ part ∈ parts, ∀ c ∈ part.toList, IsPlain c) {c : Char}
    (hc : c ∈ (writeBlock depth opening closing parts).toList) : IsPlain c := by
  cases parts with
  | nil =>
      rw [writeBlock, String.toList_append, List.mem_append] at hc
      exact hc.elim (hopening c) (hclosing c)
  | cons part parts =>
      rw [toList_writeBlock_cons, List.mem_append, List.mem_append, List.mem_append] at hc
      rcases hc with hc | hc | hc | hc
      · exact hopening c hc
      · exact isPlain_of_mem_newLine hc
      · exact h part List.mem_cons_self c hc
      · refine isPlain_of_mem_behindPart (fun c hc => ?_)
          (fun part hpart => h part (List.mem_cons_of_mem _ hpart)) hc
        exact (List.mem_append.1 hc).elim isPlain_of_mem_newLine (hclosing c)

/-! ## Values -/

mutual

theorem isPlain_of_mem_writeAt (depth : Nat) (value : Json) :
    ∀ c ∈ (writeAt depth value).toList, IsPlain c := by
  intro c hc
  cases value with
  | null => exact isPlain_of_mem_word (by simp [words, writeAt]) hc
  | boolean value =>
      cases value with
      | true => exact isPlain_of_mem_word (by simp [words, writeAt]) hc
      | false => exact isPlain_of_mem_word (by simp [words, writeAt]) hc
  | integer value => exact isPlain_of_mem_integer hc
  | real value => exact isPlain_of_mem_writeReal hc
  | text value => exact isPlain_of_mem_writeString hc
  | list items =>
      rw [writeAt] at hc
      exact isPlain_of_mem_writeBlock (by simp [IsPlain]) (by simp [IsPlain])
        (isPlain_of_mem_writeItems (depth + 1) items) hc
  | object members =>
      rw [writeAt] at hc
      -- Sorting the members changes none of them.
      refine isPlain_of_mem_writeBlock (by simp [IsPlain]) (by simp [IsPlain])
        (fun part hpart c hc => ?_) hc
      obtain ⟨m, hm, rfl⟩ := List.mem_map.1 hpart
      rw [List.mem_mergeSort] at hm
      rw [String.toList_append, String.toList_append, List.mem_append, List.mem_append] at hc
      rcases hc with (hc | hc) | hc
      · exact isPlain_of_mem_writeString hc
      · revert c
        simp [IsPlain]
      · exact isPlain_of_mem_writeMembers (depth + 1) members m hm c hc

theorem isPlain_of_mem_writeItems (depth : Nat) (items : List Json) :
    ∀ part ∈ writeItems depth items, ∀ c ∈ part.toList, IsPlain c := by
  intro part hpart c hc
  cases items with
  | nil => cases hpart
  | cons item items =>
      rw [writeItems, List.mem_cons] at hpart
      rcases hpart with rfl | hpart
      · exact isPlain_of_mem_writeAt depth item c hc
      · exact isPlain_of_mem_writeItems depth items part hpart c hc

theorem isPlain_of_mem_writeMembers (depth : Nat) (members : List (CodeText × Json)) :
    ∀ part ∈ writeMembers depth members, ∀ c ∈ part.2.toList, IsPlain c := by
  intro part hpart c hc
  cases members with
  | nil => cases hpart
  | cons m members =>
      obtain ⟨name, value⟩ := m
      rw [writeMembers, List.mem_cons] at hpart
      rcases hpart with rfl | hpart
      · exact isPlain_of_mem_writeAt depth value c hc
      · exact isPlain_of_mem_writeMembers depth members part hpart c hc

end

/-- **The text of a value holds nothing but line feeds and printing characters of ASCII.** -/
theorem isPlain_of_mem_write (value : Json) : ∀ c ∈ value.write.toList, IsPlain c :=
  isPlain_of_mem_writeAt 0 value

end IconForge.Json
