import Mathlib
import IconForge.Json.Display
import IconForge.Json.Reader
import IconForge.Proofs.Json.Same
import IconForge.Proofs.Results

set_option autoImplicit false

/-! # Values with short integers

An integer with too many digits has no text. A value is *short* when there is none in it
(`isShort`). It is written as a whole then (`stopAt?_eq_none_iff`) and can be displayed
(`exists_inspect`), and no other values are read (`isShort_of_readWithin`). -/

namespace IconForge.Json

mutual

/-- Whether no integer in a value is too long. -/
def isShort : Json → Bool
  | .integer value => !isTooLong value
  | .list items => areShort items
  | .object members => haveShort members
  | _ => true

def areShort : List Json → Bool
  | [] => true
  | item :: items => isShort item && areShort items

def haveShort : List (CodeText × Json) → Bool
  | [] => true
  | (_, value) :: members => isShort value && haveShort members

end

theorem areShort_iff {items : List Json} : areShort items ↔ ∀ item ∈ items, item.isShort := by
  induction items with
  | nil => simp [areShort]
  | cons item items ih => rw [areShort, Bool.and_eq_true, ih, List.forall_mem_cons]

theorem haveShort_iff {members : List (CodeText × Json)} :
    haveShort members ↔ ∀ m ∈ members, m.2.isShort := by
  induction members with
  | nil => simp [haveShort]
  | cons m members ih => rw [haveShort, Bool.and_eq_true, ih, List.forall_mem_cons]

theorem isShort_list {items : List Json} : (list items).isShort ↔ ∀ item ∈ items, item.isShort := by
  rw [isShort, areShort_iff]

theorem isShort_object {members : List (CodeText × Json)} :
    (object members).isShort ↔ ∀ m ∈ members, m.2.isShort := by
  rw [isShort, haveShort_iff]

theorem isShort_integer {value : Int} :
    (integer value).isShort ↔ (Nat.toDigits 10 value.natAbs).length ≤ maxDigits := by
  rw [isShort, isTooLong, Nat.length_toDigits_le_iff (by decide) (by decide)]
  simp

theorem Storable.isShort {value : Json} (h : value.Storable) : value.isShort := by
  induction h with
  | null | boolean | real | text => rfl
  | integer value few => exact isShort_integer.2 few
  | list items each ih => exact isShort_list.2 ih
  | object members distinct whole each ih => exact isShort_object.2 ih

/-! ## Writing -/

theorem firstStop?_eq_none_iff {parts : List (Nat × Option Nat)} :
    firstStop? parts = none ↔ ∀ part ∈ parts, part.2 = none := by
  induction parts with
  | nil => simp [firstStop?]
  | cons part parts ih =>
      obtain ⟨length, stop⟩ := part
      cases stop with
      | none => rw [firstStop?, Option.map_eq_none_iff, ih]; simp
      | some stop => simp [firstStop?]

mutual

/-- **A value is written as a whole exactly when it is short.** -/
theorem stopAt?_eq_none_iff (depth : Nat) : ∀ value, stopAt? depth value = none ↔ value.isShort
  | .null => by simp [stopAt?, isShort]
  | .boolean _ => by simp [stopAt?, isShort]
  | .integer value => by
      rw [stopAt?, isShort]
      cases isTooLong value <;> simp
  | .real _ => by simp [stopAt?, isShort]
  | .text _ => by simp [stopAt?, isShort]
  | .list items => by
      rw [stopAt?, firstStop?_eq_none_iff, isShort]
      exact itemStops_eq_none_iff (depth + 1) items
  | .object members => by
      rw [stopAt?, firstStop?_eq_none_iff, isShort, List.forall_mem_map]
      simp only [List.mem_mergeSort]
      exact memberStops_eq_none_iff (depth + 1) members

theorem itemStops_eq_none_iff (depth : Nat) :
    ∀ items, (∀ part ∈ itemStops depth items, part.2 = none) ↔ areShort items
  | [] => by simp [itemStops, areShort]
  | item :: items => by
      rw [itemStops, List.forall_mem_cons, areShort, Bool.and_eq_true,
        itemStops_eq_none_iff depth items, Option.map_eq_none_iff, stopAt?_eq_none_iff depth item]

theorem memberStops_eq_none_iff (depth : Nat) :
    ∀ members, (∀ stop ∈ memberStops depth members, stop.2.2 = none) ↔ haveShort members
  | [] => by simp [memberStops, haveShort]
  | (name, value) :: members => by
      rw [memberStops, List.forall_mem_cons, haveShort, Bool.and_eq_true,
        memberStops_eq_none_iff depth members, Option.map_eq_none_iff,
        stopAt?_eq_none_iff depth value]

end

section

variable {room : String → Option Nat} {value other : Json}

theorem writeWithin_fst (h : (value.writeWithin room).2 = none) :
    (value.writeWithin room).1 = value.write := by
  rw [writeWithin] at h ⊢
  dsimp only at h ⊢
  split at h
  · rfl
  · cases h
  · cases h
  · split at h <;> cases h

/-- With room for every text, a value is written as a whole exactly when it is short. -/
theorem writeWithin_snd (value : Json) : (value.writeWithin fun _ => none).2 =
    if value.isShort then none else some .tooManyDigits := by
  cases hstop : stopAt? 0 value with
  | none => rw [writeWithin, hstop, if_pos ((stopAt?_eq_none_iff 0 value).1 hstop)]
  | some stop =>
      have hlong : ¬ value.isShort := fun hshort => by
        rw [(stopAt?_eq_none_iff 0 value).2 hshort] at hstop
        cases hstop
      rw [writeWithin, hstop, if_neg hlong]

/-- A storable value is written as a whole if the room does not give out. -/
theorem Storable.writeWithin_eq (h : value.Storable) (hroom : room value.write = none) :
    value.writeWithin room = (value.write, none) := by
  rw [writeWithin, (stopAt?_eq_none_iff 0 value).2 h.isShort, hroom]

/-- **As much of a value is written as of any other that is the same.** -/
theorem writeWithin_eq_of_same (h : Same value other) (hvalue : value.Storable) :
    other.writeWithin room = value.writeWithin room := by
  rw [writeWithin, writeWithin, write_eq_of_same h hvalue,
    (stopAt?_eq_none_iff 0 value).2 hvalue.isShort,
    (stopAt?_eq_none_iff 0 other).2 (hvalue.of_same h).isShort]

end

/-! ## Displaying -/

theorem inspect_integer {value : Int} (h : (integer value).isShort) :
    (integer value).inspect = .ok (toString value) := by
  rw [isShort, Bool.not_eq_true'] at h
  rw [inspect, h]
  rfl

mutual

/-- **A short value can be displayed.** -/
theorem exists_inspect : ∀ value : Json, value.isShort → ∃ shown, value.inspect = .ok shown
  | .null => fun _ => ⟨_, by rw [inspect]⟩
  | .boolean _ => fun _ => ⟨_, by rw [inspect]⟩
  | .integer value => fun h => ⟨_, inspect_integer h⟩
  | .real _ => fun _ => ⟨_, by rw [inspect]⟩
  | .text _ => fun _ => ⟨_, by rw [inspect]⟩
  | .list items => by
      intro h
      rw [isShort] at h
      obtain ⟨shown, hshown⟩ := exists_inspectItems items h
      rw [inspect, hshown]
      exact ⟨_, rfl⟩
  | .object members => by
      intro h
      rw [isShort] at h
      obtain ⟨shown, hshown⟩ := exists_inspectMembers members h
      rw [inspect, hshown]
      exact ⟨_, rfl⟩

theorem exists_inspectItems :
    ∀ items : List Json, areShort items → ∃ shown, inspectItems items = .ok shown
  | [] => fun _ => ⟨_, by rw [inspectItems]⟩
  | item :: items => by
      intro h
      rw [areShort, Bool.and_eq_true] at h
      obtain ⟨first, hfirst⟩ := exists_inspect item h.1
      obtain ⟨others, hothers⟩ := exists_inspectItems items h.2
      rw [inspectItems, hfirst, hothers]
      exact ⟨_, rfl⟩

theorem exists_inspectMembers : ∀ members : List (CodeText × Json), haveShort members →
    ∃ shown, inspectMembers members = .ok shown
  | [] => fun _ => ⟨_, by rw [inspectMembers]⟩
  | (name, value) :: members => by
      intro h
      rw [haveShort, Bool.and_eq_true] at h
      obtain ⟨first, hfirst⟩ := exists_inspect value h.1
      obtain ⟨others, hothers⟩ := exists_inspectMembers members h.2
      rw [inspectMembers, hfirst, hothers]
      exact ⟨_, rfl⟩

end

theorem exists_display {value : Json} (h : value.isShort) : ∃ shown, value.display = .ok shown := by
  obtain ⟨shown, hshown⟩ := exists_inspect value h
  unfold display
  split
  · exact ⟨_, rfl⟩
  · rw [hshown]
    exact ⟨_, rfl⟩

/-! ## Reading -/

theorem foldl_digits_lt {digits : List Char} (h : ∀ c ∈ digits, c.isDigit) (value : Nat) :
    digits.foldl (fun value c => value * 10 + (c.toNat - '0'.toNat)) value <
      (value + 1) * 10 ^ digits.length := by
  induction digits generalizing value with
  | nil => simp
  | cons c digits ih =>
      obtain ⟨hc, hrest⟩ := List.forall_mem_cons.1 h
      have hdigit : c.toNat - '0'.toNat < 10 := by
        simp only [Char.isDigit, Bool.and_eq_true, decide_eq_true_eq] at hc
        have hle : c.toNat ≤ '9'.toNat := hc.2
        simp only [show '9'.toNat = 57 from rfl] at hle
        simp only [show '0'.toNat = 48 from rfl]
        omega
      calc (c :: digits).foldl (fun value c => value * 10 + (c.toNat - '0'.toNat)) value
          < (value * 10 + (c.toNat - '0'.toNat) + 1) * 10 ^ digits.length := ih hrest _
        _ ≤ ((value + 1) * 10) * 10 ^ digits.length := Nat.mul_le_mul_right _ (by omega)
        _ = (value + 1) * 10 ^ (c :: digits).length := by
          rw [List.length_cons, pow_succ', Nat.mul_assoc]

theorem isDigit_of_takeWhole? {cs whole rest : List Char} (h : takeWhole? cs = some (whole, rest)) :
    ∀ c ∈ whole, c.isDigit := by
  unfold takeWhole? at h
  split at h
  · cases h
    simp
  · split_ifs at h
    cases h
    exact fun c hc => List.mem_takeWhile_imp hc
  · cases h

theorem isShort_integerOfDigits {digits : List Char} (h : ∀ c ∈ digits, c.isDigit)
    (hfew : digits.length ≤ maxDigits) (negative : Bool) :
    (integer (integerOfDigits negative digits)).isShort := by
  have hlt : digitsValue digits < 10 ^ maxDigits :=
    calc digitsValue digits < (0 + 1) * 10 ^ digits.length := foldl_digits_lt h 0
      _ = 10 ^ digits.length := by rw [Nat.zero_add, Nat.one_mul]
      _ ≤ 10 ^ maxDigits := Nat.pow_le_pow_right (by decide) hfew
  have habs : (integerOfDigits negative digits).natAbs = digitsValue digits := by
    unfold integerOfDigits
    split
    · rw [Int.natAbs_neg, Int.natAbs_natCast]
    · rw [Int.natAbs_natCast]
  rw [isShort_integer, habs, Nat.length_toDigits_le_iff (by decide) (by decide)]
  exact hlt

theorem isShort_of_readPlain {cs rest : List Char} {value : Json}
    (h : readPlain cs = .ok (value, rest)) : value.isShort := by
  unfold readPlain at h
  split at h
  · next reading hword =>
    obtain ⟨⟨word, found⟩, hmem, hfound⟩ := List.exists_of_findSome?_eq_some hword
    obtain ⟨_, -, hpair⟩ := Option.map_eq_some_iff.1 hfound
    obtain rfl := (Prod.mk.inj (hpair.trans (Except.ok.inj h))).1
    have hall : ∀ entry ∈ words, entry.2.isShort := by decide
    exact hall _ hmem
  · -- Of the numbers, only those without a fraction and an exponent are integers.
    unfold readNumber at h
    dsimp only at h
    split at h
    · cases h
    · next whole behind hwhole =>
      split at h
      · split_ifs at h with hfew
        cases h
        exact isShort_integerOfDigits (isDigit_of_takeWhole? hwhole) hfew _
      · cases h
        rfl
      · cases h
        rfl
      · cases h
        rfl

/-- Whether all that is read in some steps is short, also behind short items or members. -/
structure ReadsShort (fuel : Nat) : Prop where
  value : ∀ {room cs value rest}, readValue fuel room cs = .ok (value, rest) → value.isShort
  items : ∀ {room done cs value rest}, (∀ item ∈ done, item.isShort) →
    readItems fuel room done cs = .ok (value, rest) → value.isShort
  members : ∀ {room done cs value rest}, (∀ m ∈ done, m.2.isShort) →
    readMembers fuel room done cs = .ok (value, rest) → value.isShort

theorem ReadsShort.value_succ {fuel : Nat} (h : ReadsShort fuel) {room : Nat} {cs rest : List Char}
    {value : Json} (hread : readValue (fuel + 1) room cs = .ok (value, rest)) : value.isShort := by
  unfold readValue at hread
  split at hread
  · obtain ⟨_, -, hread⟩ := bind_eq_ok_iff.1 hread
    cases hread
    rfl
  · split at hread
    · cases hread
    · split at hread
      · cases hread
        rfl
      · exact h.items (by simp) hread
  · split at hread
    · cases hread
    · split at hread
      · cases hread
        rfl
      · exact h.members (by simp) hread
  · exact isShort_of_readPlain hread

theorem ReadsShort.items_succ {fuel : Nat} (h : ReadsShort fuel) {room : Nat} {cs rest : List Char}
    {done : List Json} {value : Json} (hdone : ∀ item ∈ done, item.isShort)
    (hread : readItems (fuel + 1) room done cs = .ok (value, rest)) : value.isShort := by
  unfold readItems at hread
  obtain ⟨reading, hitem, hread⟩ := bind_eq_ok_iff.1 hread
  have hall : ∀ other ∈ reading.1 :: done, other.isShort :=
    List.forall_mem_cons.2 ⟨h.value hitem, hdone⟩
  dsimp only at hread
  split at hread
  · cases hread
    exact isShort_list.2 fun other hother => hall other (List.mem_reverse.1 hother)
  · exact h.items hall hread
  · cases hread

theorem ReadsShort.members_succ {fuel : Nat} (h : ReadsShort fuel) {room : Nat}
    {cs rest : List Char} {done : List (CodeText × Json)} {value : Json}
    (hdone : ∀ m ∈ done, m.2.isShort)
    (hread : readMembers (fuel + 1) room done cs = .ok (value, rest)) : value.isShort := by
  unfold readMembers at hread
  split at hread
  · obtain ⟨name, -, hread⟩ := bind_eq_ok_iff.1 hread
    dsimp only at hread
    split at hread
    · obtain ⟨reading, hvalue, hread⟩ := bind_eq_ok_iff.1 hread
      have hall : ∀ m ∈ KeyedList.set done name.1 reading.1, m.2.isShort := by
        intro m hm
        rcases KeyedList.mem_set hm with rfl | hm
        · exact h.value hvalue
        · exact hdone m hm
      split at hread
      · cases hread
        exact isShort_object.2 hall
      · exact h.members hall hread
      · cases hread
    · cases hread
  · cases hread

/-- **Every value that is read is short.** -/
theorem readsShort (fuel : Nat) : ReadsShort fuel := by
  induction fuel with
  | zero =>
      constructor
      · intro _ _ _ _ hread
        cases hread
      · intro _ _ _ _ _ _ hread
        cases hread
      · intro _ _ _ _ _ _ hread
        cases hread
  | succ fuel ih => exact ⟨ih.value_succ, ih.items_succ, ih.members_succ⟩

theorem isShort_of_readWithin {room : Nat} {text : String} {value : Json}
    (h : readWithin room text = .ok value) : value.isShort := by
  have hdocument := mapError_eq_ok_iff.1 h
  unfold readDocument at hdocument
  split at hdocument
  · cases hdocument
  · obtain ⟨reading, hread, hdocument⟩ := bind_eq_ok_iff.1 hdocument
    dsimp only at hdocument
    split at hdocument
    · cases hdocument
      exact (readsShort _).value hread
    · cases hdocument

end IconForge.Json
