import Mathlib
import IconForge.Json.Fault
import IconForge.Json.Writer
import IconForge.Proofs.Files.Search

set_option autoImplicit false

/-! # Values as mappings

An object is a mapping from names to values; the order of its members says nothing. Two values are
the *same* when they differ in such orders at most, at any depth (`Same`). Numbers, booleans and
texts are the same as themselves only: `1`, `1.0` and `true` are three values, and NaN is one.

The text of a value depends on the value as a mapping and on nothing else (`write_eq_of_same`),
since distinct names can be put in order in one way only (`inOrder_eq`). What stands in the text is
the value with the members of its objects in order (`sorted`), which is the same value
(`Storable.same_sorted`). -/

namespace IconForge.Json

/-- Values that have texts which stand for them: integers have no more digits than are read, texts
and names have no surrogates that stand alone, and the names of an object are distinct. -/
inductive Storable : Json → Prop where
  | null : Storable .null
  | boolean (value : Bool) : Storable (.boolean value)
  | integer (value : Int) (few : (Nat.toDigits 10 value.natAbs).length ≤ maxDigits) :
      Storable (.integer value)
  | real (value : Binary64) : Storable (.real value)
  | text (value : CodeText) (whole : ∀ point ∈ value, point.isSurrogate = false) :
      Storable (.text value)
  | list (items : List Json) (each : ∀ item ∈ items, Storable item) : Storable (.list items)
  | object (members : List (CodeText × Json)) (distinct : (members.map (·.1)).Nodup)
      (whole : ∀ m ∈ members, ∀ point ∈ m.1, point.isSurrogate = false)
      (each : ∀ m ∈ members, Storable m.2) : Storable (.object members)

/-- Whether two values differ in the order of the members of their objects at most. -/
inductive Same : Json → Json → Prop where
  | refl (value : Json) : Same value value
  | list {items others : List Json} (length : items.length = others.length)
      (each : ∀ pair ∈ items.zip others, Same pair.1 pair.2) : Same (.list items) (.list others)
  | object {members others : List (CodeText × Json)}
      (names : (members.map (·.1)).Perm (others.map (·.1)))
      (each : ∀ m ∈ members, ∀ other ∈ others, m.1 = other.1 → Same m.2 other.2) :
      Same (.object members) (.object others)

/-- Objects that are the same have the same names, and what has one name in both is the same. -/
theorem Same.of_object {members others : List (CodeText × Json)}
    (h : Same (.object members) (.object others)) (hdistinct : (members.map (·.1)).Nodup) :
    (members.map (·.1)).Perm (others.map (·.1)) ∧
      ∀ m ∈ members, ∀ other ∈ others, m.1 = other.1 → Same m.2 other.2 := by
  cases h with
  | refl =>
      refine ⟨.refl _, fun m hm other hother hname => ?_⟩
      rw [List.inj_on_of_nodup_map hdistinct hm hother hname]
      exact .refl _
  | object names each => exact ⟨names, each⟩

/-! ## Members in order -/

section

variable {α β : Type}

/-- Members in the order of their names. -/
def inOrder (members : List (CodeText × α)) : List (CodeText × α) :=
  members.mergeSort fun a b => CodeText.le a.1 b.1

theorem inOrder_perm (members : List (CodeText × α)) : (inOrder members).Perm members :=
  List.mergeSort_perm _ _

theorem mem_inOrder {members : List (CodeText × α)} {m : CodeText × α} :
    m ∈ inOrder members ↔ m ∈ members :=
  (inOrder_perm members).mem_iff

theorem names_inOrder_perm (members : List (CodeText × α)) :
    ((inOrder members).map (·.1)).Perm (members.map (·.1)) :=
  (inOrder_perm members).map _

theorem pairwise_inOrder (members : List (CodeText × α)) :
    (inOrder members).Pairwise fun a b => CodeText.le a.1 b.1 := by
  have horder := CodeText.isTotalOrder_le
  exact List.pairwise_mergeSort (fun a b c => horder.trans a.1 b.1 c.1)
    (fun a b => horder.total a.1 b.1) members

theorem names_map (f : α → β) (members : List (CodeText × α)) :
    (members.map fun m => (m.1, f m.2)).map (·.1) = members.map (·.1) := by
  rw [List.map_map]
  rfl

theorem map_inOrder (f : α → β) (members : List (CodeText × α)) :
    (inOrder members).map (fun m => (m.1, f m.2)) = inOrder (members.map fun m => (m.1, f m.2)) :=
  List.map_mergeSort fun _ _ _ _ => rfl

/-- **Members with distinct names have one order only.** -/
theorem inOrder_eq {members others : List (CodeText × α)} (h : (members.map (·.1)).Nodup)
    (h' : (others.map (·.1)).Nodup) (hmem : ∀ m, m ∈ members ↔ m ∈ others) :
    inOrder members = inOrder others := by
  have hperm : (inOrder members).Perm (inOrder others) :=
    (inOrder_perm members).trans
      (((List.perm_ext_iff_of_nodup h.of_map h'.of_map).2 hmem).trans (inOrder_perm others).symm)
  refine hperm.eq_of_pairwise ?_ (pairwise_inOrder members) (pairwise_inOrder others)
  intro a b ha hb hab hba
  have hname : a.1 = b.1 := CodeText.isTotalOrder_le.antisymm a.1 b.1 hab hba
  exact List.inj_on_of_nodup_map h (mem_inOrder.1 ha) ((hmem b).2 (mem_inOrder.1 hb)) hname

end

/-! ## The text of a mapping -/

theorem writeItems_eq_map (depth : Nat) (items : List Json) :
    writeItems depth items = items.map (writeAt depth) := by
  induction items with
  | nil => rfl
  | cons item items ih => rw [writeItems, ih, List.map_cons]

theorem writeMembers_eq_map (depth : Nat) (members : List (CodeText × Json)) :
    writeMembers depth members = members.map fun m => (m.1, writeAt depth m.2) := by
  induction members with
  | nil => rfl
  | cons m members ih => rw [writeMembers, ih, List.map_cons]

theorem writeAt_list (depth : Nat) (items : List Json) :
    writeAt depth (.list items) =
      writeBlock depth "[" "]" (items.map (writeAt (depth + 1))) := by
  rw [writeAt, writeItems_eq_map]

theorem writeAt_object (depth : Nat) (members : List (CodeText × Json)) :
    writeAt depth (.object members) =
      writeBlock depth "\x7b" "\x7d"
        ((inOrder (members.map fun m => (m.1, writeAt (depth + 1) m.2))).map
          fun m => writeString .record m.1 ++ ": " ++ m.2) := by
  rw [writeAt, writeMembers_eq_map]
  rfl

theorem writeAt_eq_of_same {value other : Json} (h : Same value other) (hvalue : value.Storable) :
    ∀ depth, writeAt depth value = writeAt depth other := by
  induction h with
  | refl value => exact fun depth => rfl
  | list length each ih =>
      cases hvalue with
      | list items hitems =>
          intro depth
          rw [writeAt_list, writeAt_list]
          congr 1
          refine List.ext_getElem (by simp [length]) fun n hn hn' => ?_
          rw [List.length_map] at hn hn'
          rw [List.getElem_map, List.getElem_map]
          exact ih _ (List.mem_iff_getElem.2 ⟨n, List.length_zip ▸ Nat.lt_min.2 ⟨hn, hn'⟩,
            List.getElem_zip⟩) (hitems _ (List.getElem_mem hn)) (depth + 1)
  | @object members others names each ih =>
      cases hvalue with
      | object _ distinct whole hmembers =>
          intro depth
          rw [writeAt_object, writeAt_object]
          congr 2
          -- Both blocks put the same written members in order, so the orders they had do not matter.
          refine inOrder_eq (by rwa [names_map])
            (by rw [names_map]; exact names.nodup_iff.1 distinct) ?_
          intro written
          constructor
          · intro hwritten
            obtain ⟨m, hm, rfl⟩ := List.mem_map.1 hwritten
            obtain ⟨other, hother, hname⟩ :=
              List.mem_map.1 (names.mem_iff.1 (List.mem_map_of_mem hm))
            refine List.mem_map.2 ⟨other, hother, ?_⟩
            rw [hname, ih m hm other hother hname.symm (hmembers m hm)]
          · intro hwritten
            obtain ⟨other, hother, rfl⟩ := List.mem_map.1 hwritten
            obtain ⟨m, hm, hname⟩ :=
              List.mem_map.1 (names.mem_iff.2 (List.mem_map_of_mem hother))
            refine List.mem_map.2 ⟨m, hm, ?_⟩
            rw [hname, ih m hm other hother hname (hmembers m hm)]

/-- **The text of a value depends on the value as a mapping only.** -/
theorem write_eq_of_same {value other : Json} (h : Same value other) (hvalue : value.Storable) :
    value.write = other.write :=
  writeAt_eq_of_same h hvalue 0

/-! ## What the text says -/

mutual

/-- A value with the members of its objects in order. -/
def sorted : Json → Json
  | .list items => .list (sortedItems items)
  | .object members => .object (inOrder (sortedMembers members))
  | value => value

def sortedItems : List Json → List Json
  | [] => []
  | item :: items => item.sorted :: sortedItems items

def sortedMembers : List (CodeText × Json) → List (CodeText × Json)
  | [] => []
  | (name, value) :: members => (name, value.sorted) :: sortedMembers members

end

theorem sorted_list (items : List Json) : (list items).sorted = .list (items.map sorted) := by
  have hitems : sortedItems items = items.map sorted := by
    induction items with
    | nil => rfl
    | cons item items ih => rw [sortedItems, ih, List.map_cons]
  rw [sorted, hitems]

theorem sorted_object (members : List (CodeText × Json)) :
    (object members).sorted = .object ((inOrder members).map fun m => (m.1, m.2.sorted)) := by
  have hmembers : sortedMembers members = members.map fun m => (m.1, m.2.sorted) := by
    induction members with
    | nil => rfl
    | cons m members ih => rw [sortedMembers, ih, List.map_cons]
  rw [sorted, hmembers, map_inOrder]

/-- **Putting members in order leaves a value the same.** -/
theorem Storable.same_sorted {value : Json} (h : value.Storable) : Same value value.sorted := by
  induction h with
  | null => exact .refl _
  | boolean value => exact .refl _
  | integer value few => exact .refl _
  | real value => exact .refl _
  | text value whole => exact .refl _
  | list items each ih =>
      rw [sorted_list]
      refine .list (List.length_map _).symm fun pair hpair => ?_
      have hzip : items.zip (items.map sorted) = items.map fun item => (item, item.sorted) := by
        simpa using List.zip_map' (f := id) (g := sorted) (l := items)
      rw [hzip] at hpair
      obtain ⟨item, hitem, rfl⟩ := List.mem_map.1 hpair
      exact ih item hitem
  | object members distinct whole each ih =>
      rw [sorted_object]
      have hnames : (members.map (·.1)).Perm
          (((inOrder members).map fun m => (m.1, m.2.sorted)).map (·.1)) := by
        rw [names_map]
        exact (names_inOrder_perm members).symm
      refine .object hnames fun m hm other hother hname => ?_
      obtain ⟨first, hfirst, rfl⟩ := List.mem_map.1 hother
      obtain rfl := List.inj_on_of_nodup_map distinct hm (mem_inOrder.1 hfirst) hname
      exact ih m hm

/-- What is the same as a storable value is storable. -/
theorem Storable.of_same {value other : Json} (h : Same value other) (hvalue : value.Storable) :
    other.Storable := by
  induction h with
  | refl value => exact hvalue
  | @list items others length each ih =>
      cases hvalue with
      | list _ hitems =>
          refine .list others fun other hother => ?_
          obtain ⟨n, hn, rfl⟩ := List.mem_iff_getElem.1 hother
          have hn' : n < items.length := length ▸ hn
          exact ih (items[n], others[n])
            (List.mem_iff_getElem.2 ⟨n, List.length_zip ▸ Nat.lt_min.2 ⟨hn', hn⟩,
              List.getElem_zip⟩) (hitems _ (List.getElem_mem hn'))
  | @object members others names each ih =>
      cases hvalue with
      | object _ distinct whole hmembers =>
          -- Each of the other members has its name, and so its value, from one of the first.
          have hfirst : ∀ other ∈ others, ∃ m ∈ members, m.1 = other.1 := fun other hother =>
            List.mem_map.1 (names.mem_iff.2 (List.mem_map_of_mem hother))
          refine .object others (names.nodup_iff.1 distinct) (fun other hother => ?_)
            fun other hother => ?_
          · obtain ⟨m, hm, hname⟩ := hfirst other hother
            rw [← hname]
            exact whole m hm
          · obtain ⟨m, hm, hname⟩ := hfirst other hother
            exact ih m hm other hother hname (hmembers m hm)

end IconForge.Json
