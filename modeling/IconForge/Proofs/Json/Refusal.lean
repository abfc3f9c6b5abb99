import Mathlib
import IconForge.Proofs.Json.RoundTrip

set_option autoImplicit false

/-! # Values that are too deep

The reader refuses a text as soon as a list or an object begins for which it has no room. So a value
that is deeper than the room is not read back (`readWithin_write_of_lt`): what stands in front of
the first part that is too deep is read, and this part is refused. -/

namespace IconForge.Json

/-- Whether the problem is that lists and objects are nested too deep. -/
def Problem.IsTooDeep (problem : Problem) : Prop :=
  problem = .listTooDeep ∨ problem = .objectTooDeep

/-- Whether a text begins as values do, but is refused for being too deep. -/
structure Refused (room : Nat) (text : List Char) : Prop where
  opens : Opens text
  refuses : ∀ fuel rest, text.length ≤ fuel → Ended rest →
    ∃ stop, readValue fuel room (text ++ rest) = .error stop ∧ stop.problem.IsTooDeep

variable {room : Nat}

theorem ReadsAs.not_refused {text : List Char} {value : Json} (h : ReadsAs room text value) :
    ¬ Refused room text := by
  intro hrefused
  have hend : Ended [] := by rintro _ ⟨⟩
  obtain ⟨stop, hstop, -⟩ := hrefused.refuses text.length [] le_rfl hend
  rw [h.reads text.length [] le_rfl hend] at hstop
  cases hstop

/-! ## Parts that are refused -/

/-- Items are read up to the first one that is refused. -/
theorem readItems_refused {depth : Nat} {closing : List Char} (hended : Ended closing)
    {part : String × Json} {parts : List (String × Json)}
    (h : ∀ p ∈ part :: parts, ReadsAs room p.1.toList p.2 ∨ Refused room p.1.toList)
    (hdeep : ∃ p ∈ part :: parts, Refused room p.1.toList) {fuel : Nat}
    (hfuel : (part.1.toList ++ behindPart depth [] (parts.map (·.1))).length < fuel)
    (done : List Json) :
    ∃ stop, readItems fuel room done (part.1.toList ++
        behindPart depth closing (parts.map (·.1))) = .error stop ∧ stop.problem.IsTooDeep := by
  induction parts generalizing part fuel done with
  | nil =>
      obtain ⟨fuel, rfl⟩ := Nat.exists_eq_add_one_of_ne_zero (Nat.ne_zero_of_lt hfuel)
      obtain ⟨p, hp, hrefused⟩ := hdeep
      obtain rfl := List.mem_singleton.1 hp
      rw [List.length_append] at hfuel
      obtain ⟨stop, hstop, hproblem⟩ := hrefused.refuses fuel _ (by omega) hended
      exact ⟨stop, by rw [List.map_nil, behindPart, readItems, hstop]; rfl, hproblem⟩
  | cons next parts ih =>
      obtain ⟨fuel, rfl⟩ := Nat.exists_eq_add_one_of_ne_zero (Nat.ne_zero_of_lt hfuel)
      have hlater : ∀ p ∈ next :: parts, ReadsAs room p.1.toList p.2 ∨ Refused room p.1.toList :=
        fun p hp => h p (List.mem_cons_of_mem _ hp)
      rw [List.map_cons, behindPart, List.length_append, List.length_cons, List.length_append]
        at hfuel
      -- If the first item is read, the one that is refused comes later.
      rcases h part List.mem_cons_self with hreads | hrefused
      · have hopens : Opens next.1.toList :=
          (hlater next List.mem_cons_self).elim (·.opens) (·.opens)
        have hdeeper : ∃ p ∈ next :: parts, Refused room p.1.toList := by
          obtain ⟨p, hp, hrefused⟩ := hdeep
          rcases List.mem_cons.1 hp with rfl | hp
          · exact absurd hrefused hreads.not_refused
          · exact ⟨p, hp, hrefused⟩
        rw [List.map_cons, behindPart, readItems_part hreads (by omega) done (ended_comma _),
          skipSpace_closing (Or.inr (Or.inr rfl))]
        simp only [skipSpace_newLine, hopens.skipSpace]
        exact ih hlater hdeeper (by omega) _
      · obtain ⟨stop, hstop, hproblem⟩ := hrefused.refuses fuel _ (by omega)
          (ended_behindPart depth hended ((next :: parts).map (·.1)))
        exact ⟨stop, by rw [readItems, hstop]; rfl, hproblem⟩

theorem readMembers_refused_part {m : CodeText × String × Json}
    (hname : ∀ point ∈ m.1, point.isSurrogate = false) (h : Refused room m.2.1.toList) {fuel : Nat}
    (hfuel : m.2.1.toList.length ≤ fuel) (done : List (CodeText × Json)) {cs : List Char}
    (hended : Ended cs) :
    ∃ stop, readMembers (fuel + 1) room done ((memberText m).toList ++ cs) = .error stop ∧
      stop.problem.IsTooDeep := by
  have hblank : skipSpace (' ' :: (m.2.1.toList ++ cs)) = m.2.1.toList ++ cs :=
    h.opens.skipSpace cs
  have hcolon : ∀ rest, skipSpace (':' :: rest) = ':' :: rest := fun rest => rfl
  obtain ⟨stop, hstop, hproblem⟩ := h.refuses fuel cs hfuel hended
  refine ⟨stop, ?_, hproblem⟩
  rw [toList_memberText, readMembers]
  simp only [readString_written _ _ hname, hcolon, hblank, hstop, bind, Except.bind]

theorem readMembers_refused {depth : Nat} {closing : List Char} (hended : Ended closing)
    {part : CodeText × String × Json} {parts : List (CodeText × String × Json)}
    (hname : ∀ p ∈ part :: parts, ∀ point ∈ p.1, point.isSurrogate = false)
    (h : ∀ p ∈ part :: parts, ReadsAs room p.2.1.toList p.2.2 ∨ Refused room p.2.1.toList)
    (hdeep : ∃ p ∈ part :: parts, Refused room p.2.1.toList) {fuel : Nat}
    (hfuel : ((memberText part).toList ++
      behindPart depth [] (parts.map memberText)).length < fuel)
    (done : List (CodeText × Json)) :
    ∃ stop, readMembers fuel room done ((memberText part).toList ++
        behindPart depth closing (parts.map memberText)) = .error stop ∧
      stop.problem.IsTooDeep := by
  induction parts generalizing part fuel done with
  | nil =>
      obtain ⟨fuel, rfl⟩ := Nat.exists_eq_add_one_of_ne_zero (Nat.ne_zero_of_lt hfuel)
      obtain ⟨p, hp, hrefused⟩ := hdeep
      obtain rfl := List.mem_singleton.1 hp
      have hvalue := length_value_le p
      rw [List.length_append] at hfuel
      exact readMembers_refused_part (hname p List.mem_cons_self) hrefused (by omega) done hended
  | cons next parts ih =>
      obtain ⟨fuel, rfl⟩ := Nat.exists_eq_add_one_of_ne_zero (Nat.ne_zero_of_lt hfuel)
      have hlater : ∀ p ∈ next :: parts,
          ReadsAs room p.2.1.toList p.2.2 ∨ Refused room p.2.1.toList :=
        fun p hp => h p (List.mem_cons_of_mem _ hp)
      have hvalue := length_value_le part
      rw [List.map_cons, behindPart, List.length_append, List.length_cons, List.length_append]
        at hfuel
      -- If the first value is read, the one that is refused comes later.
      rcases h part List.mem_cons_self with hreads | hrefused
      · have hdeeper : ∃ p ∈ next :: parts, Refused room p.2.1.toList := by
          obtain ⟨p, hp, hrefused⟩ := hdeep
          rcases List.mem_cons.1 hp with rfl | hp
          · exact absurd hrefused hreads.not_refused
          · exact ⟨p, hp, hrefused⟩
        rw [List.map_cons, behindPart,
          readMembers_part ⟨hname part List.mem_cons_self, hreads⟩ (by omega) done (ended_comma _),
          skipSpace_closing (Or.inr (Or.inr rfl))]
        simp only [skipSpace_newLine, skipSpace_memberText]
        exact ih (fun p hp => hname p (List.mem_cons_of_mem _ hp)) hlater hdeeper (by omega) _
      · exact readMembers_refused_part (hname part List.mem_cons_self) hrefused (by omega) done
          (ended_behindPart depth hended ((next :: parts).map memberText))

/-! ## Blocks that are refused -/

/-- A list is refused where there is no room for any. -/
theorem refused_listBlock_zero (depth : Nat) (parts : List String) :
    Refused 0 (writeBlock depth "[" "]" parts).toList := by
  refine ⟨opens_listBlock depth _, fun fuel rest hfuel _ => ?_⟩
  obtain ⟨fuel, rfl⟩ := (opens_listBlock depth _).exists_fuel hfuel
  obtain ⟨cs, htext⟩ := exists_toList_listBlock depth parts
  rw [htext]
  exact ⟨⟨.listTooDeep, _⟩, rfl, Or.inl rfl⟩

/-- A list with an item that is refused is refused. -/
theorem refused_listBlock (depth : Nat) {items : List (String × Json)}
    (h : ∀ p ∈ items, ReadsAs room p.1.toList p.2 ∨ Refused room p.1.toList)
    (hdeep : ∃ p ∈ items, Refused room p.1.toList) :
    Refused (room + 1) (writeBlock depth "[" "]" (items.map (·.1))).toList := by
  refine ⟨opens_listBlock depth _, fun fuel rest hfuel _ => ?_⟩
  cases items with
  | nil =>
      obtain ⟨_, hnone, -⟩ := hdeep
      cases hnone
  | cons part parts =>
      obtain ⟨less, hless, hread⟩ := readValue_listBlock depth
        ((h part List.mem_cons_self).elim (·.opens) (·.opens)) rest hfuel
      rw [List.map_cons, hread]
      exact readItems_refused (ended_newLine _ _) h hdeep hless []

theorem refused_objectBlock_zero (depth : Nat) (parts : List String) :
    Refused 0 (writeBlock depth "\x7b" "\x7d" parts).toList := by
  refine ⟨opens_objectBlock depth _, fun fuel rest hfuel _ => ?_⟩
  obtain ⟨fuel, rfl⟩ := (opens_objectBlock depth _).exists_fuel hfuel
  obtain ⟨cs, htext⟩ := exists_toList_objectBlock depth parts
  rw [htext]
  exact ⟨⟨.objectTooDeep, _⟩, rfl, Or.inr rfl⟩

theorem refused_objectBlock (depth : Nat) {members : List (CodeText × String × Json)}
    (hname : ∀ p ∈ members, ∀ point ∈ p.1, point.isSurrogate = false)
    (h : ∀ p ∈ members, ReadsAs room p.2.1.toList p.2.2 ∨ Refused room p.2.1.toList)
    (hdeep : ∃ p ∈ members, Refused room p.2.1.toList) :
    Refused (room + 1) (writeBlock depth "\x7b" "\x7d" (members.map memberText)).toList := by
  refine ⟨opens_objectBlock depth _, fun fuel rest hfuel _ => ?_⟩
  cases members with
  | nil =>
      obtain ⟨_, hnone, -⟩ := hdeep
      cases hnone
  | cons part parts =>
      obtain ⟨less, hless, hread⟩ := readValue_objectBlock depth rest hfuel
      rw [hread]
      exact readMembers_refused (ended_newLine _ _) hname h hdeep hless []

/-! ## Values that are refused -/

theorem exists_of_lt_depthItems {items : List Json} (h : room < depthItems items) :
    ∃ item ∈ items, room < item.depth := by
  induction items with
  | nil => cases h
  | cons first items ih =>
      rw [depthItems, lt_max_iff] at h
      rcases h with h | h
      · exact ⟨first, List.mem_cons_self, h⟩
      · obtain ⟨item, hitem, hdepth⟩ := ih h
        exact ⟨item, List.mem_cons_of_mem _ hitem, hdepth⟩

theorem exists_of_lt_depthMembers {members : List (CodeText × Json)}
    (h : room < depthMembers members) : ∃ m ∈ members, room < m.2.depth := by
  induction members with
  | nil => cases h
  | cons first members ih =>
      rw [depthMembers, lt_max_iff] at h
      rcases h with h | h
      · exact ⟨first, List.mem_cons_self, h⟩
      · obtain ⟨m, hm, hdepth⟩ := ih h
        exact ⟨m, List.mem_cons_of_mem _ hm, hdepth⟩

/-- A value that is refused when it is too deep is read or refused, however deep it is. -/
theorem Storable.reads_or_refused {value : Json} (h : value.Storable) (level room : Nat)
    (hrefused : room < value.depth → Refused room (writeAt level value).toList) :
    ReadsAs room (writeAt level value).toList value.sorted ∨
      Refused room (writeAt level value).toList :=
  (Nat.lt_or_ge room value.depth).symm.imp (h.readsAs level) hrefused

/-- **The text of a value that is deeper than the room is refused.** -/
theorem Storable.refused {value : Json} (h : value.Storable) (level : Nat) {room : Nat}
    (hroom : room < value.depth) : Refused room (writeAt level value).toList := by
  induction h generalizing level room with
  | null => cases hroom
  | boolean value => cases hroom
  | integer value few => cases hroom
  | real value => cases hroom
  | text value whole => cases hroom
  | list items each ih =>
      rw [depth] at hroom
      rw [writeAt_list_eq]
      -- Without room the list itself is refused; else one of its items is deeper than what is left.
      cases room with
      | zero => exact refused_listBlock_zero level _
      | succ room =>
          obtain ⟨deep, hdeep, hdepth⟩ := exists_of_lt_depthItems (Nat.lt_of_succ_lt_succ hroom)
          refine refused_listBlock level (fun part hpart => ?_)
            ⟨_, List.mem_map_of_mem hdeep, ih deep hdeep (level + 1) hdepth⟩
          obtain ⟨item, hitem, rfl⟩ := List.mem_map.1 hpart
          exact (each item hitem).reads_or_refused (level + 1) room (ih item hitem (level + 1))
  | object members distinct whole each ih =>
      rw [depth] at hroom
      rw [writeAt_object_eq]
      cases room with
      | zero => exact refused_objectBlock_zero level _
      | succ room =>
          obtain ⟨deep, hdeep, hdepth⟩ :=
            exists_of_lt_depthMembers (Nat.lt_of_succ_lt_succ hroom)
          refine refused_objectBlock level (fun part hpart => ?_) (fun part hpart => ?_)
            ⟨_, List.mem_map_of_mem (mem_inOrder.2 hdeep), ih deep hdeep (level + 1) hdepth⟩
          · obtain ⟨m, hm, rfl⟩ := List.mem_map.1 hpart
            exact whole m (mem_inOrder.1 hm)
          · obtain ⟨m, hm, rfl⟩ := List.mem_map.1 hpart
            have hmember := mem_inOrder.1 hm
            exact (each m hmember).reads_or_refused (level + 1) room (ih m hmember (level + 1))

theorem readWithin_write_of_lt {value : Json} (h : value.Storable) {room : Nat}
    (hroom : room < value.depth) :
    ∃ fault, readWithin room value.write = .error fault ∧ fault.problem.IsTooDeep := by
  have hrefused := h.refused 0 hroom
  obtain ⟨stop, hstop, hproblem⟩ :=
    hrefused.refuses (2 * (writeAt 0 value).toList.length + 2) [] (by omega) (by rintro _ ⟨⟩)
  rw [List.append_nil] at hstop
  refine ⟨stop.locate value.write.toList, ?_, hproblem⟩
  rw [readWithin, write, readDocument_of_opens hrefused.opens, hstop]
  rfl

end IconForge.Json
