import Mathlib.Data.List.Perm.Basic

set_option autoImplicit false

/-! # Results of steps

A step gives a value or ends with a fault. What several steps come to is a value only if each of
them gave one: two steps one after the other (`bind_eq_ok_iff`), or one for every item of a list
(`mapM_eq_ok_iff`). -/

namespace IconForge

variable {ε α β : Type}

theorem bind_eq_ok_iff {first : Except ε α} {next : α → Except ε β} {b : β} :
    first >>= next = .ok b ↔ ∃ a, first = .ok a ∧ next a = .ok b := by
  cases first with
  | error fault => exact iff_of_false (by rintro ⟨⟩) (by rintro ⟨a, ⟨⟩, -⟩)
  | ok a =>
      constructor
      · exact fun h => ⟨a, rfl, h⟩
      · rintro ⟨_, ⟨⟩, h⟩
        exact h

theorem mapError_eq_ok_iff {ε' : Type} {f : ε → ε'} {result : Except ε α} {a : α} :
    result.mapError f = .ok a ↔ result = .ok a := by
  cases result with
  | error fault => exact iff_of_false (by rintro ⟨⟩) (by rintro ⟨⟩)
  | ok value =>
      constructor
      · rintro ⟨⟩
        rfl
      · rintro ⟨⟩
        rfl

/-- Results are the same if they are the same with other faults in place of their own. -/
theorem mapError_injective {ε' : Type} {f : ε → ε'} (hf : Function.Injective f) :
    Function.Injective (Except.mapError f : Except ε α → Except ε' α) := by
  rintro (fault | value) (fault' | value') h
  · rw [hf (Except.error.inj h)]
  · cases h
  · cases h
  · rw [Except.ok.inj h]

/-! ## Lists of results -/

theorem mapM_eq_ok_iff {f : α → Except ε β} {items : List α} {values : List β} :
    items.mapM f = .ok values ↔
      List.Forall₂ (fun item value => f item = .ok value) items values := by
  induction items generalizing values with
  | nil =>
      rw [List.mapM_nil]
      constructor
      · rintro ⟨⟩
        exact .nil
      · rintro ⟨⟩
        rfl
  | cons item items ih =>
      rw [List.mapM_cons, bind_eq_ok_iff]
      constructor
      · rintro ⟨value, hfirst, h⟩
        obtain ⟨rest, hrest, ⟨⟩⟩ := bind_eq_ok_iff.1 h
        exact .cons hfirst (ih.1 hrest)
      · rintro (_ | ⟨hfirst, hrest⟩)
        exact ⟨_, hfirst, bind_eq_ok_iff.2 ⟨_, ih.2 hrest, rfl⟩⟩

theorem mapM_append_eq_ok {f : α → Except ε β} {front behind : List α} {values : List β}
    (h : (front ++ behind).mapM f = .ok values) :
    ∃ before others, front.mapM f = .ok before ∧ behind.mapM f = .ok others ∧
      values = before ++ others := by
  rw [List.mapM_append, bind_eq_ok_iff] at h
  obtain ⟨before, hfront, h⟩ := h
  obtain ⟨others, hbehind, ⟨⟩⟩ := bind_eq_ok_iff.1 h
  exact ⟨before, others, hfront, hbehind, rfl⟩

/-- The results of rearranged items are the rearranged results. -/
theorem mapM_perm {f : α → Except ε β} {items others : List α} {values : List β}
    (h : items.Perm others) (hvalues : others.mapM f = .ok values) :
    ∃ found, items.mapM f = .ok found ∧ found.Perm values := by
  obtain ⟨found, hfound, hperm⟩ := List.perm_comp_forall₂ h (mapM_eq_ok_iff.1 hvalues)
  exact ⟨found, mapM_eq_ok_iff.2 hfound, hperm⟩

end IconForge
