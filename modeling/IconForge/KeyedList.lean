set_option autoImplicit false

/-! # Keyed lists

A list of pairs of a key and a value that keeps the order in which its keys were first set: the
members of an object, the declarations of a tag, the entries of a file system. Setting a key that
is there already changes its value at its place. Of several pairs with one key the first counts.

The main statements say what setting a key does to the value of every key (`get?_set`) and that
distinct keys stay distinct (`nodup_set`). -/

namespace IconForge.KeyedList

variable {κ α : Type} [DecidableEq κ]

/-- The value of a key. -/
@[specialize] def get? : List (κ × α) → κ → Option α
  | [], _ => none
  | pair :: pairs, key => if pair.1 = key then some pair.2 else get? pairs key

/-- Give a key a value, at its place or, for a new key, at the end. -/
@[specialize] def set : List (κ × α) → κ → α → List (κ × α)
  | [], key, value => [(key, value)]
  | pair :: pairs, key, value =>
    if pair.1 = key then (key, value) :: pairs else pair :: set pairs key value

/-- Give several keys their values, one after the other. -/
def setAll (pairs changes : List (κ × α)) : List (κ × α) :=
  changes.foldl (fun pairs change => set pairs change.1 change.2) pairs

/-! ## Values and members -/

theorem mem_of_get? {pairs : List (κ × α)} {key : κ} {value : α}
    (h : get? pairs key = some value) : (key, value) ∈ pairs := by
  induction pairs with
  | nil => cases h
  | cons pair pairs ih =>
    by_cases heq : pair.1 = key
    · simp only [get?, heq, if_pos, Option.some.injEq] at h
      rw [← heq, ← h]
      exact List.mem_cons_self
    · simp only [get?, heq, if_false] at h
      exact List.mem_cons_of_mem _ (ih h)

theorem get?_of_mem {pairs : List (κ × α)} (hnodup : (pairs.map (·.1)).Nodup) {pair : κ × α}
    (h : pair ∈ pairs) : get? pairs pair.1 = some pair.2 := by
  induction pairs with
  | nil => cases h
  | cons first pairs ih =>
    simp only [List.map_cons, List.nodup_cons, List.mem_map, not_exists, not_and] at hnodup
    rcases List.mem_cons.1 h with rfl | h
    · simp [get?]
    · have hne : first.1 ≠ pair.1 := fun heq => hnodup.1 pair h heq.symm
      simp only [get?, hne, if_false]
      exact ih hnodup.2 h

theorem get?_of_notMem {pairs : List (κ × α)} {key : κ} (h : key ∉ pairs.map (·.1)) :
    get? pairs key = none := by
  cases hget : get? pairs key with
  | none => rfl
  | some value => exact absurd (List.mem_map_of_mem (mem_of_get? hget)) h

theorem get?_append (pairs others : List (κ × α)) (key : κ) :
    get? (pairs ++ others) key = (get? pairs key).or (get? others key) := by
  induction pairs with
  | nil => simp [get?]
  | cons pair pairs ih =>
    by_cases heq : pair.1 = key
    · simp [get?, heq]
    · simp [get?, heq, ih]

/-- Distinct keys have their values in any order. -/
theorem get?_reverse {pairs : List (κ × α)} (hnodup : (pairs.map (·.1)).Nodup) (key : κ) :
    get? pairs.reverse key = get? pairs key := by
  have hreverse : (pairs.reverse.map (·.1)).Nodup := by
    rw [List.map_reverse]
    exact List.pairwise_reverse.2 (hnodup.imp Ne.symm)
  apply Option.ext
  intro value
  constructor
  · exact fun h => get?_of_mem hnodup (List.mem_reverse.1 (mem_of_get? h))
  · exact fun h => get?_of_mem hreverse (List.mem_reverse.2 (mem_of_get? h))

/-! ## Setting a key -/

theorem get?_set (pairs : List (κ × α)) (key other : κ) (value : α) :
    get? (set pairs key value) other = if key = other then some value else get? pairs other := by
  induction pairs with
  | nil => rfl
  | cons pair pairs ih =>
    by_cases heq : pair.1 = key
    · subst heq
      by_cases hother : pair.1 = other
      · simp [set, get?, hother]
      · simp [set, get?, hother]
    · simp only [set, heq, if_false, get?, ih]
      by_cases hother : pair.1 = other
      · have : key ≠ other := fun h => heq (hother.trans h.symm)
        simp [hother, this]
      · simp [hother]

theorem mem_set {pairs : List (κ × α)} {key : κ} {value : α} {pair : κ × α}
    (h : pair ∈ set pairs key value) : pair = (key, value) ∨ pair ∈ pairs := by
  induction pairs with
  | nil => exact Or.inl (List.mem_singleton.1 h)
  | cons first pairs ih =>
    by_cases heq : first.1 = key
    · simp only [set, heq, if_pos] at h
      rcases List.mem_cons.1 h with h | h
      · exact Or.inl h
      · exact Or.inr (List.mem_cons_of_mem _ h)
    · simp only [set, heq, if_false] at h
      rcases List.mem_cons.1 h with rfl | h
      · exact Or.inr List.mem_cons_self
      · exact (ih h).imp_right (List.mem_cons_of_mem _)

theorem mem_set_of_ne {pairs : List (κ × α)} {key : κ} {value : α} {pair : κ × α}
    (h : pair ∈ pairs) (hne : pair.1 ≠ key) : pair ∈ set pairs key value := by
  induction pairs with
  | nil => cases h
  | cons first pairs ih =>
    rcases List.mem_cons.1 h with rfl | h
    · simp [set, hne]
    · by_cases heq : first.1 = key
      · simp only [set, heq, if_pos]
        exact List.mem_cons_of_mem _ h
      · simp only [set, heq, if_false]
        exact List.mem_cons_of_mem _ (ih h)

theorem nodup_set {pairs : List (κ × α)} {key : κ} {value : α} (h : (pairs.map (·.1)).Nodup) :
    ((set pairs key value).map (·.1)).Nodup := by
  induction pairs with
  | nil => simp [set]
  | cons first pairs ih =>
    simp only [List.map_cons, List.nodup_cons, List.mem_map, not_exists, not_and] at h
    by_cases heq : first.1 = key
    · simp only [set, heq, if_pos, List.map_cons, List.nodup_cons, List.mem_map, not_exists,
        not_and]
      exact ⟨fun pair hpair => heq ▸ h.1 pair hpair, h.2⟩
    · simp only [set, heq, if_false, List.map_cons, List.nodup_cons, List.mem_map, not_exists,
        not_and]
      refine ⟨fun pair hpair => ?_, ih h.2⟩
      rcases mem_set hpair with rfl | hpair
      · exact fun h => heq h.symm
      · exact h.1 pair hpair

/-- A new key is set at the end. -/
theorem set_of_notMem {pairs : List (κ × α)} {key : κ} (h : key ∉ pairs.map (·.1)) (value : α) :
    set pairs key value = pairs ++ [(key, value)] := by
  induction pairs with
  | nil => rfl
  | cons pair pairs ih =>
    rw [List.map_cons, List.mem_cons, not_or] at h
    rw [set, if_neg (Ne.symm h.1), ih h.2, List.cons_append]

/-! ## Setting several keys -/

theorem mem_setAll {pairs changes : List (κ × α)} {pair : κ × α}
    (h : pair ∈ setAll pairs changes) : pair ∈ pairs ∨ pair ∈ changes := by
  induction changes generalizing pairs with
  | nil => exact Or.inl h
  | cons change changes ih =>
      rcases ih h with h | h
      · rcases mem_set h with rfl | h
        · exact Or.inr List.mem_cons_self
        · exact Or.inl h
      · exact Or.inr (List.mem_cons_of_mem _ h)

theorem nodup_setAll {pairs changes : List (κ × α)} (h : (pairs.map (·.1)).Nodup) :
    ((setAll pairs changes).map (·.1)).Nodup := by
  induction changes generalizing pairs with
  | nil => exact h
  | cons change changes ih => exact ih (nodup_set h)

/-- The last value that was set for a key is its value, else the one it had. -/
theorem get?_setAll (pairs changes : List (κ × α)) (key : κ) :
    get? (setAll pairs changes) key = (get? changes.reverse key).or (get? pairs key) := by
  induction changes generalizing pairs with
  | nil => simp [setAll, get?]
  | cons change changes ih =>
    show get? (setAll (set pairs change.1 change.2) changes) key = _
    rw [ih, get?_set, List.reverse_cons, get?_append, Option.or_assoc]
    by_cases heq : change.1 = key
    · simp [get?, heq]
    · simp [get?, heq]

/-- The value that was set for a key is the value of the key. -/
theorem get?_setAll_of_mem {pairs changes : List (κ × α)} (hnodup : (changes.map (·.1)).Nodup)
    {pair : κ × α} (h : pair ∈ changes) : get? (setAll pairs changes) pair.1 = some pair.2 := by
  rw [get?_setAll, get?_reverse hnodup, get?_of_mem hnodup h, Option.some_or]

/-- New keys are set at the end. -/
theorem setAll_of_nodup {pairs changes : List (κ × α)}
    (h : ((pairs ++ changes).map (·.1)).Nodup) : setAll pairs changes = pairs ++ changes := by
  induction changes generalizing pairs with
  | nil => rw [List.append_nil]; rfl
  | cons change changes ih =>
    have hsplit : pairs ++ change :: changes = (pairs ++ [(change.1, change.2)]) ++ changes := by
      rw [List.append_assoc, List.singleton_append]
    have hnew : change.1 ∉ pairs.map (·.1) := by
      rw [List.map_append, List.nodup_append] at h
      exact fun hmem => h.2.2 _ hmem _ List.mem_cons_self rfl
    rw [hsplit] at h ⊢
    rw [← ih h, ← set_of_notMem hnew]
    rfl

/-- The first key stays the first one. -/
theorem setAll_cons (pair : κ × α) (pairs changes : List (κ × α)) :
    ∃ value rest, setAll (pair :: pairs) changes = (pair.1, value) :: rest := by
  induction changes generalizing pair pairs with
  | nil => exact ⟨pair.2, pairs, rfl⟩
  | cons change changes ih =>
    by_cases heq : pair.1 = change.1
    · have hset : set (pair :: pairs) change.1 change.2 = (change.1, change.2) :: pairs := if_pos heq
      obtain ⟨value, rest, hall⟩ := ih (change.1, change.2) pairs
      exact ⟨value, rest, by rw [heq, ← hall, ← hset]; rfl⟩
    · have hset : set (pair :: pairs) change.1 change.2 =
          pair :: set pairs change.1 change.2 := if_neg heq
      obtain ⟨value, rest, hall⟩ := ih pair (set pairs change.1 change.2)
      exact ⟨value, rest, by rw [← hall, ← hset]; rfl⟩

/-- What was set over a pair is the same when it is set over that pair again. -/
theorem setAll_setAll (pair : κ × α) (changes : List (κ × α)) :
    setAll [pair] (setAll [pair] changes) = setAll [pair] changes := by
  have hnodup : ((setAll [pair] changes).map (·.1)).Nodup :=
    nodup_setAll (List.pairwise_singleton _ _)
  obtain ⟨value, rest, hall⟩ := setAll_cons pair [] changes
  rw [hall] at hnodup ⊢
  have hset : set [pair] pair.1 value = [(pair.1, value)] := if_pos rfl
  show setAll (set [pair] pair.1 value) rest = _
  rw [hset]
  exact setAll_of_nodup hnodup

theorem mem_iff_get? {pairs : List (κ × α)} (hnodup : (pairs.map (·.1)).Nodup) {pair : κ × α} :
    pair ∈ pairs ↔ get? pairs pair.1 = some pair.2 :=
  ⟨get?_of_mem hnodup, mem_of_get?⟩

/-- The value of a key depends on the pairs with that key alone, and on their order. -/
theorem get?_filter (pairs : List (κ × α)) (key : κ) :
    get? (pairs.filter (·.1 = key)) key = get? pairs key := by
  induction pairs with
  | nil => rfl
  | cons pair pairs ih =>
    by_cases heq : pair.1 = key
    · rw [List.filter_cons_of_pos (by simpa using heq), get?, get?, if_pos heq, if_pos heq]
    · rw [List.filter_cons_of_neg (by simpa using heq), get?, if_neg heq, ih]

/-! ## Other keys and values -/

section Map

variable {κ' α' : Type} [DecidableEq κ'] {f : κ → κ'}

theorem map_set (hf : ∀ key other, f key = f other → key = other) (g : α → α')
    (pairs : List (κ × α)) (key : κ) (value : α) :
    (set pairs key value).map (Prod.map f g) =
      set (pairs.map (Prod.map f g)) (f key) (g value) := by
  induction pairs with
  | nil => rfl
  | cons pair pairs ih =>
    by_cases heq : pair.1 = key
    · simp [set, heq]
    · have hne : ¬ f pair.1 = f key := fun h => heq (hf _ _ h)
      simp [set, heq, hne, ih]

/-- Keys and values may be renamed before they are set as well as after. -/
theorem map_setAll (hf : ∀ key other, f key = f other → key = other) (g : α → α')
    (pairs changes : List (κ × α)) :
    (setAll pairs changes).map (Prod.map f g) =
      setAll (pairs.map (Prod.map f g)) (changes.map (Prod.map f g)) := by
  induction changes generalizing pairs with
  | nil => rfl
  | cons change changes ih =>
    show (setAll (set pairs change.1 change.2) changes).map (Prod.map f g) = _
    rw [ih, map_set hf]
    rfl

end Map

end IconForge.KeyedList
