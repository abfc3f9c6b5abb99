import IconForge.Text.CodePoint

set_option autoImplicit false

/-! # Locations

A location is a place in a tree of directories, given by the names on the way from it up to the
directory at the top. Going down adds a name at the front, going up drops it.

The number of the names is kept with them. Two locations of different depths are told apart by
their depths alone, so a look-up in a deep tree compares names only where depths agree. -/

namespace IconForge

/-- A place in a tree of directories. -/
structure Location where
  /-- How many directories lie above. -/
  depth : Nat
  /-- The names from the place upwards. -/
  names : List CodeText
  depth_eq : depth = names.length
deriving Repr

namespace Location

theorem ext {a b : Location} (h : a.names = b.names) : a = b := by
  obtain ⟨da, na, ha⟩ := a
  obtain ⟨db, nb, hb⟩ := b
  cases h
  cases ha
  cases hb
  rfl

/-- Whether two locations are the same, by their depths first. -/
def same (a b : Location) : Bool :=
  a.depth == b.depth && a.names == b.names

theorem same_iff {a b : Location} : same a b ↔ a = b := by
  constructor
  · intro h
    rw [same, Bool.and_eq_true] at h
    exact ext (eq_of_beq h.2)
  · rintro rfl
    simp [same]

instance : DecidableEq Location := fun _ _ =>
  decidable_of_iff _ same_iff

/-- The directory at the top. -/
def top : Location :=
  ⟨0, [], rfl⟩

/-- The location of a name in a directory. -/
def within (here : Location) (name : CodeText) : Location :=
  ⟨here.depth + 1, name :: here.names, congrArg (· + 1) here.depth_eq⟩

/-- The location of the directory that holds a place. The top is above itself. -/
def above (here : Location) : Location :=
  ⟨here.depth - 1, here.names.tail, by rw [here.depth_eq, List.length_tail]⟩

/-- The place that names lead down to. -/
def down (here : Location) (names : List CodeText) : Location where
  depth := names.length + here.depth
  names := names.reverse ++ here.names
  depth_eq := by rw [List.length_append, List.length_reverse, here.depth_eq]

/-- The names from the top down. -/
def toNames (here : Location) : List CodeText :=
  here.names.reverse

/-- The names that lead down from a location to a place below it. -/
def namesBelow? (here place : Location) : Option (List CodeText) :=
  if here.names.isSuffixOf place.names then
    some (place.names.take (place.depth - here.depth)).reverse
  else none

/-! ## Up and down -/

theorem above_within (here : Location) (name : CodeText) : (here.within name).above = here :=
  ext rfl

theorem above_ne {here : Location} (h : here ≠ top) : here.above ≠ here := by
  intro heq
  have hlength := congrArg (fun location => location.names.length) heq
  cases hnames : here.names with
  | nil => exact h (ext hnames)
  | cons name names => simp [above, hnames] at hlength

end Location

end IconForge
