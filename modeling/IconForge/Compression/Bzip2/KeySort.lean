set_option autoImplicit false

/-! # Sorting by keys

Items are sorted by their keys. In which order items with one key come is fixed by the way of
sorting: few items are sorted at once, every fourth of them first; more are parted by the key of
one of them into those with lower keys, with this one and with higher keys. -/

namespace IconForge.Compression.Bzip2

/-! ## Few items -/

/-- Sort items; those with one key stay in their order. -/
def sortStably (key : Nat → Nat) (items : List Nat) : List Nat :=
  items.mergeSort fun a b => decide (key a ≤ key b)

/-- Every fourth item, from a place on. -/
def everyFourth (items : Array Nat) (start : Nat) : List Nat :=
  (List.range ((items.size + 3 - start) / 4)).map fun i => items.getD (start + 4 * i) 0

/-- Sort the items whose places have one remainder modulo four among each other. -/
def sortFourths (key : Nat → Nat) (items : Array Nat) : List Nat :=
  let fourths := ((List.range 4).map fun start => sortStably key (everyFourth items start)).toArray
  (List.range items.size).map fun i => (fourths.getD (i % 4) []).getD (i / 4) 0

/-- Sort few items. -/
def sortFew (key : Nat → Nat) (items : Array Nat) : Array Nat :=
  (sortStably key (sortFourths key items)).toArray

/-! ## Parting -/

/-- Items while they are parted. Those in front of `low` and from `high` on have the key itself.
From `low` on the keys are lower, from `right` on they are higher, and the items from `left` up to
`right` are still to be looked at. -/
structure Parting where
  items : Array Nat
  low : Nat
  left : Nat
  right : Nat
  high : Nat

namespace Parting

/-- Nothing has been looked at. -/
def ofItems (items : Array Nat) : Parting :=
  { items := items, low := 0, left := 0, right := items.size, high := items.size }

/-- Look at all items. One with the key itself goes to the outside on its side, and a higher one in
front changes places with a lower one behind. -/
def run (key : Nat → Nat) (pivot : Nat) (p : Parting) : Parting :=
  let front := key (p.items.getD p.left 0)
  let back := key (p.items.getD (p.right - 1) 0)
  if _h : p.left < p.right then
    if front = pivot then
      run key pivot
        { p with
          items := p.items.swapIfInBounds p.left p.low, low := p.low + 1, left := p.left + 1 }
    else if front < pivot then run key pivot { p with left := p.left + 1 }
    else if back = pivot then
      run key pivot
        { p with
          items := p.items.swapIfInBounds (p.right - 1) (p.high - 1)
          right := p.right - 1
          high := p.high - 1 }
    else if pivot < back then run key pivot { p with right := p.right - 1 }
    else
      run key pivot
        { p with
          items := p.items.swapIfInBounds p.left (p.right - 1)
          left := p.left + 1
          right := p.right - 1 }
  else p
termination_by p.right - p.left

/-- Change the first items with the last ones. -/
def swapEnds (items : Array Nat) (count : Nat) : Array Nat :=
  items.extract (items.size - count) items.size ++ items.extract count (items.size - count) ++
    items.extract 0 count

/-- The items in front of the ones with higher keys, the lower ones first. -/
def front (p : Parting) : Array Nat :=
  swapEnds (p.items.extract 0 p.left) (min p.low (p.left - p.low))

/-- The items behind the ones with lower keys, the higher ones last. -/
def back (p : Parting) : Array Nat :=
  swapEnds (p.items.extract p.left p.items.size) (min (p.high - p.left) (p.items.size - p.high))

/-- The items with lower keys. -/
def lower (p : Parting) : Array Nat :=
  p.front.extract 0 (p.left - p.low)

/-- The items with the key itself. -/
def equal (p : Parting) : Array Nat :=
  p.front.extract (p.left - p.low) p.left ++ p.back.extract 0 (p.items.size - p.high)

/-- The items with higher keys. -/
def higher (p : Parting) : Array Nat :=
  p.back.extract (p.items.size - p.high) (p.items.size - p.left)

end Parting

/-! ## Sorting -/

/-- The next number by which a pivot is chosen. -/
def nextSeed (seed : Nat) : Nat :=
  (seed * 7621 + 1) % 0x8000

/-- The place of the pivot: the first one, the middle or the last one. -/
def pivotPlace (seed size : Nat) : Nat :=
  match seed % 3 with
  | 0 => 0
  | 1 => (size - 1) / 2
  | _ => size - 1

/-- Sort items by parting, to a depth at most. Of the lower and the higher ones those that are
fewer come first, since each parting takes another seed. -/
def sortParted (key : Nat → Nat) : Nat → Nat → Array Nat → Array Nat × Nat
  | 0, seed, items => (items, seed)
  | depth + 1, seed, items =>
    if items.size ≤ 10 then (sortFew key items, seed)
    else
      let seed := nextSeed seed
      let pivot := key (items.getD (pivotPlace seed items.size) 0)
      let p := (Parting.ofItems items).run key pivot
      if p.higher.size < p.lower.size then
        let (higher, seed) := sortParted key depth seed p.higher
        let (lower, seed) := sortParted key depth seed p.lower
        (lower ++ p.equal ++ higher, seed)
      else
        let (lower, seed) := sortParted key depth seed p.lower
        let (higher, seed) := sortParted key depth seed p.higher
        (lower ++ p.equal ++ higher, seed)

/-- Sort items by their keys. -/
def sortByKey (key : Nat → Nat) (items : Array Nat) : Array Nat :=
  (sortParted key items.size 0 items).1

end IconForge.Compression.Bzip2
