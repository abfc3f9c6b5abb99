import IconForge.Compression.Bzip2.BucketSort

set_option autoImplicit false

/-! # Rotations

The second stage of bzip2 sorts the rotations of a block and keeps the last byte of each, and the
place of the block itself among them. A rotation is told by where it begins. Rotations are kept in
groups, in the order of the groups: first those with the same first byte, then with the same first
two, four, eight and so on. A group is split by where the rest of its rotations stands. The
rotations that are equal to each other stay together, in the order that sorting leaves them in. -/

namespace IconForge.Compression.Bzip2

/-- Rotations by their first bytes. Those with one first byte stand in the reverse order of their
beginnings. -/
def firstGroups (block : Array UInt8) : List (Array Nat) :=
  let groups := (List.range block.size).foldl
    (fun groups i => groups.modify (block.getD i 0).toNat (i :: ·)) (Array.replicate 256 [])
  (groups.toList.filter (!·.isEmpty)).map List.toArray

/-- For each rotation, the place where the group of the one that begins `step` bytes behind it
starts. -/
def placesBehind (size step : Nat) (groups : List (Array Nat)) : Array Nat :=
  (groups.foldl (fun (places, start) group =>
    (group.foldl (fun (places : Array Nat) i =>
      places.setIfInBounds ((i + size - step) % size) start) places, start + group.size))
    (Array.replicate size 0, 0)).1

/-- Split items into those that follow each other with one key. -/
def splitByKey (key : Nat → Nat) (items : Array Nat) : List (Array Nat) :=
  (items.toList.splitBy fun a b => key a = key b).map List.toArray

/-- Groups by twice as many bytes, from groups by `step` bytes. -/
def refine (size step : Nat) (groups : List (Array Nat)) : List (Array Nat) :=
  let places := placesBehind size step groups
  let key (i : Nat) : Nat := places.getD i 0
  groups.flatMap fun group =>
    if group.size ≤ 1 then [group] else splitByKey key (sortByKey key group)

/-- Groups by all bytes, from groups by `step` bytes. The first argument bounds the rounds. -/
def fullGroups (size : Nat) : Nat → Nat → List (Array Nat) → List (Array Nat)
  | 0, _, groups => groups
  | rounds + 1, step, groups =>
    if size < step ∨ groups.all (·.size ≤ 1) then groups
    else fullGroups size rounds (2 * step) (refine size step groups)

/-- The beginnings of the rotations of a block in the order of the rotations, by groups. -/
def sortedByGroups (block : Array UInt8) : List Nat :=
  (fullGroups block.size block.size 1 (firstGroups block)).flatMap Array.toList

/-- The size from which on a block is large. -/
def largeSize : Nat :=
  10000

/-- The beginnings of the rotations of a block in the order of the rotations. -/
def sortedRotations (block : Array UInt8) : List Nat :=
  if block.size < largeSize then sortedByGroups block
  else
    match sortedByBuckets? block with
    | some sorted => sorted
    | none => sortedByGroups block

/-- The last bytes of the sorted rotations of a block and the place of the block among them. -/
def lastColumn (block : Array UInt8) : List UInt8 × Nat :=
  let sorted := sortedRotations block
  (sorted.map fun i => block.getD ((i + block.size - 1) % block.size) 0, sorted.idxOf 0)

end IconForge.Compression.Bzip2
