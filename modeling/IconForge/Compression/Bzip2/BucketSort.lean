import IconForge.Compression.Bzip2.GapSort
import IconForge.Compression.Bzip2.KeySort

set_option autoImplicit false

/-! # Sorting large blocks

The rotations of a large block are put into buckets by their first two bytes. For one first byte
after the other, from the rarest one on, the buckets that are not sorted yet are sorted. The sorted
rotations with this first byte then give the order of those that begin one byte earlier, and their
ranks make later comparisons shorter. Sorting is given up when the comparisons are too much work,
as they are for blocks that repeat themselves. -/

namespace IconForge.Compression.Bzip2

/-! ## Comparing rotations -/

/-- What rotations are compared by. -/
structure Comparer where
  block : Array UInt8
  /-- The ranks of rotations among those with the same first byte, once these are sorted. -/
  ranks : Array Nat
  /-- The work after which sorting is given up. -/
  patience : Nat

namespace Comparer

/-- A byte of the block, which goes round. -/
def byteAt (c : Comparer) (i : Nat) : UInt8 :=
  c.block.getD (i % c.block.size) 0

/-- The rank of a rotation. -/
def rankAt (c : Comparer) (i : Nat) : Nat :=
  c.ranks.getD (i % c.block.size) 0

/-- Compare a number of bytes. -/
def compareBytes (c : Comparer) : Nat → Nat → Nat → Ordering
  | 0, _, _ => .eq
  | count + 1, i, j =>
    (compare (c.byteAt i) (c.byteAt j)).then (c.compareBytes count (i + 1) (j + 1))

/-- Compare a number of bytes, each with the rank of the rotation that begins there. -/
def compareRanked (c : Comparer) : Nat → Nat → Nat → Ordering
  | 0, _, _ => .eq
  | count + 1, i, j =>
    (compare (c.byteAt i) (c.byteAt j)).then
      ((compare (c.rankAt i) (c.rankAt j)).then (c.compareRanked count (i + 1) (j + 1)))

/-- Compare with ranks in rounds of eight bytes, of which each one that finds no difference is
counted as work. -/
def compareRounds (c : Comparer) : Nat → Nat → Nat → Nat → Bool × Nat
  | 0, _, _, work => (false, work)
  | rounds + 1, i, j, work =>
    match c.compareRanked 8 i j with
    | .eq => c.compareRounds rounds (i + 8) (j + 8) (work + 1)
    | .gt => (true, work)
    | .lt => (false, work)

/-- Whether a rotation is greater than another one, from a depth on. -/
def isGreater (c : Comparer) (depth : Nat) : GreaterTest := fun i j work =>
  if c.patience < work then (false, work)
  else
    match c.compareBytes 12 (i + depth) (j + depth) with
    | .eq => c.compareRounds (c.block.size / 8 + 2) (i + depth + 12) (j + depth + 12) work
    | .gt => (true, work)
    | .lt => (false, work)

end Comparer

/-! ## Sorting a bucket -/

/-- The one of three numbers that is between the others. -/
def middleOf (a b c : Nat) : Nat :=
  max (min a b) (min (max a b) c)

/-- Sort rotations that agree in their first `depth` bytes. Many are parted by the next byte. The
first argument bounds the partings. -/
def sortBucket (c : Comparer) : Nat → Nat → Array Nat → Nat → Array Nat × Nat
  | 0, _, items, work => (items, work)
  | partings + 1, depth, items, work =>
    if items.size ≤ 20 ∨ 14 < depth then gapSort (c.isGreater depth) items work
    else
      let key (i : Nat) : Nat := (c.byteAt (i + depth)).toNat
      let keyOf (place : Nat) : Nat := key (items.getD place 0)
      let pivot := middleOf (keyOf 0) (keyOf (items.size - 1)) (keyOf ((items.size - 1) / 2))
      let p := (Parting.ofItems items).run key pivot
      let (lower, work) := sortBucket c partings depth p.lower work
      let (equal, work) := sortBucket c partings (depth + 1) p.equal work
      let (higher, work) := sortBucket c partings depth p.higher work
      (lower ++ equal ++ higher, work)

/-! ## Buckets -/

/-- Buckets of rotations, while they are sorted. -/
structure Buckets where
  comparer : Comparer
  /-- The rotations by their first two bytes. -/
  items : Array (Array Nat)
  /-- Which first bytes are sorted. -/
  isDone : Array Bool
  work : Nat

namespace Buckets

/-- The bucket of two bytes. -/
def bucket (b : Buckets) (first second : Nat) : Array Nat :=
  b.items.getD (256 * first + second) #[]

/-- Whether all rotations with a first byte are sorted. -/
def isDoneAt (b : Buckets) (first : Nat) : Bool :=
  b.isDone.getD first false

/-- The rotations of a block, in ascending order of their beginnings. -/
def ofBlock (block : Array UInt8) : Buckets :=
  let c : Comparer :=
    { block := block, ranks := Array.replicate block.size 0, patience := 9 * block.size }
  { comparer := c
    items := (List.range block.size).foldl (fun items i =>
      items.modify (256 * (c.byteAt i).toNat + (c.byteAt (i + 1)).toNat) (·.push i))
      (Array.replicate 0x10000 #[])
    isDone := Array.replicate 256 false
    work := 0 }

/-- The rotations with a first byte, for a number of second bytes. -/
def row (b : Buckets) (first second count : Nat) : Array Nat :=
  (List.range' second count).foldl (fun row second => row ++ b.bucket first second) #[]

/-- Sort the buckets of a first byte. Those whose second byte is done are sorted already. -/
def sortRow (b : Buckets) (first : Nat) : Buckets :=
  (List.range 256).foldl (fun b second =>
    if second = first ∨ b.isDoneAt second then b
    else
      let items := b.bucket first second
      if items.size ≤ 1 then b
      else
        let (items, work) := sortBucket b.comparer (items.size + 16) 2 items b.work
        { b with items := b.items.setIfInBounds (256 * first + second) items, work := work }) b

/-- The rotation that begins one byte earlier. -/
def before (b : Buckets) (i : Nat) : Nat :=
  (i + b.comparer.block.size - 1) % b.comparer.block.size

/-- Find the rotations that begin one byte earlier, by their first bytes, for some rotations and
then for those found among them that have the same first byte. The first argument bounds how often
that happens. -/
def scan (b : Buckets) (first : Nat) : Nat → Array Nat → Array (Array Nat) → Array (Array Nat)
  | 0, _, found => found
  | waves + 1, items, found =>
    if items.isEmpty then found
    else
      let earlier := items.map b.before
      let found := earlier.foldl
        (fun found i => found.modify (b.comparer.byteAt i).toNat (·.push i)) found
      let same := earlier.filter fun i => (b.comparer.byteAt i).toNat = first
      b.scan first waves same found

/-- Sort the buckets with a second byte by the rotations that have it as their first one: those in
front of its double bucket from the front on, and those behind it from the end on. -/
def sortColumn (b : Buckets) (second : Nat) : Buckets :=
  let size := b.comparer.block.size
  let start := Array.replicate 256 #[]
  let front := b.scan second size (b.row second 0 second) start
  let back := b.scan second size (b.row second (second + 1) (255 - second)).reverse start
  { b with
    items := (List.range 256).foldl (fun items first =>
      if b.isDoneAt first then items
      else
        items.setIfInBounds (256 * first + second)
          (front.getD first #[] ++ (back.getD first #[]).reverse)) b.items }

/-- The number of times that a rank is halved, so that all ranks among some rotations have sixteen
bits. The first argument bounds it. -/
def halvings : Nat → Nat → Nat
  | 0, _ => 0
  | bound + 1, count => if count ≤ 65534 then 0 else halvings bound (count / 2) + 1

/-- Rank the rotations with a first byte, which is done. -/
def rankRow (b : Buckets) (first : Nat) : Buckets :=
  let row := b.row first 0 256
  let shift := halvings row.size row.size
  let ranks := (row.foldl (fun (ranks, place) i =>
    (ranks.setIfInBounds i (place >>> shift), place + 1)) (b.comparer.ranks, 0)).1
  { b with
    comparer := { b.comparer with ranks := ranks }
    isDone := b.isDone.setIfInBounds first true }

/-- Sort all rotations with a first byte, and what follows from their order. -/
def sortFirst (b : Buckets) (first : Nat) : Buckets :=
  ((b.sortRow first).sortColumn first).rankRow first

/-- The bytes, from the rarest one on. -/
def fromRarest (b : Buckets) : List Nat :=
  let counts := ((List.range 256).map fun first =>
    (List.range 256).foldl (fun n second => n + (b.bucket first second).size) 0).toArray
  let greater : GreaterTest := fun i j work =>
    (decide (counts.getD j 0 < counts.getD i 0), work)
  (gapSort greater (Array.range 256) 0).1.toList

end Buckets

/-- The beginnings of the rotations of a large block in the order of the rotations, unless that is
too much work. -/
def sortedByBuckets? (block : Array UInt8) : Option (List Nat) :=
  let b := Buckets.ofBlock block
  let sorted := b.fromRarest.foldl Buckets.sortFirst b
  if b.comparer.patience < sorted.work then none
  else some (sorted.items.toList.flatMap Array.toList)

end IconForge.Compression.Bzip2
