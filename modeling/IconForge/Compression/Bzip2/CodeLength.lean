set_option autoImplicit false

/-! # Code lengths

The symbols of a block get codes whose lengths follow from how often they occur. Two lightest
nodes are joined again and again until a tree is left, and the depth of a symbol in it is the
length of its code. A heap decides which of several lightest nodes comes first. When a code would
get too long, all weights are halved and the tree is built anew.

A node weighs as much as the symbols below it; of two nodes with one weight the lower tree counts
as lighter. -/

namespace IconForge.Compression.Bzip2

/-- A tree over symbols. -/
inductive Tree where
  | leaf (symbol : Nat)
  | node (left right : Tree)
deriving Repr

/-- The symbols of a tree with their depths. -/
def Tree.depths (depth : Nat) : Tree → List (Nat × Nat)
  | .leaf symbol => [(symbol, depth)]
  | .node left right => left.depths (depth + 1) ++ right.depths (depth + 1)

/-- A tree in the heap. -/
structure Node where
  weight : Nat
  height : Nat
  tree : Tree
deriving Repr

namespace Node

instance : Inhabited Node := ⟨0, 0, .leaf 0⟩

/-- Whether a node is lighter than another one. -/
def isLighter (a b : Node) : Bool :=
  decide (a.weight < b.weight ∨ (a.weight = b.weight ∧ a.height < b.height))

/-- The node above two others. -/
def join (a b : Node) : Node :=
  ⟨a.weight + b.weight, max a.height b.height + 1, .node a.tree b.tree⟩

end Node

/-! ## The heap -/

/-- A heap of nodes: below place `i` are the places `2 * i + 1` and `2 * i + 2`. -/
abbrev Heap := Array Node

namespace Heap

/-- The node at a place. -/
def nodeAt (heap : Heap) (i : Nat) : Node :=
  heap.getD i default

/-- Move the node at a place up as long as it is lighter than the one above it. -/
def siftUp (heap : Heap) (i : Nat) : Heap :=
  if _h : i = 0 then heap
  else
    let above := (i - 1) / 2
    if (heap.nodeAt i).isLighter (heap.nodeAt above) then
      siftUp (heap.swapIfInBounds i above) above
    else heap
termination_by i
decreasing_by omega

/-- Move the node at a place down as long as it is not lighter than the lighter one of those below
it. Of two that are alike the first one counts. The places from `size` on are not part of the
heap. -/
def siftDown (heap : Heap) (size i : Nat) : Heap :=
  if _h : 2 * i + 1 < size then
    let below :=
      if 2 * i + 2 < size ∧ (heap.nodeAt (2 * i + 2)).isLighter (heap.nodeAt (2 * i + 1)) then
        2 * i + 2
      else 2 * i + 1
    if (heap.nodeAt i).isLighter (heap.nodeAt below) then heap
    else siftDown (heap.swapIfInBounds i below) size below
  else heap
termination_by size - i
decreasing_by
  split <;> omega

/-- Add a node. -/
def insert (heap : Heap) (node : Node) : Heap :=
  siftUp (heap.push node) heap.size

/-- Take the lightest node out: the last one takes its place and moves down. -/
def takeLightest (heap : Heap) : Node × Heap :=
  let lightest := heap.nodeAt 0
  let rest := (heap.setIfInBounds 0 (heap.nodeAt (heap.size - 1))).pop
  (lightest, siftDown rest rest.size 0)

/-- Join the two lightest nodes a number of times. -/
def joinLightest : Nat → Heap → Heap
  | 0, heap => heap
  | count + 1, heap =>
    let (a, heap) := heap.takeLightest
    let (b, heap) := heap.takeLightest
    joinLightest count (heap.insert (a.join b))

end Heap

/-! ## Lengths -/

/-- The longest code. -/
def maxLength : Nat :=
  17

/-- The depths of symbols with given weights in their tree. -/
def treeDepths (weights : List Nat) : Array Nat :=
  let leaves := weights.zipIdx.map fun (weight, symbol) => (⟨weight, 0, .leaf symbol⟩ : Node)
  let heap := leaves.foldl Heap.insert #[]
  let root := (heap.joinLightest (weights.length - 1)).nodeAt 0
  (root.tree.depths 0).foldl (fun lengths (symbol, depth) => lengths.setIfInBounds symbol depth)
    (Array.replicate weights.length 0)

/-- The code lengths of symbols with given weights. The first argument bounds how often the
weights are halved. -/
def limitedLengths : Nat → List Nat → Array Nat
  | 0, weights => treeDepths weights
  | rounds + 1, weights =>
    let lengths := treeDepths weights
    if lengths.any (maxLength < ·) then limitedLengths rounds (weights.map (1 + · / 2))
    else lengths

/-- The code lengths of symbols that occur with given frequencies. Also a symbol that does not
occur gets a code. -/
def codeLengths (frequencies : List Nat) : Array Nat :=
  limitedLengths 64 (frequencies.map (max 1))

end IconForge.Compression.Bzip2
