import IconForge.Compression.Lzma.Symbol

set_option autoImplicit false

/-! # Decisions

A symbol is written as decisions, each for a zero or a one. A decision is taken in a context, and
every context has a chance of its own; the middle bits of large distances have none. Numbers are
written from the highest bit on or from the lowest one on, and the bits in front of a bit, with a
one before them, are its node in the context. -/

namespace IconForge.Compression.Lzma

/-- Which lengths are meant. -/
inductive LengthKind where
  | copied
  | repeated
deriving DecidableEq, Hashable, Repr

/-- The circumstances of a decision. A `place` is a position by its remainder modulo four. -/
inductive Context where
  | isCopy (phase place : Nat)
  | isRepeat (phase : Nat)
  /-- Whether a repeat is not at the latest distance. -/
  | isEarlier (phase : Nat)
  /-- Whether a repeat at the latest distance has more than one byte. -/
  | isLong (phase place : Nat)
  /-- Whether a repeat is at the third or fourth distance. -/
  | isThird (phase : Nat)
  /-- Whether a repeat is at the fourth distance. -/
  | isFourth (phase : Nat)
  /-- A literal, by the highest bits of the byte in front of it. -/
  | literal (before node : Nat)
  /-- Whether a length is not a short one, or not a middle one. -/
  | lengthClass (kind : LengthKind) (second : Bool)
  | shortLength (kind : LengthKind) (place node : Nat)
  | middleLength (kind : LengthKind) (place node : Nat)
  | longLength (kind : LengthKind) (node : Nat)
  /-- The slot of a distance, for lengths of two, three, four or more. -/
  | slot (lengths node : Nat)
  /-- The bits of a small distance behind its slot. -/
  | small (slot node : Nat)
  /-- The four lowest bits of a large distance. -/
  | lowest (node : Nat)
deriving DecidableEq, Hashable, Repr

/-- A decision. -/
inductive Decision where
  | inContext (context : Context) (bit : Bool)
  /-- A bit that is a zero as often as a one. -/
  | even (bit : Bool)
deriving DecidableEq, Repr

namespace Decision

/-! ## Numbers -/

/-- The lowest bits of a number, from the highest one on, below a node. -/
def descend (context : Nat → Context) : Nat → Nat → Nat → List Decision
  | 0, _, _ => []
  | bits + 1, n, node =>
    let bit := n.testBit bits
    .inContext (context node) bit :: descend context bits n (2 * node + bit.toNat)

/-- The lowest bits of a number, from the lowest one on, below a node. -/
def ascend (context : Nat → Context) : Nat → Nat → Nat → List Decision
  | 0, _, _ => []
  | bits + 1, n, node =>
    let bit := n.testBit 0
    .inContext (context node) bit :: ascend context bits (n / 2) (2 * node + bit.toNat)

/-- The lowest bits of a number, from the highest one on, without contexts. -/
def plain : Nat → Nat → List Decision
  | 0, _ => []
  | bits + 1, n => .even (n.testBit bits) :: plain bits n

/-! ## Literals -/

/-- The lowest bits of a byte that was expected to be another one. As long as the two agree, the
contexts tell what was expected. -/
def unlike (before : Nat) (expected : Nat) : Nat → Nat → Nat → List Decision
  | 0, _, _ => []
  | bits + 1, n, node =>
    let bit := n.testBit bits
    let guess := expected.testBit bits
    let next := 2 * node + bit.toNat
    .inContext (.literal before (node + if guess then 0x200 else 0x100)) bit ::
      if bit = guess then unlike before expected bits n next
      else descend (.literal before) bits n next

/-- A literal at a place. Behind a copy the byte at the latest distance is not the one that
comes. -/
def literal (content : Array UInt8) (position : Nat) (history : History) : List Decision :=
  let before := if position = 0 then 0 else (byteAt content (position - 1)).toNat / 32
  let byte := (byteAt content position).toNat
  if history.isAfterLiteral then descend (.literal before) 8 byte 1
  else
    unlike before (byteAt content (position - history.distance 0 - 1)).toNat 8 byte 1

/-! ## Copies -/

/-- The length of a copy, which is at least two. -/
def length (kind : LengthKind) (place n : Nat) : List Decision :=
  if n < 10 then
    .inContext (.lengthClass kind false) false :: descend (.shortLength kind place) 3 (n - 2) 1
  else if n < 18 then
    .inContext (.lengthClass kind false) true :: .inContext (.lengthClass kind true) false ::
      descend (.middleLength kind place) 3 (n - 10) 1
  else
    .inContext (.lengthClass kind false) true :: .inContext (.lengthClass kind true) true ::
      descend (.longLength kind) 8 (n - 18) 1

/-- The slot of a distance: its width and its second highest bit. -/
def slotOf (n : Nat) : Nat :=
  if n < 4 then n else 2 * Nat.log2 n + (n >>> (Nat.log2 n - 1)) % 2

/-- The slot from which on distances are large. -/
def largeSlot : Nat :=
  14

/-- The distance of a copy. -/
def distance (length n : Nat) : List Decision :=
  let slot := slotOf n
  let bits := slot / 2 - 1
  let rest := n - (2 + slot % 2) <<< bits
  descend (.slot (min (length - 2) 3)) 6 slot 1 ++
    if slot < 4 then []
    else if slot < largeSlot then ascend (.small slot) bits rest 1
    else plain (bits - 4) (rest / 16) ++ ascend .lowest 4 (rest % 16) 1

/-- Which of the latest distances a repeat is at. -/
def index (phase place : Nat) (short : Bool) : Nat → List Decision
  | 0 => [.inContext (.isEarlier phase) false, .inContext (.isLong phase place) !short]
  | 1 => [.inContext (.isEarlier phase) true, .inContext (.isThird phase) false]
  | n => [.inContext (.isEarlier phase) true, .inContext (.isThird phase) true,
      .inContext (.isFourth phase) (n ≠ 2)]

/-! ## Symbols -/

/-- A symbol at a position of a text. -/
def ofSymbol (content : Array UInt8) (position : Nat) (history : History) :
    Symbol → List Decision :=
  let place := position % 4
  let phase := history.phase
  fun
  | .literal => .inContext (.isCopy phase place) false :: literal content position history
  | .shortRepeat =>
    .inContext (.isCopy phase place) true :: .inContext (.isRepeat phase) true ::
      index phase place true 0
  | .repeated i n =>
    .inContext (.isCopy phase place) true :: .inContext (.isRepeat phase) true ::
      (index phase place false i ++ length .repeated place n)
  | .copied d n =>
    .inContext (.isCopy phase place) true :: .inContext (.isRepeat phase) false ::
      (length .copied place n ++ distance n d)

end Decision

end IconForge.Compression.Lzma
