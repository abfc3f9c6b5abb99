set_option autoImplicit false

/-! # Symbols

The third stage of bzip2 replaces each byte by its place in a list of the bytes that occur, in
which a byte moves to the front whenever it is used. Runs of zeros are written by their length, in
two digits that stand for one and two; the other places follow, and a last symbol ends the
block. -/

namespace IconForge.Compression.Bzip2

/-- The places of items in a list in which each one moves to the front when it is used. -/
def moveToFront {α : Type} [BEq α] (order : List α) : List α → List Nat
  | [] => []
  | a :: rest => order.idxOf a :: moveToFront (a :: order.erase a) rest

/-- The digits of the length of a run of zeros, from the lowest one on: 0 stands for one and 1 for
two. -/
def zeroRun : Nat → List Nat
  | 0 => []
  | n + 1 => n % 2 :: zeroRun (n / 2)
termination_by n => n
decreasing_by omega

/-- The symbols of places behind a number of zeros. -/
def symbolsFrom (zeros : Nat) : List Nat → List Nat
  | [] => zeroRun zeros
  | 0 :: rest => symbolsFrom (zeros + 1) rest
  | (n + 1) :: rest => zeroRun zeros ++ (n + 2) :: symbolsFrom 0 rest

/-- The bytes that occur, in ascending order. -/
def usedBytes (bytes : List UInt8) : List UInt8 :=
  let seen := bytes.foldl (fun seen b => seen.setIfInBounds b.toNat true)
    (Array.replicate 256 false)
  ((List.range 256).filter fun n => seen.getD n false).map Nat.toUInt8

/-- The symbols of bytes, of which some occur. -/
def symbolsOf (used bytes : List UInt8) : List Nat :=
  symbolsFrom 0 (moveToFront used bytes) ++ [used.length + 1]

end IconForge.Compression.Bzip2
