set_option autoImplicit false

/-! # Chances

A chance says how likely a bit is zero, in parts of 2048. It moves towards every bit that comes.
The cost of a bit is what it takes to write it, in sixteenths of a bit; chances of nearly the same
size have one cost. -/

namespace IconForge.Compression.Lzma

/-- The chance of a zero when nothing is known. -/
def evenChance : Nat :=
  1024

/-- A chance after a bit. -/
def learned (chance : Nat) (bit : Bool) : Nat :=
  if bit then chance - chance / 32 else chance + (2048 - chance) / 32

/-- The square of a number in its sixteen highest bits, and how many bits it has been shifted by
when those of the number are counted twice. -/
def square : Nat × Nat → Nat × Nat
  | (n, shift) =>
    let excess := Nat.log2 (n * n) - 15
    ((n * n) >>> excess, 2 * shift + excess)

/-- The cost of a bit whose chance has its sixteenth part in a step. -/
def costOfStep (step : Nat) : Nat :=
  161 - (Nat.repeat square 4 (16 * step + 8, 0)).2

/-- The costs of all steps. -/
def costs : Array Nat :=
  ((List.range 128).map costOfStep).toArray

/-- The cost of a bit. -/
def costOfBit (chance : Nat) (bit : Bool) : Nat :=
  costs.getD ((if bit then 2047 - chance else chance) / 16) 0

end IconForge.Compression.Lzma
