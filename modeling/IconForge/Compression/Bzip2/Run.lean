set_option autoImplicit false

/-! # Runs

The first stage of bzip2 shortens runs of one byte: a run of four or more bytes is written as four
of them and a byte that counts the others. A run has at most 255 bytes. The runs are dealt out to
blocks; a block takes runs until it is full. -/

namespace IconForge.Compression.Bzip2

/-- A byte that occurs several times one after the other. -/
structure Run where
  byte : UInt8
  count : Nat
deriving DecidableEq, Repr

/-- The most bytes in a run. -/
def maxRun : Nat :=
  255

/-- The runs of bytes behind those of a run that has begun. -/
def runsFrom (byte : UInt8) (count : Nat) : List UInt8 → List Run
  | [] => [⟨byte, count⟩]
  | b :: rest =>
    if b = byte ∧ count < maxRun then runsFrom byte (count + 1) rest
    else ⟨byte, count⟩ :: runsFrom b 1 rest

/-- The runs of bytes. -/
def runsOf : List UInt8 → List Run
  | [] => []
  | b :: rest => runsFrom b 1 rest

/-- The bytes of a run. -/
def Run.bytes (run : Run) : List UInt8 :=
  List.replicate run.count run.byte

/-- The bytes that a run is written with. -/
def Run.shortened (run : Run) : List UInt8 :=
  if run.count < 4 then run.bytes
  else List.replicate 4 run.byte ++ [(run.count - 4).toUInt8]

/-! ## Blocks -/

/-- A block is full with this many bytes. -/
def blockSize : Nat :=
  9 * 100000 - 19

/-- Deal out runs, where a block has begun with some of a size, in reverse. -/
def blocksFrom (size : Nat) (begun : List Run) : List Run → List (List Run)
  | [] => if begun.isEmpty then [] else [begun.reverse]
  | run :: runs =>
    let size := size + run.shortened.length
    if blockSize ≤ size then (run :: begun).reverse :: blocksFrom 0 [] runs
    else blocksFrom size (run :: begun) runs

/-- The blocks of bytes, as runs. -/
def blocksOf (bytes : List UInt8) : List (List Run) :=
  blocksFrom 0 [] (runsOf bytes)

end IconForge.Compression.Bzip2
