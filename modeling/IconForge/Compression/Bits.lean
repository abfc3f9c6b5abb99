set_option autoImplicit false

/-! # Bits

A compressed text is a list of bits. Each byte takes its bits from the highest one on, and zeros
fill up the last byte. -/

namespace IconForge.Compression

/-- The lowest bits of a number, from the highest one on. -/
def bitsOf (width n : Nat) : List Bool :=
  (List.range width).map fun i => n.testBit (width - 1 - i)

/-- The number that bits stand for. -/
def numberOfBits (bits : List Bool) : Nat :=
  bits.foldl (fun n bit => 2 * n + bit.toNat) 0

/-- A number of ones and a zero behind them. -/
def unary (n : Nat) : List Bool :=
  List.replicate n true ++ [false]

/-- The bytes of bits, behind those of a byte that is not full yet. -/
def packFrom (begun : List Bool) : List Bool → List UInt8
  | [] =>
    if begun.isEmpty then []
    else [(numberOfBits (begun ++ List.replicate (8 - begun.length) false)).toUInt8]
  | bit :: bits =>
    let begun := begun ++ [bit]
    if begun.length = 8 then (numberOfBits begun).toUInt8 :: packFrom [] bits
    else packFrom begun bits

/-- The bytes of bits. -/
def pack (bits : List Bool) : List UInt8 :=
  packFrom [] bits

end IconForge.Compression
