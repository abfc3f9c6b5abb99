import IconForge.Compression.Lzma.Model

set_option autoImplicit false

/-! # Range coding

Decisions are written as one long number that lies in a range. Each decision keeps the part of the
range that its bit has by the chance of a zero, the lower part for a zero. When the range gets
narrow, the highest byte of its lower end is written; it may still grow by one from a carry. -/

namespace IconForge.Compression.Lzma

/-- A range, and what is written before it. -/
structure RangeCoder where
  low : Nat := 0
  width : Nat := 0xffffffff
  /-- The bytes that are written, the last one first. -/
  written : List UInt8 := [0]
  /-- The number of these bytes. -/
  size : Nat := 1

/-- Add one to the number that bytes stand for, the lowest one first. -/
def carry : List UInt8 → List UInt8
  | [] => []
  | b :: rest => if b = 255 then 0 :: carry rest else (b + 1) :: rest

namespace RangeCoder

/-- Write the highest byte of the lower end. -/
def shift (coder : RangeCoder) : RangeCoder :=
  { low := coder.low % 0x1000000 * 256
    width := coder.width * 256
    written := (coder.low / 0x1000000).toUInt8 :: coder.written
    size := coder.size + 1 }

/-- Widen a narrow range. -/
def widen (coder : RangeCoder) : RangeCoder :=
  if coder.width < 0x1000000 then coder.shift else coder

/-- Keep a part of the range, from a number above the lower end on. -/
def keep (coder : RangeCoder) (above width : Nat) : RangeCoder :=
  let low := coder.low + above
  if low < 0x100000000 then { coder with low := low, width := width }
  else { coder with low := low - 0x100000000, width := width, written := carry coder.written }

/-- Write a bit that has a chance. -/
def writeBit (coder : RangeCoder) (chance : Nat) (bit : Bool) : RangeCoder :=
  let coder := coder.widen
  let bound := coder.width / 2048 * chance
  if bit then coder.keep bound (coder.width - bound) else coder.keep 0 bound

/-- Write a bit that is a zero as often as a one. -/
def writeEven (coder : RangeCoder) (bit : Bool) : RangeCoder :=
  let coder := coder.widen
  let half := coder.width / 2
  coder.keep (if bit then half else 0) half

/-- All bytes, with those of the lower end. -/
def finish (coder : RangeCoder) : List UInt8 :=
  (Nat.repeat shift 4 coder.widen).written.reverse

/-- Write a decision, and learn from it. -/
def write (state : Model × RangeCoder) : Decision → Model × RangeCoder
  | .inContext context bit =>
    let (model, coder) := state
    let coder := coder.writeBit (model.chance context) bit
    (model.learn context bit, coder)
  | .even bit => (state.1, state.2.writeEven bit)

end RangeCoder

end IconForge.Compression.Lzma
