import IconForge.Compression.Bits
import IconForge.Compression.Bzip2.Rotation
import IconForge.Compression.Bzip2.Run
import IconForge.Compression.Bzip2.Table
import IconForge.Compression.Checksum

set_option autoImplicit false

/-! # Streams of bzip2

A stream has a header, a block for every block of runs and a trailer with the checksum of all
blocks. Everything is a text of bits: only the stream as a whole is filled up to bytes. -/

namespace IconForge.Compression.Bzip2

/-! ## Parts of a block -/

/-- Which bytes occur: sixteen bits for the sixteens of bytes, then sixteen for each sixteen of
which some do. -/
def usedBits (used : List UInt8) : List Bool :=
  let rows := (List.range 16).map fun high =>
    (List.range 16).map fun low => used.contains (16 * high + low).toUInt8
  rows.map (·.contains true) ++ (rows.filter (·.contains true)).flatten

/-- The choices of the groups, by their places in a list of the tables in which each one moves to
the front when it is used. -/
def choiceBits (tables : Nat) (choices : List Nat) : List Bool :=
  bitsOf 3 tables ++ bitsOf 15 choices.length ++
    (moveToFront (List.range tables) choices).flatMap unary

/-- The steps from a code length to the next one, and the end of the steps. -/
def stepBits (length next : Nat) : List Bool :=
  (List.replicate (next - length) [true, false]).flatten ++
    (List.replicate (length - next) [true, true]).flatten ++ [false]

/-- Code lengths behind one of them. -/
def lengthBitsFrom (length : Nat) : List Nat → List Bool
  | [] => []
  | next :: rest => stepBits length next ++ lengthBitsFrom next rest

/-- The code lengths of a table. -/
def lengthBits (lengths : List Nat) : List Bool :=
  let first := lengths.headD 0
  bitsOf 5 first ++ lengthBitsFrom first lengths

/-- The codes of the symbols of a group. -/
def groupBits (lengths codes : Array Nat) (group : List Nat) : List Bool :=
  group.flatMap fun s => bitsOf (lengths.getD s 0) (codes.getD s 0)

/-- The symbols of a block with the tables for them. -/
def symbolBits (bytes : List UInt8) : List Bool :=
  let used := usedBytes bytes
  let symbols := symbolsOf used bytes
  let (choices, tables) := tablesOf (used.length + 2) symbols
  let coders := tables.map fun lengths => (lengths, codesOf lengths)
  usedBits used ++ choiceBits tables.length choices ++
    tables.flatMap (fun lengths => lengthBits lengths.toList) ++
    ((groupsOf symbols).zip choices).flatMap fun (group, choice) =>
      let (lengths, codes) := coders.getD choice (#[], #[])
      groupBits lengths codes group

/-! ## Streams -/

/-- The bytes at the front of every block. -/
def blockMark : List UInt8 :=
  [0x31, 0x41, 0x59, 0x26, 0x53, 0x59]

/-- The bytes behind the last block. -/
def endMark : List UInt8 :=
  [0x17, 0x72, 0x45, 0x38, 0x50, 0x90]

/-- Bytes as bits. -/
def byteBits (bytes : List UInt8) : List Bool :=
  bytes.flatMap fun b => bitsOf 8 b.toNat

/-- The checksum of a block. -/
def checksumOf (block : List Run) : UInt32 :=
  crc32High (block.flatMap Run.bytes)

/-- A block. -/
def blockBits (block : List Run) : List Bool :=
  let (column, origin) := lastColumn (block.flatMap Run.shortened).toArray
  byteBits blockMark ++ bitsOf 32 (checksumOf block).toNat ++ [false] ++ bitsOf 24 origin ++
    symbolBits column

/-- The checksum of all blocks. -/
def combinedChecksum (blocks : List (List Run)) : UInt32 :=
  blocks.foldl (fun c block => ((c <<< 1) ||| (c >>> 31)) ^^^ checksumOf block) 0

/-- Bytes in the format of bzip2, with the largest blocks. -/
def compress (bytes : List UInt8) : List UInt8 :=
  let blocks := blocksOf bytes
  let header : List UInt8 := [0x42, 0x5a, 0x68, 0x39]
  pack (byteBits header ++ blocks.flatMap blockBits ++ byteBits endMark ++
    bitsOf 32 (combinedChecksum blocks).toNat)

end IconForge.Compression.Bzip2
