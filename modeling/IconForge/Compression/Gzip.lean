import IconForge.Compression.Checksum

set_option autoImplicit false

/-! # Gzip

A gzip file holds a header, the content as a deflate stream and a trailer with its checksum and
size. The stream is made of stored pieces, which hold their bytes as they are. There is neither a
name nor a time in the header. -/

namespace IconForge.Compression.Gzip

/-- The most bytes in a stored piece. -/
def maxStored : Nat :=
  0xffff

/-- A stored piece. -/
def storedPiece (last : Bool) (bytes : List UInt8) : List UInt8 :=
  (if last then 1 else 0) :: lowBytes 2 bytes.length ++ lowBytes 2 (0xffff - bytes.length) ++ bytes

/-- Bytes as a deflate stream of stored pieces. -/
def deflated (bytes : List UInt8) : List UInt8 :=
  if _h : maxStored < bytes.length then
    storedPiece false (bytes.take maxStored) ++ deflated (bytes.drop maxStored)
  else storedPiece true bytes
termination_by bytes.length
decreasing_by simp only [List.length_drop, maxStored] at *; omega

/-- The header of a file: compressed as well as possible, on a system that is not told. -/
def header : List UInt8 :=
  [0x1f, 0x8b, 8, 0, 0, 0, 0, 0, 2, 0xff]

/-- Bytes as a gzip file. -/
def compress (bytes : List UInt8) : List UInt8 :=
  header ++ deflated bytes ++ lowBytes 4 (crc32 bytes).toNat ++ lowBytes 4 bytes.length

end IconForge.Compression.Gzip
