import IconForge.Compression.Lzma.Chunk

set_option autoImplicit false

/-! # Xz

An xz file is one stream with one block: a header, the content in chunks, its checksum, an index
of the block and a footer. -/

namespace IconForge.Compression.Xz

/-- Zeros behind a number of bytes, up to a multiple of four. -/
def padding (length : Nat) : List UInt8 :=
  List.replicate ((4 - length % 4) % 4) 0

/-- Bytes with their checksum behind them. -/
def sealed (bytes : List UInt8) : List UInt8 :=
  bytes ++ lowBytes 4 (crc32 bytes).toNat

/-- A number in seven bits a byte, from the lowest ones on; all bytes but the last have their
highest bit set. -/
def flexible (n : Nat) : List UInt8 :=
  if _h : n < 0x80 then [n.toUInt8] else (n % 0x80 + 0x80).toUInt8 :: flexible (n / 0x80)
termination_by n
decreasing_by omega

/-- The flags of a stream: its checksums have 64 bits. -/
def flags : List UInt8 :=
  [0, 4]

/-- The header of the block: one filter, with a dictionary of eight megabytes. -/
def blockHeader : List UInt8 :=
  sealed [2, 0, 0x21, 1, 0x16, 0, 0, 0]

/-- The block of bytes, without its padding. -/
def block (bytes : List UInt8) : List UInt8 :=
  blockHeader ++ Lzma.chunksOf bytes

/-- The checksum of bytes. -/
def check (bytes : List UInt8) : List UInt8 :=
  lowBytes 8 (crc64 bytes).toNat

/-- The index of the blocks. Nothing at all has no block. -/
def index (bytes : List UInt8) : List UInt8 :=
  let entries :=
    if bytes.isEmpty then [0, 0]
    else
      0 :: 1 :: flexible ((block bytes).length + (check bytes).length) ++ flexible bytes.length
  sealed (entries ++ padding entries.length)

/-- The end of a file with an index of some length. -/
def footer (indexLength : Nat) : List UInt8 :=
  let content := lowBytes 4 (indexLength / 4 - 1) ++ flags
  lowBytes 4 (crc32 content).toNat ++ content ++ [0x59, 0x5a]

/-- Bytes as an xz file. -/
def compress (bytes : List UInt8) : List UInt8 :=
  let body :=
    if bytes.isEmpty then []
    else block bytes ++ padding (block bytes).length ++ check bytes
  let index := index bytes
  [0xfd, 0x37, 0x7a, 0x58, 0x5a, 0] ++ sealed flags ++ body ++ index ++ footer index.length

end IconForge.Compression.Xz
