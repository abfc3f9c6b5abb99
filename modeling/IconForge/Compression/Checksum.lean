set_option autoImplicit false

/-! # Checksums

Cyclic redundancy checks: the remainder of a text of bits in a division by a polynomial. The bits
of a byte are taken from the lowest one on (`crc32`, `crc64`) or from the highest one on
(`crc32High`). All registers begin with ones, and the remainder is complemented. -/

namespace IconForge.Compression

/-! ## From the lowest bit on -/

/-- One bit of a 32 bit remainder. -/
def step32 (c : UInt32) : UInt32 :=
  if c &&& 1 = 1 then (c >>> 1) ^^^ 0xedb88320 else c >>> 1

/-- The 32 bit checksum of bytes. -/
def crc32 (bytes : List UInt8) : UInt32 :=
  bytes.foldl (fun c b => Nat.repeat step32 8 (c ^^^ b.toUInt32)) 0xffffffff ^^^ 0xffffffff

/-- One bit of a 64 bit remainder. -/
def step64 (c : UInt64) : UInt64 :=
  if c &&& 1 = 1 then (c >>> 1) ^^^ 0xc96c5795d7870f42 else c >>> 1

/-- The 64 bit checksum of bytes. -/
def crc64 (bytes : List UInt8) : UInt64 :=
  bytes.foldl (fun c b => Nat.repeat step64 8 (c ^^^ b.toUInt64)) 0xffffffffffffffff ^^^
    0xffffffffffffffff

/-! ## From the highest bit on -/

/-- One bit of a 32 bit remainder. -/
def step32High (c : UInt32) : UInt32 :=
  if c &&& 0x80000000 = 0x80000000 then (c <<< 1) ^^^ 0x04c11db7 else c <<< 1

/-- The 32 bit checksum of bytes. -/
def crc32High (bytes : List UInt8) : UInt32 :=
  bytes.foldl (fun c b => Nat.repeat step32High 8 (c ^^^ (b.toUInt32 <<< (24 : UInt32))))
    0xffffffff ^^^ 0xffffffff

/-! ## Numbers as bytes -/

/-- The lowest bytes of a number, from the lowest one on. -/
def lowBytes : Nat → Nat → List UInt8
  | 0, _ => []
  | count + 1, n => n.toUInt8 :: lowBytes count (n / 256)

/-- The lowest bytes of a number, from the highest one on. -/
def highBytes (count n : Nat) : List UInt8 :=
  (lowBytes count n).reverse

end IconForge.Compression
