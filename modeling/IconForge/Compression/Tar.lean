import IconForge.Text.CodePoint
import IconForge.Text.Utf8

set_option autoImplicit false

/-! # Tar

A tar archive with one file: a header of one block, the content and at least two empty blocks, up
to a multiple of the size of a record. The file belongs to nobody and was changed at the beginning
of time. A name that does not fit into the header, because it is long or not in ASCII, is told in a
header of its own in front. -/

namespace IconForge.Compression.Tar

/-! ## Blocks -/

/-- The size of a block. -/
def blockSize : Nat :=
  512

/-- The size of a record. -/
def recordSize : Nat :=
  20 * blockSize

/-- Bytes with zeros behind them, up to a multiple of a size. -/
def filled (size : Nat) (bytes : List UInt8) : List UInt8 :=
  bytes ++ List.replicate ((size - bytes.length % size) % size) 0

/-! ## Headers -/

/-- A text in a field: as much of it as fits, with zeros behind. -/
def textField (width : Nat) (bytes : List UInt8) : List UInt8 :=
  let bytes := bytes.take width
  bytes ++ List.replicate (width - bytes.length) 0

/-- A number in octal digits. -/
def octalDigits : Nat → Nat → List UInt8
  | 0, _ => []
  | width + 1, n => octalDigits width (n / 8) ++ [(0x30 + n % 8).toUInt8]

/-- A number in a field: octal digits and a zero. -/
def numberField (width n : Nat) : List UInt8 :=
  octalDigits (width - 1) n ++ [0]

/-- A header of one block. Its checksum is the sum of its bytes, with blanks for itself. -/
def header (name : List UInt8) (mode size : Nat) (kind : UInt8) : List UInt8 :=
  let front := textField 100 name ++ numberField 8 mode ++ numberField 8 0 ++ numberField 8 0 ++
    numberField 12 size ++ numberField 12 0
  let back := kind :: textField 100 [] ++ [0x75, 0x73, 0x74, 0x61, 0x72, 0, 0x30, 0x30]
  let sum := (front ++ back).foldl (fun sum b => sum + b.toNat) (8 * 0x20)
  filled blockSize (front ++ octalDigits 6 sum ++ [0, 0x20] ++ back)

/-! ## Names that do not fit -/

/-- Whether a name fits into a header. -/
def fits (name : List Char) : Bool :=
  name.all (fun c => decide (c.toNat < 0x80)) && decide (name.length ≤ 100)

/-- The length of a line that begins with its own length, of which the rest has `rest` bytes. -/
def lineLength (rest : Nat) : Nat :=
  let guess := rest + (toString rest).length
  let guess := rest + (toString guess).length
  rest + (toString guess).length

/-- A line that tells a name. -/
def nameLine (name : List Char) : List UInt8 :=
  let rest := Text.Utf8.encode (" path=".toList ++ name ++ ['\n'])
  Text.Utf8.encode (toString (lineLength rest.length)).toList ++ rest

/-- A name as far as ASCII has it. -/
def asciiName (name : List Char) : List UInt8 :=
  name.map fun c => if c.toNat < 0x80 then c.toNat.toUInt8 else 0x3f

/-- A header that tells the name of the file behind it. -/
def nameHeader (name : List Char) : List UInt8 :=
  let line := nameLine name
  header (Text.Utf8.encode "././@PaxHeader".toList) 0 line.length 0x78 ++ filled blockSize line

/-- An archive with one file. -/
def archive (name : List Char) (bytes : List UInt8) : List UInt8 :=
  let front := if fits name then [] else nameHeader name
  filled recordSize (front ++ header (asciiName name) 0o644 bytes.length 0x30 ++
    filled blockSize bytes ++ List.replicate (2 * blockSize) 0)

end IconForge.Compression.Tar
