import IconForge.Text.Hexadecimal

set_option autoImplicit false

/-! # UTF-8

Texts are kept in files as UTF-8. The decoder is a machine over the bytes: it is either
between two characters or inside one, where it knows how many bytes are still due and between
which limits the next one has to lie. The limits shut out the overlong forms, the surrogates and
everything above `U+10FFFF`.

A text that is not UTF-8 is described by its first defect: the bytes of the broken character up
to the one that does not fit. -/

namespace IconForge.Text.Utf8

/-- The bytes of a text. -/
def encode (cs : List Char) : List UInt8 :=
  cs.flatMap String.utf8EncodeChar

/-! ## Defects -/

/-- What is wrong with a sequence of bytes. -/
inductive Defect where
  /-- No character begins with this byte. -/
  | invalidStart
  /-- The next byte does not continue the character. -/
  | invalidContinuation
  /-- The bytes end inside a character. -/
  | unexpectedEnd
deriving DecidableEq, Repr

/-- The first place where bytes are not UTF-8. -/
structure Fault where
  /-- What is wrong. -/
  defect : Defect
  /-- How many bytes stand in front of the broken character. -/
  position : Nat
  /-- The first byte of the broken character. -/
  first : UInt8
  /-- How many bytes of it fit. -/
  length : Nat
deriving DecidableEq, Repr

/-- The wording of a defect. -/
def Defect.message : Defect → String
  | .invalidStart => "invalid start byte"
  | .invalidContinuation => "invalid continuation byte"
  | .unexpectedEnd => "unexpected end of data"

/-- The wording of a fault: one byte is shown, several are counted. -/
def Fault.message (fault : Fault) : String :=
  let place :=
    if fault.length = 1 then
      s!"byte 0x{String.ofList (hexDigits 2 fault.first.toNat)} in position {fault.position}"
    else
      s!"bytes in position {fault.position}-{fault.position + fault.length - 1}"
  s!"'utf-8' codec can't decode {place}: {fault.defect.message}"

/-! ## The decoder -/

/-- The state of the decoder. -/
inductive State where
  /-- Between two characters. -/
  | between
  /-- Inside a character that began with `first` and of which `taken` bytes were read: `due`
  more bytes are needed, the next one from `least` to `most`, and `value` holds the bits so
  far. -/
  | inside (first : UInt8) (taken due : Nat) (least most : UInt8) (value : Nat)
deriving DecidableEq, Repr

/-- The state after a first byte that needs more bytes; `none` when no character begins so. -/
def lead? (b : UInt8) : Option State :=
  if 0xc2 ≤ b && b ≤ 0xdf then some (.inside b 1 1 0x80 0xbf (b.toNat - 0xc0))
  else if b = 0xe0 then some (.inside b 1 2 0xa0 0xbf 0)
  else if b = 0xed then some (.inside b 1 2 0x80 0x9f 0xd)
  else if 0xe1 ≤ b && b ≤ 0xef then some (.inside b 1 2 0x80 0xbf (b.toNat - 0xe0))
  else if b = 0xf0 then some (.inside b 1 3 0x90 0xbf 0)
  else if 0xf1 ≤ b && b ≤ 0xf3 then some (.inside b 1 3 0x80 0xbf (b.toNat - 0xf0))
  else if b = 0xf4 then some (.inside b 1 3 0x80 0x8f 4)
  else none

/-- Read on from a state, with the characters so far in reverse and the number of bytes read. -/
def decodeFrom : State → List Char → Nat → List UInt8 → Except Fault (List Char)
  | .between, done, _, [] => .ok done.reverse
  | .inside first taken _ _ _ _, _, position, [] =>
    .error ⟨.unexpectedEnd, position - taken, first, taken⟩
  | .between, done, position, b :: rest =>
    if b < 0x80 then
      decodeFrom .between (Char.ofNat b.toNat :: done) (position + 1) rest
    else
      match lead? b with
      | some state => decodeFrom state done (position + 1) rest
      | none => .error ⟨.invalidStart, position, b, 1⟩
  | .inside first taken due least most value, done, position, b :: rest =>
    if least ≤ b && b ≤ most then
      let value := value * 64 + (b.toNat - 0x80)
      if due ≤ 1 then
        decodeFrom .between (Char.ofNat value :: done) (position + 1) rest
      else
        decodeFrom (.inside first (taken + 1) (due - 1) 0x80 0xbf value) done (position + 1) rest
    else
      .error ⟨.invalidContinuation, position - taken, first, taken⟩

/-- The text that bytes stand for. -/
def decode (bytes : List UInt8) : Except Fault (List Char) :=
  decodeFrom .between [] 0 bytes

end IconForge.Text.Utf8
