set_option autoImplicit false

/-! # Characters of XML documents -/

namespace IconForge.Xml

/-- The characters that a document may hold: all but the controls other than tabulator, line feed
and carriage return, and but `U+FFFE` and `U+FFFF`. -/
def isLegal (c : Char) : Bool :=
  let n := c.toNat
  n = 0x09 || n = 0x0a || n = 0x0d || (0x20 ≤ n && n ≠ 0xfffe && n ≠ 0xffff)

/-- The white space of markup. -/
def isSpace (c : Char) : Bool :=
  c = ' ' || c = '\t' || c = '\n' || c = '\r'

/-- The rest of a text behind white space. -/
def skipSpace (cs : List Char) : List Char :=
  cs.dropWhile isSpace

/-- The character that a character reference stands for, if there is one and a document may hold
it. -/
def characterOfNumber? (n : Nat) : Option Char :=
  if n.isValidChar ∧ isLegal (Char.ofNat n) then some (Char.ofNat n) else none

end IconForge.Xml
