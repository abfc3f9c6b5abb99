set_option autoImplicit false

/-! # Blanks

Blanks are the white space characters of Unicode together with the four information
separators `U+001C` to `U+001F`. The zero width space and the byte order mark are none. -/

namespace IconForge.Text

/-- White space characters and the information separators. -/
def isBlank (c : Char) : Bool :=
  let n := c.toNat
  (0x09 ≤ n && n ≤ 0x0d) || (0x1c ≤ n && n ≤ 0x20) || n = 0x85 || n = 0xa0 || n = 0x1680 ||
    (0x2000 ≤ n && n ≤ 0x200a) || n = 0x2028 || n = 0x2029 || n = 0x202f || n = 0x205f ||
    n = 0x3000

/-- Drop the characters of a class from the end of a text. -/
def dropTrailing (class? : Char → Bool) (cs : List Char) : List Char :=
  (cs.reverse.dropWhile class?).reverse

/-- Drop the characters of a class from both ends of a text. -/
def stripBy (class? : Char → Bool) (cs : List Char) : List Char :=
  dropTrailing class? (cs.dropWhile class?)

/-- Drop the blanks at both ends of a text. -/
def strip (cs : List Char) : List Char :=
  stripBy isBlank cs

end IconForge.Text
