set_option autoImplicit false

/-! # Tables of characters

Classes of characters that a standard lists are kept as ranges of code points. -/

namespace IconForge.Text

/-- A set of characters, given by ranges of code points with both ends included. -/
structure CharTable where
  /-- Build a table from its ranges. -/
  ofRanges ::
  /-- First and last code point of each range. -/
  ranges : List (Nat × Nat)

namespace CharTable

/-- The first range that holds the character. -/
def rangeOf? (table : CharTable) (c : Char) : Option (Nat × Nat) :=
  table.ranges.find? fun range => range.1 ≤ c.toNat && c.toNat ≤ range.2

/-- A character belongs to a table when one of the ranges holds it. -/
def contains (table : CharTable) (c : Char) : Bool :=
  (table.rangeOf? c).isSome

end CharTable

end IconForge.Text
