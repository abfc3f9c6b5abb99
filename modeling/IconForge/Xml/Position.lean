set_option autoImplicit false

/-! # Positions

A position is a line, counted from one, and a column, counted in characters from zero. A line
ends with a line feed, a carriage return or both together. -/

namespace IconForge.Xml

/-- A place in a text. -/
structure Position where
  line : Nat
  column : Nat
deriving DecidableEq, Repr

namespace Position

/-- The first place of a text. -/
def start : Position :=
  ⟨1, 0⟩

/-- The place right behind a text that begins at a place. -/
def advance (p : Position) : List Char → Position
  | [] => p
  | '\r' :: '\n' :: rest => advance ⟨p.line + 1, 0⟩ rest
  | '\r' :: rest => advance ⟨p.line + 1, 0⟩ rest
  | '\n' :: rest => advance ⟨p.line + 1, 0⟩ rest
  | _ :: rest => advance ⟨p.line, p.column + 1⟩ rest

/-- The place in a document from which on a text is left. -/
def ofRest (document rest : List Char) : Position :=
  start.advance (document.take (document.length - rest.length))

end Position

end IconForge.Xml
