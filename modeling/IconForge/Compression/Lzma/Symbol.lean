set_option autoImplicit false

/-! # Symbols

A text is written as symbols: bytes as they are, and copies of bytes that have come before. A copy
tells its distance, counted from zero, or names one of the four latest distances. What the last
symbols were is kept in a phase, one of twelve: below seven the last one was a literal. -/

namespace IconForge.Compression.Lzma

/-- The byte at a place, or zero behind the end. -/
def byteAt (content : Array UInt8) (place : Nat) : UInt8 :=
  content.getD place 0

/-- A part of a text. -/
inductive Symbol where
  | literal
  /-- One byte at the latest distance. -/
  | shortRepeat
  /-- Bytes at one of the latest distances. -/
  | repeated (index length : Nat)
  | copied (distance length : Nat)
deriving DecidableEq, Repr

/-- The number of bytes in a symbol. -/
def Symbol.length : Symbol → Nat
  | .literal => 1
  | .shortRepeat => 1
  | .repeated _ length => length
  | .copied _ length => length

/-- What the symbols up to a place have left behind. -/
structure History where
  phase : Nat
  distances : List Nat
deriving DecidableEq, Repr

namespace History

/-- The history of the beginning. -/
def initial : History :=
  { phase := 0, distances := [0, 0, 0, 0] }

/-- Whether the last symbol was a literal. -/
def isAfterLiteral (history : History) : Bool :=
  history.phase < 7

/-- One of the latest distances. -/
def distance (history : History) (index : Nat) : Nat :=
  history.distances.getD index 0

/-- The phase behind a symbol. -/
def nextPhase (history : History) : Symbol → Nat
  | .literal =>
    if history.phase < 4 then 0
    else if history.phase < 10 then history.phase - 3
    else history.phase - 6
  | .shortRepeat => if history.isAfterLiteral then 9 else 11
  | .repeated _ _ => if history.isAfterLiteral then 8 else 11
  | .copied _ _ => if history.isAfterLiteral then 7 else 10

/-- The latest distances behind a symbol. -/
def nextDistances (history : History) : Symbol → List Nat
  | .literal => history.distances
  | .shortRepeat => history.distances
  | .repeated index _ => history.distance index :: history.distances.eraseIdx index
  | .copied distance _ => distance :: history.distances.take 3

/-- The history behind a symbol. -/
def after (history : History) (symbol : Symbol) : History :=
  { phase := history.nextPhase symbol, distances := history.nextDistances symbol }

end History

end IconForge.Compression.Lzma
