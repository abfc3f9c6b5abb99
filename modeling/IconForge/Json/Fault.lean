set_option autoImplicit false

/-! # Faults of JSON texts

A text that cannot be read is described by its first problem and the place where it was found. A
reader that stops keeps the rest of the text from there on, from which the line, the column and
the offset follow. A value may also have no text at all, or none as a whole. -/

namespace IconForge.Json

/-- What a text breaks of the rules. -/
inductive Problem where
  | byteOrderMark
  | expectedValue
  | expectedName
  | expectedColon
  | expectedComma
  | extraData
  | unterminatedString
  | invalidControl
  | invalidEscape
  | invalidUnicodeEscape
  /-- An integer has this many digits, which are too many. -/
  | tooManyDigits (count : Nat)
  /-- A list is nested too deep. -/
  | listTooDeep
  /-- An object is nested too deep. -/
  | objectTooDeep
deriving DecidableEq, Repr

/-- The most digits that an integer may have. -/
def maxDigits : Nat :=
  4300

/-- Whether an integer has more digits than it may have in a text. -/
def isTooLong (value : Int) : Bool :=
  Nat.pow 10 maxDigits ≤ value.natAbs

/-- The wording of a problem. -/
def Problem.message : Problem → String
  | .byteOrderMark => "Unexpected UTF-8 BOM (decode using utf-8-sig)"
  | .expectedValue => "Expecting value"
  | .expectedName => "Expecting property name enclosed in double quotes"
  | .expectedColon => "Expecting ':' delimiter"
  | .expectedComma => "Expecting ',' delimiter"
  | .extraData => "Extra data"
  | .unterminatedString => "Unterminated string starting at"
  | .invalidControl => "Invalid control character at"
  | .invalidEscape => "Invalid \\escape"
  | .invalidUnicodeEscape => "Invalid \\uXXXX escape"
  | .tooManyDigits count =>
    s!"Exceeds the limit ({maxDigits} digits) for integer string conversion: " ++
    s!"value has {count} digits; use sys.set_int_max_str_digits() to increase the limit"
  | .listTooDeep =>
    "maximum recursion depth exceeded while decoding a JSON array from a unicode string"
  | .objectTooDeep =>
    "maximum recursion depth exceeded while decoding a JSON object from a unicode string"

/-- Whether a problem is one of size: the text keeps to the syntax so far, but is too much. -/
def Problem.isExcess : Problem → Bool
  | .tooManyDigits _ => true
  | .listTooDeep => true
  | .objectTooDeep => true
  | _ => false

/-- A problem and the rest of the text from its place on. -/
structure Stop where
  problem : Problem
  rest : List Char
deriving DecidableEq, Repr

/-- A problem with its place in the text. -/
structure SyntaxFault where
  problem : Problem
  /-- The line, counted from one. -/
  line : Nat
  /-- The column, counted from one. -/
  column : Nat
  /-- How many characters stand in front of the place. -/
  offset : Nat
deriving DecidableEq, Repr

/-- The wording of a fault. The place is told unless the problem is one of size. -/
def SyntaxFault.message (fault : SyntaxFault) : String :=
  if fault.problem.isExcess then fault.problem.message
  else
    s!"{fault.problem.message}: line {fault.line} column {fault.column} (char {fault.offset})"

/-- Why a value has no text. -/
inductive TextFault where
  /-- An integer in it has too many digits. -/
  | tooManyDigits
  /-- It is nested deeper than there is room for. -/
  | tooDeep
deriving DecidableEq, Repr

/-- The wording of a fault. -/
def TextFault.message : TextFault → String
  | .tooManyDigits =>
    s!"Exceeds the limit ({maxDigits} digits) for integer string conversion; " ++
    "use sys.set_int_max_str_digits() to increase the limit"
  | .tooDeep => "maximum recursion depth exceeded while calling a Python object"

/-- The place of a stop in the text that was read. -/
def Stop.locate (stop : Stop) (document : List Char) : SyntaxFault :=
  let offset := document.length - stop.rest.length
  let before := document.take offset
  { problem := stop.problem
    line := before.count '\n' + 1
    column := (before.reverse.takeWhile (· ≠ '\n')).length + 1
    offset := offset }

end IconForge.Json
