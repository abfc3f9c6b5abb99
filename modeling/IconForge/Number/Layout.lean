import IconForge.Number.Shortest

set_option autoImplicit false

/-! # Number layouts

How the shortest digits of a number are set out as text. A layout says which numbers are written
out in full, how a whole number ends, how an exponent looks and what the special values are
called. -/

namespace IconForge

/-- The choices of a number format. -/
structure NumberLayout where
  /-- A number is written out in full when its point lies above `fullAbove` … -/
  fullAbove : Int
  /-- … and not above `fullUpTo`; otherwise it has an exponent. -/
  fullUpTo : Int
  /-- What a whole number that is written out in full ends with. -/
  wholeEnd : String
  /-- The least count of digits of an exponent. -/
  exponentWidth : Nat
  /-- Whether a negative zero shows its sign. -/
  signedZero : Bool
  /-- The name of infinity. -/
  infinity : String
  /-- The name of the value that is no number. -/
  notANumber : String

namespace NumberLayout

/-- A text preceded by a minus sign if one is due. -/
def signed (negative : Bool) (text : String) : String :=
  if negative then "-" ++ text else text

/-- A string of zeros. -/
def zeros (count : Nat) : String :=
  String.ofList (List.replicate count '0')

/-- The digits of an exponent, filled up with zeros. -/
def exponentDigits (layout : NumberLayout) (exponent : Nat) : String :=
  let text := toString exponent
  zeros (layout.exponentWidth - text.length) ++ text

/-- Digits written out in full around the point. -/
def full (layout : NumberLayout) (digits : List Char) (point : Int) : String :=
  if point ≤ 0 then
    "0." ++ zeros point.natAbs ++ String.ofList digits
  else
    let whole := point.toNat
    if digits.length ≤ whole then
      String.ofList digits ++ zeros (whole - digits.length) ++ layout.wholeEnd
    else
      String.ofList (digits.take whole) ++ "." ++ String.ofList (digits.drop whole)

/-- Digits with the point behind the first one and an exponent. -/
def scientific (layout : NumberLayout) (digits : List Char) (point : Int) : String :=
  let exponent := point - 1
  let mantissa :=
    match digits with
    | first :: rest@(_ :: _) => String.singleton first ++ "." ++ String.ofList rest
    | short => String.ofList short
  let sign := if exponent < 0 then "-" else "+"
  mantissa ++ "e" ++ sign ++ layout.exponentDigits exponent.natAbs

/-- The text of a magnitude other than zero. -/
def magnitude (layout : NumberLayout) (m : Magnitude) : String :=
  let shortest := ShortestDigits.of m
  let digits := (toString shortest.digits).toList
  if layout.fullAbove < shortest.point && shortest.point ≤ layout.fullUpTo then
    layout.full digits shortest.point
  else
    layout.scientific digits shortest.point

/-- The text of a number. -/
def render (layout : NumberLayout) (x : Binary64) : String :=
  match x with
  | .finite negative m =>
    if m.significand = 0 then signed (negative && layout.signedZero) ("0" ++ layout.wholeEnd)
    else signed negative (layout.magnitude m)
  | .infinite negative => signed negative layout.infinity
  | .notANumber => layout.notANumber

end NumberLayout

/-- The layout of numbers in records: exponents have two digits at least and begin below `1e-4`
and at `1e16`, and a whole number ends with `.0`. -/
def NumberLayout.record : NumberLayout where
  fullAbove := -4
  fullUpTo := 16
  wholeEnd := ".0"
  exponentWidth := 2
  signedZero := true
  infinity := "inf"
  notANumber := "nan"

end IconForge
