import IconForge.Number.Decimal
import IconForge.Text.Blank
import IconForge.Text.DecimalDigit

set_option autoImplicit false

/-! # Numerals

Numbers as people write them: an optional sign, digits with an optional point and an optional
exponent. The digits may be of any script. A point needs a digit on one of its sides, and an `e`
without digits behind it is no exponent.

Two readers are built on the same grammar: one takes the longest numeral at the front of a text
and ignores what follows, the other wants a numeral or a special name and nothing else. -/

namespace IconForge.Numeral

open IconForge.Text

/-- The value of a string of digits. -/
def digitsValue (cs : List Char) : Nat :=
  cs.foldl (fun value c => value * 10 + (digitValue? c).getD 0) 0

/-- Split an optional sign off a text; the answer tells whether it was a minus. -/
def takeSign : List Char → Bool × List Char
  | '+' :: rest => (false, rest)
  | '-' :: rest => (true, rest)
  | cs => (false, cs)

/-- Split the digits off the front of a text. -/
def takeDigits (cs : List Char) : List Char × List Char :=
  (cs.takeWhile isDecimalDigit, cs.dropWhile isDecimalDigit)

/-- Split digits with an optional point off a text: the digits in front of the point and those
behind it. -/
def takeFixed? (cs : List Char) : Option (List Char × List Char × List Char) :=
  let (whole, rest) := takeDigits cs
  match rest with
  | '.' :: behind =>
    let (fraction, rest) := takeDigits behind
    if whole.isEmpty && fraction.isEmpty then none else some (whole, fraction, rest)
  | _ => if whole.isEmpty then none else some (whole, [], rest)

/-- Split an exponent off a text; without one the exponent is zero. -/
def takeExponent (cs : List Char) : Int × List Char :=
  match cs with
  | e :: behind =>
    if e = 'e' || e = 'E' then
      let (negative, unsigned) := takeSign behind
      let (digits, rest) := takeDigits unsigned
      if digits.isEmpty then (0, cs)
      else (if negative then -(digitsValue digits : Int) else digitsValue digits, rest)
    else (0, cs)
  | [] => (0, cs)

/-- The longest numeral at the front of a text, and the rest. -/
def take? (cs : List Char) : Option (Decimal × List Char) :=
  let (negative, unsigned) := takeSign cs
  match takeFixed? unsigned with
  | none => none
  | some (whole, fraction, rest) =>
    let (exponent, rest) := takeExponent rest
    some (⟨negative, digitsValue (whole ++ fraction), exponent - fraction.length⟩, rest)

/-! ## Leading numbers -/

/-- The number at the front of an attribute's value, behind blanks. What follows it, such as a
unit, is ignored. A number too large for the format is none. -/
def leadingNumber? (cs : List Char) : Option Binary64 :=
  match take? (cs.dropWhile isBlank) with
  | none => none
  | some (decimal, _) =>
    let x := decimal.toBinary64
    if x.isFinite then some x else none

/-! ## Whole texts -/

/-- Blanks around a whole numeral: white space without the information separators. -/
def isPadding (c : Char) : Bool :=
  isBlank c && !(0x1c ≤ c.toNat && c.toNat ≤ 0x1f)

/-- Drop the low lines that stand between two digits; `none` when one stands elsewhere. -/
def dropGrouping? (afterDigit : Bool) : List Char → Option (List Char)
  | [] => some []
  | '_' :: c :: rest =>
    if afterDigit && isDecimalDigit c then (dropGrouping? true rest).map (c :: ·) else none
  | c :: rest =>
    if c = '_' then none else (dropGrouping? (isDecimalDigit c) rest).map (c :: ·)

/-- The special values that have a name, in any case. -/
def named? (cs : List Char) : Option Binary64 :=
  let (negative, name) := takeSign cs
  match String.ofList (name.map Char.toLower) with
  | "inf" => some (.infinite negative)
  | "infinity" => some (.infinite negative)
  | "nan" => some .notANumber
  | _ => none

/-- The number that a whole text stands for. Padding around it is ignored, and single low lines
may group its digits. -/
def number? (cs : List Char) : Option Binary64 :=
  match dropGrouping? false (stripBy isPadding cs) with
  | none => none
  | some cs =>
    match take? cs with
    | some (decimal, []) => some decimal.toBinary64
    | _ => named? cs

end IconForge.Numeral
