import IconForge.Json.Writer
import IconForge.Report.Table
import IconForge.Text.Encoding

set_option autoImplicit false

/-! # Tables as JSON records

A list with one object for each row, in which every column is a member, missing cells included.
Numbers have at most ten decimals, and those too large or too small to be written out have ten
significant digits and an exponent. -/

namespace IconForge.Report.JsonRecords

open IconForge.Json

/-! ## Numbers -/

/-- The units of `2 ^ -1074` in one. -/
def one : Nat :=
  Nat.pow 2 1074

/-- Digits filled up with zeros at the front. -/
def padded (width n : Nat) : List Char :=
  let digits := (toString n).toList
  List.replicate (width - digits.length) '0' ++ digits

/-- A number with the digits of a fraction in ten places; zeros at the end are dropped, but not the
first one. -/
def withFraction (whole fraction : Nat) : String :=
  let digits := ((padded 10 fraction).reverse.dropWhile (· = '0')).reverse
  toString whole ++ "." ++ (if digits.isEmpty then "0" else String.ofList digits)

/-- A magnitude written out in full. The fraction is multiplied with `10 ^ 10` in binary64 and
then rounded to a whole number, a half up to an odd one and, at zero, to one. -/
def fullText (m : Magnitude) : String :=
  let whole := m.units / one
  let scaled := ((Magnitude.ofRatio? (m.units % one * Nat.pow 10 10) one).map (·.units)).getD 0
  let low := scaled / one
  let twice := 2 * (scaled % one)
  let fraction :=
    if twice > one || (twice = one && (low = 0 || low % 2 = 1)) then low + 1 else low
  if fraction ≥ Nat.pow 10 10 then withFraction (whole + 1) 0 else withFraction whole fraction

/-- A magnitude with ten significant digits and an exponent. -/
def scientificText (m : Magnitude) : String :=
  let point := ShortestDigits.pointOf m.units one
  let up := Nat.pow 10 (10 - point).toNat
  let down := Nat.pow 10 (point - 10).toNat
  let rounded := Magnitude.nearestQuotient (m.units * up) (one * down)
  let point := if rounded = Nat.pow 10 10 then point + 1 else point
  let digits := (toString (ShortestDigits.dropZeros rounded)).toList
  NumberLayout.record.scientific digits point

/-- A number in a record. -/
def realText (x : Binary64) : String :=
  match x with
  | .finite negative m =>
    let outOfRange := m.units > Nat.pow 10 16 * one ||
      (m.significand ≠ 0 && m.units * Nat.pow 10 15 < one)
    NumberLayout.signed (negative && m.significand ≠ 0)
      (if outOfRange then scientificText m else fullText m)
  | _ => "null"

/-! ## Records -/

/-- Strings in records. -/
def stringStyle : StringStyle where
  escapesSolidus := true
  escapesDelete := false

/-- The text of a cell. -/
def cellText : Cell → String
  | .missing => "null"
  | .text value => writeString stringStyle value
  | .boolean value => if value then "true" else "false"
  | .integer value => toString value
  | .real value => realText value

/-- The name of a member: the name of its column up to the first null character. -/
def memberName (column : String) : CodeText :=
  CodeText.ofChars (column.toList.takeWhile (· ≠ '\x00'))

/-- A row as an object. -/
def writeRow (columns : List String) (row : List Cell) : String :=
  let members := (columns.zip row).map fun (column, cell) =>
    "    " ++ writeString stringStyle (memberName column) ++ ":" ++ cellText cell
  "  \x7b\n" ++ String.intercalate ",\n" members ++ "\n  \x7d"

/-- A table as a list of records. Without columns there are no records. -/
def write (table : Table) : String :=
  let rows := if table.columns.isEmpty then [] else table.rows
  "[\n" ++ String.intercalate ",\n" (rows.map (writeRow table.columns)) ++ "\n]"

/-- Why the text in a cell has no bytes. -/
def encodingFault? : Cell → Option Text.Encoding.Fault
  | .text value => Text.Encoding.faultFrom? .content 0 value
  | _ => none

/-- A table as a list of records, for which every text in it has to have bytes. -/
def write? (table : Table) : Except Text.Encoding.Fault CodeText :=
  match table.rows.flatten.findSome? encodingFault? with
  | some fault => .error fault
  | none => .ok (write table)

end IconForge.Report.JsonRecords
