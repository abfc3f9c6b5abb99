import IconForge.Report.Table

set_option autoImplicit false

/-! # Tables of records

The columns of a table of records are the fields of all of them; a field that a record has not is a
missing cell. A column of numbers that are not all integers holds binary64 numbers only, as long as
its integers fit into machine words. -/

namespace IconForge.Report

namespace Record

/-- The cell of a field. Of two fields with one name the last counts. -/
def cell (record : Record) (name : String) : Cell :=
  (KeyedList.get? record.reverse name).getD .missing

end Record

namespace Cell

/-- Whether a cell holds a number, or nothing. -/
def isNumeric : Cell → Bool
  | .missing => true
  | .integer _ => true
  | .real _ => true
  | _ => false

/-- Whether a cell keeps a column of integers from staying one. -/
def breaksIntegers : Cell → Bool
  | .missing => true
  | .real _ => true
  | _ => false

/-- The integer in a cell. -/
def integer? : Cell → Option Int
  | .integer value => some value
  | _ => none

/-- An integer as a binary64 number; other cells, and integers that are too large, stay. -/
def toReal : Cell → Cell
  | .integer value => ((Binary64.ofInt? value).map .real).getD (.integer value)
  | cell => cell

end Cell

namespace Table

/-- Append the names that are not there yet. -/
def addColumns (columns : List String) (record : Record) : List String :=
  record.foldl (fun columns field =>
    if columns.contains field.1 then columns else columns ++ [field.1]) columns

/-- The columns of records, in the order in which their names first appear. -/
def columnsOf (records : List Record) : List String :=
  records.foldl addColumns []

/-- Whether integers fit into machine words of one kind: into 64 bits with a sign or into 64 bits
without one. -/
def fitWords (values : List Int) : Bool :=
  let least : Int := if values.any (· < 0) then -Nat.pow 2 63 else 0
  values.all fun value => decide (least ≤ value ∧ value < least + Nat.pow 2 64)

/-- Whether the integers of a column become binary64 numbers: all its cells are numbers or
missing, at least one of them is no integer, and the integers fit into words. -/
def becomesReal (cells : List Cell) : Bool :=
  cells.all Cell.isNumeric && cells.any Cell.breaksIntegers &&
    fitWords (cells.filterMap Cell.integer?)

/-- The table of records. -/
def ofRecords (records : List Record) : Table :=
  let columns := columnsOf records
  let real := columns.filter fun name => becomesReal (records.map (·.cell name))
  { columns := columns
    rows := records.map fun record => columns.map fun name =>
      if real.contains name then (record.cell name).toReal else record.cell name }

end Table

end IconForge.Report
