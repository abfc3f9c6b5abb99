import IconForge.Files.Path
import IconForge.Graphic.Basic
import IconForge.Report.Table

set_option autoImplicit false

/-! # Outcomes

What became of a source file, as a value and as a row of a table. A run is summed up by counting
the rows of each status. -/

namespace IconForge

/-- What became of a source file. -/
inductive Status where
  | created
  /-- The component was there already and was not replaced. -/
  | skipped
  | error
  /-- A status that no conversion has. -/
  | other (name : String)
deriving DecidableEq, Repr

/-- The name of a status. -/
def Status.name : Status → String
  | .created => "created"
  | .skipped => "skipped"
  | .error => "error"
  | .other name => name

/-- The outcome of converting a source file. -/
structure Outcome where
  source : Path
  status : Status
  /-- Where the component is, or would be. -/
  output : Option Path := none
  component : Option CodeText := none
  viewBox : Option ViewBox := none
  /-- What speaks against the inner markup. -/
  warnings : List String := []
  error : Option CodeText := none

/-- The row of an outcome in a table. -/
structure Row where
  source : CodeText
  output : Option CodeText
  component : Option CodeText
  status : String
  viewBox : Option String
  warnings : String
  error : Option CodeText
deriving DecidableEq, Repr

namespace Outcome

/-- The row of an outcome. Writing its view box may fail. -/
def row (outcome : Outcome) : Except Json.NumberFault Row := do
  let viewBox ← outcome.viewBox.mapM ViewBox.text
  return {
    source := outcome.source.text
    output := outcome.output.map Path.text
    component := outcome.component
    status := outcome.status.name
    viewBox := viewBox
    warnings := String.intercalate "; " outcome.warnings
    error := outcome.error }

end Outcome

namespace Row

/-- The cells of a row by their columns. -/
def fields (row : Row) : List (String × Option CodeText) :=
  [("source", some row.source), ("output", row.output), ("component", row.component),
   ("status", some row.status), ("view_box", row.viewBox.map CodeText.ofString),
   ("warnings", some row.warnings), ("error", row.error)]

/-- The columns of a table of rows. -/
def columns : List String :=
  ["source", "output", "component", "status", "view_box", "warnings", "error"]

/-- The table of rows; it has its columns also without rows. -/
def table (rows : List Row) : Report.Table where
  columns := columns
  rows := rows.map fun row => row.fields.map fun field => .ofText? field.2

end Row

/-- How many rows have which status. -/
structure Summary where
  total : Nat
  created : Nat
  skipped : Nat
  error : Nat
deriving DecidableEq, Repr

namespace Summary

/-- The summary of the statuses of rows. -/
def ofStatuses (statuses : List String) : Summary where
  total := statuses.length
  created := statuses.count Status.created.name
  skipped := statuses.count Status.skipped.name
  error := statuses.count Status.error.name

/-- The summary of rows. -/
def ofRows (rows : List Row) : Summary :=
  ofStatuses (rows.map (·.status))

/-- A summary as a JSON object. -/
def toJson (summary : Summary) : Json :=
  .object [("total", .integer summary.total), ("created", .integer summary.created),
    ("skipped", .integer summary.skipped), ("error", .integer summary.error)]

end Summary

end IconForge
