import IconForge.Number.Layout
import IconForge.Report.Tools
import IconForge.Toolkit.Frame
import IconForge.Toolkit.JsonRecords
import IconForge.Toolkit.Packer

set_option autoImplicit false

/-! # The tools at hand

The tools that the program runs with. What is proved about reports is proved for any tools, with
what it needs to know about them as hypotheses; these are one choice. Packed bytes in one format are
not the same with all packers: here gzip and zip files hold their content as it is, and no times. -/

namespace IconForge.Report.Tools

/-- The text of a cell in a CSV table. A cell that holds no number is empty. -/
def csvText : Cell → CodeText
  | .missing => []
  | .text value => value
  | .boolean value => if value then "True" else "False"
  | .integer value => toString value
  | .real .notANumber => ""
  | .real value => NumberLayout.record.render value

/-- The fields of a table, line by line. -/
def csvFields (table : Table) : List (List CodeText) :=
  table.columns.map CodeText.ofString :: table.rows.map fun row => row.map csvText

/-- The tools that the program runs with. -/
def standard : Tools where
  tableOf := Table.ofRecords
  csv := fun table => (csvFields table).map Csv.writeLine
  json := JsonRecords.write?
  pack := Packing.pack

end IconForge.Report.Tools
