import IconForge.Report.Csv
import IconForge.Report.Packing
import IconForge.Report.Table
import IconForge.Text.Encoding

set_option autoImplicit false

/-! # Tools for reports

Reports are written by tools that are not part of the program: they make tables of records, texts of
tables and packings of bytes. What is known about a tool is a proposition about it. -/

namespace IconForge.Report

/-- The tools that reports are written with, as they work in one run: what they pack may hold the
time at which it was packed. -/
structure Tools where
  /-- The table of records. -/
  tableOf : List Record → Table
  /-- The pieces in which a table is written as CSV. -/
  csv : Table → List CodeText
  /-- A table as JSON records, which may fail when a text in it has no bytes. -/
  json : Table → Except Text.Encoding.Fault CodeText
  /-- Bytes for a path in a packing. -/
  pack : Packing → Path → List UInt8 → List UInt8

namespace Tools

/-- The table that results are written as. -/
def table (tools : Tools) : Results → Table
  | .table table => table
  | .records records => tools.tableOf records

/-- The pieces of a report: those of a CSV table, or all of the JSON records at once. -/
def pieces (tools : Tools) (json : Bool) (table : Table) :
    Except Text.Encoding.Fault (List CodeText) :=
  if json then (tools.json table).map fun text => [text] else .ok (tools.csv table)

/-- The bytes of a report at a path, packed as the path asks for. -/
def packed (tools : Tools) (path : Path) (bytes : List UInt8) : List UInt8 :=
  match Packing.ofPath path with
  | .plain => bytes
  | packing => tools.pack packing path bytes

/-! ## What is known about tools -/

/-- Whether tables of texts with more than one column are written as CSV with few quotes: one line
for the names of the columns and one for each row, with missing texts empty. -/
def QuotesMinimally (tools : Tools) : Prop :=
  ∀ (columns : List String) (rows : List (List (Option CodeText))), 1 < columns.length →
    (∀ row ∈ rows, row.length = columns.length) →
    (tools.csv ⟨columns, rows.map fun row => row.map Cell.ofText?⟩).flatten =
      Csv.write (columns.map CodeText.ofString :: rows.map fun row => row.map (·.getD []))

/-- Whether a function gives back the bytes that were packed. -/
def UndoneBy (tools : Tools) (packing : Packing) (unpack : List UInt8 → Option (List UInt8)) :
    Prop :=
  ∀ path bytes, unpack (tools.pack packing path bytes) = some bytes

/-- Whether the contents of the file at a path are bytes, packed as the path asks for. -/
def Holds (tools : Tools) (path : Path) (bytes contents : List UInt8) : Prop :=
  match Packing.ofPath path with
  | .plain => contents = bytes
  | packing => ∀ unpack, tools.UndoneBy packing unpack → unpack contents = some bytes

theorem holds_packed (tools : Tools) (path : Path) (bytes : List UInt8) :
    tools.Holds path bytes (tools.packed path bytes) := by
  unfold Holds packed
  cases Packing.ofPath path with
  | plain => rfl
  | _ => exact fun unpack hunpack => hunpack path bytes

end Tools

end IconForge.Report
