import IconForge.Json.Basic

set_option autoImplicit false

/-! # Tables

A table has named columns and rows of cells. Records, which need not all have the same fields, can
be made into a table. -/

namespace IconForge.Report

/-- A cell of a table. -/
inductive Cell where
  | missing
  | text (value : CodeText)
  | boolean (value : Bool)
  | integer (value : Int)
  | real (value : Binary64)
deriving DecidableEq

/-- The cell of a text that may be missing. -/
def Cell.ofText? : Option CodeText → Cell
  | none => .missing
  | some value => .text value

/-- A table; every row has one cell for each column. -/
structure Table where
  columns : List String
  rows : List (List Cell)
deriving DecidableEq

/-- A record: fields by name. -/
abbrev Record := List (String × Cell)

/-- What a report is about. -/
inductive Results where
  | table (table : Table)
  | records (records : List Record)

end IconForge.Report
