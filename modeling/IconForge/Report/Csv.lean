import IconForge.Text.CodePoint

set_option autoImplicit false

/-! # CSV with few quotes

Lines of fields, with commas between the fields and a line feed at the end of each line. Only a
field that holds a comma, a quote or a line feed is put between quotes, with every quote written
twice. A line whose only field is empty is written as two quotes, so that it does not look like an
empty line. -/

namespace IconForge.Report.Csv

/-- Whether a field has to be put between quotes. -/
def needsQuotes (field : CodeText) : Bool :=
  field.any fun point => point.isChar ',' || point.isChar '"' || point.isChar '\n'

/-- A field with every quote written twice. -/
def doubleQuotes : CodeText → CodeText
  | [] => []
  | point :: rest =>
    if point = .char '"' then point :: point :: doubleQuotes rest else point :: doubleQuotes rest

/-- A field as it is written. -/
def writeField (field : CodeText) : CodeText :=
  if needsQuotes field then .char '"' :: doubleQuotes field ++ [.char '"'] else field

/-- Fields with commas between them. -/
def joinFields : List CodeText → CodeText
  | [] => []
  | [field] => writeField field
  | field :: fields => writeField field ++ .char ',' :: joinFields fields

/-- A line of fields with its end. -/
def writeLine (fields : List CodeText) : CodeText :=
  match fields with
  | [[]] => [.char '"', .char '"', .char '\n']
  | fields => joinFields fields ++ [.char '\n']

/-- Lines of fields as CSV. -/
def write (lines : List (List CodeText)) : CodeText :=
  (lines.map writeLine).flatten

end IconForge.Report.Csv
