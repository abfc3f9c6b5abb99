import IconForge.Files.FileSystem
import IconForge.Graphic.Basic
import IconForge.Json.Reader
import IconForge.Markup.Check
import IconForge.Report.Destination
import IconForge.Text.Encoding

set_option autoImplicit false

/-! # Faults

Everything that can keep a file from being converted, a setting from being read or a report from
being written, with its wording. -/

namespace IconForge

/-- Why something could not be done. -/
inductive Fault where
  /-- A path does not name an SVG file. -/
  | notSvgName
  /-- There is no SVG file at the path that is to be converted. -/
  | inputNotFound (path : Path)
  | directoryNotFound (path : Path)
  /-- There is nothing at the path of an SVG file that is to be read. -/
  | sourceMissing (path : Path)
  | configurationMissing (path : Path)
  | configurationNotObject (path : Path)
  | unknownKeys (path : Path) (keys : List CodeText)
  /-- The content of a file gives no graphic. -/
  | unusable (why : Unusable)
  | file (fault : FileSystem.Fault)
  /-- Bytes are no text. -/
  | decoding (fault : Text.Utf8.Fault)
  /-- A text has no bytes. -/
  | encoding (fault : Text.Encoding.Fault)
  | address (fault : Report.AddressFault)
  /-- There is nothing at hand that packs a report as its name asks for. -/
  | noPacker
  | json (fault : Json.SyntaxFault)
  | number (fault : Json.NumberFault)
  | limit (fault : Markup.LimitFault)
  /-- A value cannot be displayed, or not be written as a whole. -/
  | text (fault : Json.TextFault)
  /-- A question was asked and there are no more answers. -/
  | noAnswer
deriving DecidableEq, Repr

/-- The wording of a fault. -/
def Fault.message : Fault → CodeText
  | .notSvgName => "Please provide an SVG file and try again"
  | .inputNotFound path => "SVG file not found: " ++ path.text
  | .directoryNotFound path => "Directory not found: " ++ path.text
  | .sourceMissing path => "SVG file not found: " ++ path.text
  | .configurationMissing path => "Configuration file not found: " ++ path.text
  | .configurationNotObject path =>
    "Configuration in " ++ path.text ++ " must be a JSON object"
  | .unknownKeys path keys =>
    "Unknown configuration keys in " ++ path.text ++ ": " ++ List.intercalate ", " keys
  | .unusable _ => "Invalid SVG content"
  | .file fault => fault.message
  | .decoding fault => fault.message
  | .encoding fault => fault.message
  | .address fault => fault.message
  | .noPacker =>
    "`Import zstandard` failed.  Use pip, conda, or your preferred package management tool to " ++
    "install the zstandard package."
  | .json fault => fault.message
  | .number fault => fault.message
  | .limit fault => fault.message
  | .text fault => fault.message
  | .noAnswer => "EOF when reading a line"

end IconForge
