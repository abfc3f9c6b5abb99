import IconForge.Conversion.Action
import IconForge.Json.Writer
import IconForge.Report.Tools
import IconForge.Room
import IconForge.Text.LineEnds

set_option autoImplicit false

/-! # Storage

Reading and writing the files of a run: sources, components, reports and configurations. Texts
are kept as UTF-8; the line ends of a text that is read become line feeds. A file that is written
gets the directories above it first, and a fault in making these is not logged.

A text is handed over in chunks. A chunk that has no bytes ends the writing, and the chunks in
front of it are in the file. So is the front of a record whose writing breaks off. -/

namespace IconForge.Storage

open IconForge.Action

/-! ## Texts -/

/-- The text that bytes stand for, with line feeds at the ends of its lines. -/
def textOfBytes (bytes : List UInt8) : Except Text.Utf8.Fault String :=
  (Text.Utf8.decode bytes).map fun cs => String.ofList (Text.toLineFeeds cs)

/-- Read a text file. -/
def readText (path : Path) : Action String := do
  let bytes ← lift .file ((← files).read path)
  lift .decoding (textOfBytes bytes)

/-- Write a file. -/
def writeBytes (path : Path) (bytes : List UInt8) : Action Unit := do
  setFiles (← lift .file ((← files).write path bytes))

/-- Stop at the fault of a chunk that has no bytes. -/
def checkEncoding : Option Text.Encoding.Fault → Action Unit
  | none => pure ()
  | some fault => throw (.encoding fault)

/-- Write the chunks of a text, in the form that their bytes are to have in the file. -/
def writeChunks (path : Path) (form : List UInt8 → List UInt8) (chunks : List CodeText) :
    Action Unit := do
  let (bytes, fault) := Text.Encoding.encodeChunks chunks
  writeBytes path (form bytes)
  checkEncoding fault

/-- Write a text as one chunk. -/
def writeText (path : Path) (text : CodeText) : Action Unit :=
  writeChunks path id [text]

/-- Make the directories above a path. -/
def makeParents (room : Nat) (path : Path) : Action Unit := do
  let (result, fs) := (← files).makeDirectories room path.parent
  setFiles fs
  lift .file result

/-! ## Sources and components -/

/-- Read an SVG file. -/
def loadSvg (path : Path) : Action String := do
  if !(← lift .file ((← files).existsAt path)) then throw (.sourceMissing path)
  reporting .storage ("Error loading SVG file " ++ path.text) (readText path)

/-- Write a component. -/
def saveComponent (room : Room) (text : CodeText) (path : Path) (createDirectories : Bool) :
    Action Unit := do
  if createDirectories then makeParents room.making path
  reporting .storage ("Error saving component to " ++ path.text) do
    writeText path text
    note .debug .storage ("Component saved to: " ++ path.text)

/-! ## Reports -/

/-- Whether a report at a path is written as JSON. -/
def isJsonReport (path : Path) : Bool :=
  decide (Report.Packing.small path.suffix = CodeText.ofString ".json")

/-- Read a local file whose address was given for a report. -/
def readLocal (name : String) : Action Unit := do
  match Report.readLocal (← files) name with
  | .ok _ => pure ()
  | .error fault =>
    if fault.obstacle = .nullInPath then throw (.file fault)
    else throw (.address (.unreadable fault))

/-- Write the chunks of a report to where its path leads. The text for a local address is not kept,
but it needs bytes all the same. -/
def writeReport (tools : Report.Tools) (path : Path) (chunks : List CodeText) : Action Unit := do
  let destination := Report.Destination.ofPath path
  match destination with
  | .unreachable fault => throw (.address fault)
  | .localSource name => readLocal name
  | .file => pure ()
  if Report.Packing.ofPath path = .zstandard then throw .noPacker
  if destination = .file then writeChunks path (tools.packed path) chunks
  else checkEncoding (Text.Encoding.encodeChunks chunks).2

/-- Write a report, as JSON or as CSV. -/
def saveResults (tools : Report.Tools) (room : Room) (results : Report.Results) (path : Path) :
    Action Unit := do
  makeParents room.filing path
  let table := tools.table results
  reporting .storage "Error saving results" do
    writeReport tools path (← lift .encoding (tools.pieces (isJsonReport path) table))
    let format := if isJsonReport path then "JSON" else "CSV"
    note .info .storage ("Results saved to " ++ format ++ ": " ++ path.text)

/-! ## Configurations -/

/-- Read the members of a configuration, which has to be an object. -/
def loadConfiguration (room : Room) (path : Path) : Action (List (CodeText × Json)) := do
  if !(← lift .file ((← files).existsAt path)) then throw (.configurationMissing path)
  let value ← reporting .storage ("Error loading configuration from " ++ path.text) do
    lift .json (Json.readWithin room.reading (← readText path))
  match value with
  | .object members => return members
  | _ => throw (.configurationNotObject path)

/-- The names of members that are not among others, in ascending order. -/
def unknownKeys (defaults members : List (CodeText × Json)) : List CodeText :=
  let names := members.map (·.1)
  let unknown := names.filter fun name => !(defaults.map (·.1)).contains name
  unknown.mergeSort CodeText.le

/-- Read a configuration over defaults, which are all that it may change. -/
def loadOver (room : Room) (defaults : List (CodeText × Json)) (path : Path) :
    Action (List (CodeText × Json)) := do
  let members ← loadConfiguration room path
  match unknownKeys defaults members with
  | [] => return KeyedList.setAll defaults members
  | keys => throw (.unknownKeys path keys)

/-- Stop at what kept a value from being written as a whole. -/
def checkWriting : Option Json.TextFault → Action Unit
  | none => pure ()
  | some fault => throw (.text fault)

/-- Write a record of a run. -/
def saveConfiguration (room : Room) (value : Json) (path : Path) : Action Unit := do
  makeParents room.filing path
  reporting .storage ("Error saving configuration to " ++ path.text) do
    let (text, fault) := value.writeWithin room.writing
    writeText path text
    checkWriting fault
    note .info .storage ("Run configuration saved to: " ++ path.text)

end IconForge.Storage
