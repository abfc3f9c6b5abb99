import IconForge.Conversion.Outcome
import IconForge.Conversion.Settings
import IconForge.Graphic.Extraction

set_option autoImplicit false

/-! # Converting files

A source file is turned into a component file in the output directory, or beside the source when
there is none. A component that is there already is only replaced when the converter overwrites or
the answer to a question allows it. The check of the inner markup never keeps a component from
being written; its offences are warnings.

In a directory every SVG file is converted in the order of their paths. A fault in one of them
becomes an error row, and the others go on. -/

namespace IconForge

open IconForge.Action

/-- How files are converted. -/
structure Converter where
  /-- Where components are written to. -/
  outputDirectory : Option Path
  /-- Whether components are replaced without a question. -/
  overwrite : Bool
  /-- Whether to ask before a component is replaced. -/
  asks : Bool
  /-- Whether inner markup is checked. -/
  checksMarkup : Bool
  defaultSize : Json
  generator : Generator
  maxMarkupSize : Json
  /-- What there is room for in the steps of a conversion. -/
  room : Room

namespace Converter

/-- The converter with the default settings, which asks nothing and replaces nothing. -/
def default (room : Room) : Converter where
  outputDirectory := none
  overwrite := false
  asks := false
  checksMarkup := true
  defaultSize := Settings.default.defaultSize
  generator := Generator.default
  maxMarkupSize := Settings.default.maxMarkupSize
  room := room

/-- The ending of the names of SVG files. -/
def svgEnding : CodeText :=
  ".svg"

/-! ## One file -/

/-- Check that a path names an SVG file that is there. -/
def resolveInput (path : Path) : Action Unit := do
  if !svgEnding.isSuffixOf path.text then throw .notSvgName
  if !(← lift .file ((← files).isFile path)) then throw (.inputNotFound path)

/-- The name of a source without its ending, as far as a string can show it. -/
def baseName (source : Path) : String :=
  CodeText.shown (source.name.take (source.name.length - svgEnding.length))

/-- Take the graphic from the text of a source. -/
def extractGraphic (c : Converter) (source : Path) (text : String) : Action Graphic := do
  match Graphic.remark? c.defaultSize text with
  | some remark => note .debug .extraction remark
  | none => pure ()
  match Graphic.extract c.defaultSize text with
  | .ok graphic => return graphic
  | .error why =>
    note .debug .conversion (source.text ++ s!": {why.reason} ({why.detail})")
    throw (.unusable why)

/-- The warnings about the markup of a graphic. -/
def checkMarkup (c : Converter) (source : Path) (graphic : Graphic) : Action (List String) := do
  if c.checksMarkup then
    match ← lift .limit (Markup.offence? c.maxMarkupSize graphic.namespaces graphic.inner) with
    | none => return []
    | some offence =>
      note .warning .conversion (source.name ++ ": " ++ offence.message)
      return [offence.message]
  else
    return []

/-- The source of the component for a graphic. -/
def generateComponent (c : Converter) (base : String) (graphic : Graphic) : Action CodeText := do
  note .debug .generation ("Generating component " ++ c.generator.componentName base)
  lift .number (c.generator.generate base graphic)

/-- Where the component for a source is written to. -/
def outputPath (c : Converter) (source : Path) : Path :=
  (c.outputDirectory.getD source.parent).join
    (Path.ofText (c.generator.fileName (baseName source)))

/-- Whether a component that is there already may be replaced. -/
def mayReplace (c : Converter) (fileName : CodeText) : Action Bool := do
  if c.overwrite then return true
  else if c.asks then ask fileName
  else return false

/-- Convert a file. -/
def convertFile (c : Converter) (source : Path) : Action Outcome := do
  resolveInput source
  note .debug .conversion ("Processing SVG file: " ++ source.text)
  let text ← Storage.loadSvg source
  let base := baseName source
  let graphic ← c.extractGraphic source text
  let warnings ← c.checkMarkup source graphic
  let component ← c.generateComponent base graphic
  let fileName := c.generator.fileName base
  let output := c.outputPath source
  let outcome (status : Status) : Outcome :=
    { source := source
      status := status
      output := some output
      component := some (c.generator.componentName base)
      viewBox := some graphic.viewBox
      warnings := warnings }
  let present ← lift .file ((← files).existsAt output)
  let replace ← if present then c.mayReplace fileName else pure true
  if replace then
    Storage.saveComponent c.room component output true
    note .info .conversion ("Successfully created React component: " ++ fileName)
    return outcome .created
  else
    note .info .conversion ("Skipped existing file: " ++ fileName)
    return outcome .skipped

/-! ## A directory -/

/-- The SVG files in a directory, in ascending order of their paths. -/
def sourcesIn (fs : FileSystem) (directory : Path) (recursive : Bool) : List Path :=
  match fs.locate directory with
  | .error _ => []
  | .ok location =>
    (fs.filesBelow location svgEnding recursive).map directory.below

/-- What keeps the SVG files in a directory from being found: the first path below it that leads to
a directory too deep to go into, or about which there is no answer. -/
def searchFault? (room : Nat) (fs : FileSystem) (directory : Path) (recursive : Bool) :
    Option FileSystem.Fault :=
  match fs.locate directory with
  | .error _ => none
  | .ok location =>
    (fs.searched location svgEnding recursive).findSome? fun names =>
      let path := directory.below names
      if recursive && fs.isTooDeep room location names then some ⟨.tooDeep, path.text⟩
      else fs.unanswered? path

/-- Convert a file of a directory; a fault becomes an error. -/
def convertOrReport (c : Converter) (source : Path) : Action Outcome :=
  tryCatch (c.convertFile source) fun fault => do
    note .error .conversion ("Error converting " ++ source.text ++ ": " ++ fault.message)
    return { source := source, status := .error, error := some fault.message }

/-- The rows of outcomes. -/
def rowsOf (outcomes : List Outcome) : Action (List Row) :=
  lift .number (outcomes.mapM Outcome.row)

/-- Convert every SVG file in a directory: one row for each. What keeps them from being found ends
the run before anything is converted. -/
def convertDirectory (c : Converter) (directory : Path) (recursive : Bool) : Action (List Row) := do
  let fs ← files
  if !(← lift .file (fs.isDirectory directory)) then throw (.directoryNotFound directory)
  if let some fault := searchFault? c.room.searching fs directory recursive then throw (.file fault)
  let sources := sourcesIn fs directory recursive
  note .info .conversion (s!"Found {sources.length} SVG files in " ++ directory.text)
  let outcomes ← sources.mapM c.convertOrReport
  rowsOf outcomes

end Converter

end IconForge
