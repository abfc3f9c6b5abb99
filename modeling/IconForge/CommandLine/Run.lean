import IconForge.CommandLine.Usage
import IconForge.Conversion.Converter

set_option autoImplicit false

/-! # Running the program

A run reads its arguments and settings, converts a file or a directory, writes a report if one is
asked for and ends with an exit code: zero when every file was converted or skipped, one after a
fault, two when the arguments are wrong. Questions are only asked when there is a terminal to
answer them. What reports are written with, and what there is room for, are parameters. -/

namespace IconForge.CommandLine

open IconForge.Action

/-! ## Questions and answers -/

/-- The question whether a file may be replaced. -/
def question (fileName : CodeText) : CodeText :=
  "File " ++ fileName ++ " already exists. Overwrite? [y/N] "

/-- The lines of a text without the line feeds at their ends, where the first one begins with
characters that were taken before. -/
def linesFrom (begun : List Char) : List Char → List (List Char)
  | [] => if begun.isEmpty then [] else [begun]
  | c :: rest =>
    if c = '\n' then begun :: linesFrom [] rest else linesFrom (begun ++ [c]) rest

/-- The lines of a text. A line feed ends a line, so there is none behind the last one. -/
def linesOf (cs : List Char) : List (List Char) :=
  linesFrom [] cs

/-- Whether a line allows a file to be replaced. -/
def isYes (line : List Char) : Bool :=
  let word := (Text.strip line).map Char.toLower
  word = ['y'] || word = ['y', 'e', 's']

/-- The answers that are typed at a terminal. At the end of the typed text there are no more. -/
def typedAnswers (typed : String) : Answers :=
  ⟨(linesOf typed.toList).map isYes, none⟩

/-! ## The run -/

section

variable (tools : Report.Tools) (room : Room)

/-- The converter that arguments and settings ask for. -/
def converterFor (arguments : Arguments) (settings : Settings) (generator : Generator)
    (terminal : Bool) : Converter where
  outputDirectory :=
    match arguments.outputDirectory.text? with
    | some "" => none
    | directory => directory.map fun text => Path.ofText text
  overwrite := arguments.force
  asks := terminal
  checksMarkup := settings.checkMarkup.isTruthy && !arguments.noCheck
  defaultSize := settings.defaultSize
  generator := generator
  maxMarkupSize := settings.maxMarkupSize
  room := room

/-- Convert the input: one row for each source. -/
def convert (converter : Converter) (input : Path) (recursive : Bool) : Action (List Row) := do
  if ← lift .file ((← files).isDirectory input) then converter.convertDirectory input recursive
  else Converter.rowsOf [← converter.convertFile input]

/-- The record of a run. -/
def runRecord (input : Path) (settings : Settings) (summary : Summary) : Json :=
  .object [("input", .text input.text), ("settings", .object settings.toMembers),
    ("summary", summary.toJson)]

/-- The name of the file beside a report that holds the record of the run. -/
def recordName : String :=
  "conversion_config.json"

/-- Write the report of a run and its record. -/
def writeReport (report : Path) (rows : List Row) (record : Json) : Action Unit := do
  Storage.saveResults tools room (.table (Row.table rows)) report
  Storage.saveConfiguration room record (report.withName recordName)

/-- Do what the arguments ask for. -/
def execute (arguments : Arguments) (terminal : Bool) : Action Summary := do
  let settings ← Settings.load room arguments.config.text?
  let generator ← lift .text settings.generator
  let converter := converterFor room arguments settings generator terminal
  let input := Path.ofText arguments.input
  let rows ← convert converter input arguments.recursive
  let summary := Summary.ofRows rows
  note .info .commandLine <|
    s!"Converted {summary.created} of {summary.total} SVG files " ++
    s!"({summary.skipped} skipped, {summary.error} failed)"
  match arguments.report.text? with
  | none => pure ()
  | some "" => pure ()
  | some report =>
    writeReport tools room (Path.ofText report) rows (runRecord input settings summary)
  return summary

/-- Do what the arguments ask for and tell the exit code. -/
def exitCode (arguments : Arguments) (terminal : Bool) : Action Nat :=
  tryCatch
    (do
      let summary ← execute tools room arguments terminal
      return if summary.error = 0 then 0 else 1)
    fun fault => do
      note .error .commandLine ("Failed to convert SVG: " ++ fault.message)
      return 1

/-- What a run leaves behind. -/
structure Run where
  exitCode : Nat
  output : CodeText
  /-- The complaint about the arguments, if they were wrong. -/
  complaint : String
  /-- Whether the arguments were accepted. -/
  started : Bool
  log : List Log.Entry
  files : FileSystem
  /-- The files that were asked about. -/
  asked : List CodeText

/-- Run the program on files with the text that is typed at the terminal, if there is one. -/
def run (argv : List String) (terminal : Option String) (fs : FileSystem) : Run :=
  match parse argv with
  | .error .help =>
    { exitCode := 0, output := helpText, complaint := "", started := false, log := [], files := fs
      asked := [] }
  | .error (.misuse misuse) =>
    { exitCode := 2, output := "", complaint := misuse.complaint, started := false, log := []
      files := fs, asked := [] }
  | .ok arguments =>
    let workspace : Workspace :=
      { files := fs, answers := (terminal.map typedAnswers).getD ⟨[], none⟩ }
    let (result, workspace) := (exitCode tools room arguments terminal.isSome).perform workspace
    { exitCode :=
        match result with
        | .ok code => code
        | .error _ => 1
      output := workspace.asked.flatMap question
      complaint := ""
      started := true
      log := Log.shown arguments.verbose workspace.log
      files := workspace.files
      asked := workspace.asked }

end

end IconForge.CommandLine
