import IconForge.CommandLine.Run
import IconForge.Toolkit.Standard

set_option autoImplicit false

/-! # The program

The command line program around `CommandLine.run`. It reads the working directory, lets the run
take place, writes back what the run has changed and shows its output and log. Paths lead to
places in the working directory.

At a terminal the answers are not known beforehand. The run then takes place with the answers so
far, and as long as it asks a question more than there are answers, the question is shown and the
run takes place again with the next answer. -/

namespace IconForge.CommandLine

/-- The room of the program: what a thousand calls inside of each other leave for its descents. A
record is always written as a whole. -/
def programRoom : Room where
  reading := 989
  writing := fun _ => none
  making := 990
  filing := 992
  searching := 989

/-- Add what is in a directory of the disk to a file system. -/
partial def readDirectory (fs : FileSystem) (names : List String) : IO FileSystem := do
  let mut fs := fs
  for entry in ← (← IO.FS.realPath (String.intercalate "/" ("." :: names))).readDir do
    let names := names ++ [entry.fileName]
    let path := Path.ofParts .workingDirectory (names.map CodeText.ofString)
    if ← entry.path.isDir then
      fs ← readDirectory (fs.makeDirectories names.length path).2 names
    else
      let bytes ← IO.FS.readBinFile entry.path
      match fs.write path bytes.toList with
      | .ok more => fs := more
      | .error _ => pure ()
  return fs

/-- Write what differs from an older file system to the disk. -/
def writeChanges (old new : FileSystem) : IO Unit :=
  for (location, entry) in new.entries do
    if old.get? location ≠ some entry then
      let path := String.intercalate "/" ("." :: location.toNames.map CodeText.shown)
      match entry with
      | .directory => IO.FS.createDirAll path
      | .file bytes => IO.FS.writeBinFile path ⟨bytes.toArray⟩

/-- Run the program at a terminal. `typed` is what was typed so far, in `count` lines. -/
partial def runAtTerminal (argv : List String) (fs : FileSystem) (typed : String) (count : Nat) :
    IO Run := do
  let run := CommandLine.run .standard programRoom argv (some typed) fs
  match run.asked[count]? with
  | none => return run
  | some fileName =>
    let output ← IO.getStdout
    output.putStr (CodeText.shown (question fileName))
    output.flush
    let line ← (← IO.getStdin).getLine
    if line.isEmpty then return run
    else runAtTerminal argv fs (typed ++ line) (count + 1)

/-- An entry of the log as a line. -/
def logLine (entry : Log.Entry) : String :=
  s!"{entry.level.name} {entry.origin.name}: {CodeText.shown entry.text}"

end IconForge.CommandLine

open IconForge in
/-- Run the program in the working directory. -/
def main (argv : List String) : IO UInt32 := do
  let old ← CommandLine.readDirectory .empty []
  let terminal ← (← IO.getStdin).isTty
  let run ←
    if terminal then CommandLine.runAtTerminal argv old "" 0
    else pure (CommandLine.run .standard CommandLine.programRoom argv none old)
  CommandLine.writeChanges old run.files
  if !run.started then IO.print (CodeText.shown run.output)
  IO.eprint run.complaint
  for entry in run.log do
    IO.eprintln (CommandLine.logLine entry)
  return run.exitCode.toUInt32
