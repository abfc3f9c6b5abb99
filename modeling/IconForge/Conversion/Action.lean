import IconForge.Conversion.Fault
import IconForge.Conversion.Log

set_option autoImplicit false

/-! # Actions

An action works on a workspace: it may read and change the files, write to the log and ask
whether a file may be replaced. It ends with a result or with a fault, and what it has done to the
workspace until then stays. -/

namespace IconForge

/-- The answers to the questions of a run. -/
structure Answers where
  /-- The next answers; true allows a file to be replaced. -/
  next : List Bool
  /-- The answer to all further questions; without one there is none to be had. -/
  further : Option Bool
deriving DecidableEq, Repr

/-- What actions work on. -/
structure Workspace where
  files : FileSystem
  answers : Answers := ⟨[], none⟩
  /-- The files that were asked about, in order. -/
  asked : List CodeText := []
  /-- The log, in order. -/
  log : List Log.Entry := []

/-- A step of a run. -/
abbrev Action := ExceptT Fault (StateM Workspace)

namespace Action

/-- Do an action in a workspace: its result and the workspace behind it. -/
def perform {α : Type} (action : Action α) (workspace : Workspace) : Except Fault α × Workspace :=
  (ExceptT.run action).run workspace

/-- Write an entry to the log. -/
def note (level : Log.Level) (origin : Log.Origin) (text : CodeText) : Action Unit :=
  modify fun workspace => { workspace with log := workspace.log ++ [⟨level, origin, text⟩] }

/-- The files as they are. -/
def files : Action FileSystem :=
  return (← get).files

/-- Replace the files. -/
def setFiles (fs : FileSystem) : Action Unit :=
  modify fun workspace => { workspace with files := fs }

/-- Go on with a value, or end with the fault that stands in its place. -/
def lift {ε α : Type} (fault : ε → Fault) (value : Except ε α) : Action α :=
  match value with
  | .ok a => return a
  | .error e => throw (fault e)

/-- Write an entry about the fault that an action ends with, if it does. -/
def reporting {α : Type} (origin : Log.Origin) (introduction : CodeText) (action : Action α) :
    Action α :=
  tryCatch action fun fault => do
    note .error origin (introduction ++ ": " ++ fault.message)
    throw fault

/-- Ask whether a file may be replaced. -/
def ask (fileName : CodeText) : Action Bool := do
  modify fun workspace => { workspace with asked := workspace.asked ++ [fileName] }
  let workspace ← get
  match workspace.answers.next with
  | answer :: next =>
    set { workspace with answers := { workspace.answers with next := next } }
    return answer
  | [] =>
    match workspace.answers.further with
    | some answer => return answer
    | none => throw .noAnswer

end Action

end IconForge
