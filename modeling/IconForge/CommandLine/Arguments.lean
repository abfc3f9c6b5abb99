import IconForge.CommandLine.Item

set_option autoImplicit false

/-! # Arguments

The items are taken in order: options change the settings, the first operand is the input, and
what is left over is not recognized. Short flags may be joined, and an option with a value may end
such a cluster.

A value that is the separator itself counts as given but blank. -/

namespace IconForge.CommandLine

/-- The value of an option. -/
inductive OptionValue where
  | absent
  /-- The option was given with the separator for its value. -/
  | blank
  | given (text : String)
deriving DecidableEq, Repr

/-- The value of an option as a text. -/
def OptionValue.text? : OptionValue → Option String
  | .given text => some text
  | _ => none

/-- What the command line says. -/
structure Arguments where
  /-- The file or directory to convert. -/
  input : String
  outputDirectory : OptionValue
  report : OptionValue
  config : OptionValue
  force : Bool
  recursive : Bool
  noCheck : Bool
  verbose : Bool
deriving DecidableEq, Repr

/-- The arguments taken so far. -/
structure Progress where
  input : Option String
  /-- The settings, with a place for the input. -/
  arguments : Arguments
  /-- What was not recognized. -/
  extras : List String
deriving DecidableEq, Repr

namespace Progress

/-- Nothing taken yet. -/
def start : Progress :=
  ⟨none, ⟨"", .absent, .absent, .absent, false, false, false, false⟩, []⟩

/-- Set a flag; help ends the reading. -/
def setFlag (progress : Progress) (switch : Switch) : Except Stop Progress :=
  match switch with
  | .help => .error .help
  | .force => .ok { progress with arguments := { progress.arguments with force := true } }
  | .recursive => .ok { progress with arguments := { progress.arguments with recursive := true } }
  | .noCheck => .ok { progress with arguments := { progress.arguments with noCheck := true } }
  | .verbose => .ok { progress with arguments := { progress.arguments with verbose := true } }
  | _ => .ok progress

/-- Set flags one after the other. -/
def setFlags (progress : Progress) (switches : List Switch) : Except Stop Progress :=
  switches.foldlM setFlag progress

/-- Give an option its value. -/
def setValue (progress : Progress) (switch : Switch) (text : String) : Progress :=
  let value := if text = "--" then .blank else .given text
  match switch with
  | .outputDirectory =>
    { progress with arguments := { progress.arguments with outputDirectory := value } }
  | .report => { progress with arguments := { progress.arguments with report := value } }
  | .config => { progress with arguments := { progress.arguments with config := value } }
  | _ => progress

/-- Leave something over. -/
def leave (progress : Progress) (texts : List String) : Progress :=
  { progress with extras := progress.extras ++ texts }

/-- Take an operand: the first one is the input. -/
def takeOperand (progress : Progress) (text : String) : Progress :=
  match progress.input with
  | none => { progress with input := some text }
  | some _ => progress.leave [text]

end Progress

/-- What an argument with options in it asks for: flags, and then possibly an option with its
value, or one that needs the next argument for it. -/
structure Cluster where
  flags : List Switch
  last : Option (Switch × Option String)
deriving DecidableEq, Repr

/-- Read an option with an attached text. A short flag takes the first character of it for the
next option; nothing else may be attached to a flag. -/
def readCluster (switch : Switch) (short : Bool) (attached : List Char) :
    Except Misuse Cluster :=
  if switch.takesValue then .ok ⟨[], some (switch, some (String.ofList attached))⟩
  else
    match attached with
    | c :: rest =>
      if short then
        match Switch.ofSpelling? ['-', c] with
        | none => .error (.unexpectedValue switch (String.ofList attached))
        | some next =>
          if rest.isEmpty then
            if next.takesValue then .ok ⟨[switch], some (next, none)⟩
            else .ok ⟨[switch, next], none⟩
          else
            (readCluster next true rest).map fun cluster =>
              ⟨switch :: cluster.flags, cluster.last⟩
      else .error (.unexpectedValue switch (String.ofList attached))
    | [] => .error (.unexpectedValue switch "")

/-- The options that an item asks for. -/
def clusterOf (switch : Switch) (short : Bool) (attached : Option (List Char)) :
    Except Misuse Cluster :=
  match attached with
  | some text => readCluster switch short text
  | none => .ok (if switch.takesValue then ⟨[], some (switch, none)⟩ else ⟨[switch], none⟩)

/-- The text of an item behind the separator. -/
def Item.text : Item → String
  | .operand text => text
  | .unknown text => text
  | _ => "--"

/-- Take the items in order. Behind the separator come operands only; the separator itself is left
over unless it stands right in front of the input or right behind it. -/
def takeItems (progress : Progress) (items : List Item) : Except Stop Progress :=
  match items with
  | [] => .ok progress
  | .operand text :: rest =>
    match progress.input, rest with
    | none, .separator :: operands =>
      .ok ((progress.takeOperand text).leave (operands.map Item.text))
    | _, _ => takeItems (progress.takeOperand text) rest
  | .separator :: operands =>
    match progress.input, operands with
    | none, input :: others =>
      .ok ((progress.takeOperand input.text).leave (others.map Item.text))
    | _, _ => .ok (progress.leave ("--" :: operands.map Item.text))
  | .unknown text :: rest => takeItems (progress.leave [text]) rest
  | .option switch short attached :: rest =>
    match clusterOf switch short attached with
    | .error misuse => .error (.misuse misuse)
    | .ok ⟨flags, none⟩ =>
      match progress.setFlags flags with
      | .error stop => .error stop
      | .ok progress => takeItems progress rest
    | .ok ⟨flags, some (switch, some text)⟩ =>
      match progress.setFlags flags with
      | .error stop => .error stop
      | .ok progress => takeItems (progress.setValue switch text) rest
    | .ok ⟨flags, some (switch, none)⟩ =>
      match rest with
      | .operand text :: rest =>
        match progress.setFlags flags with
        | .error stop => .error stop
        | .ok progress => takeItems (progress.setValue switch text) rest
      | _ => .error (.misuse (.missingValue switch))

/-- Read the arguments of the program. -/
def parse (argv : List String) : Except Stop Arguments :=
  match classifyAll argv with
  | .error misuse => .error (.misuse misuse)
  | .ok items =>
    match takeItems .start items with
    | .error stop => .error stop
    | .ok progress =>
      match progress.input with
      | none => .error (.misuse .missingInput)
      | some input =>
        if progress.extras.isEmpty then .ok { progress.arguments with input := input }
        else .error (.misuse (.unrecognized progress.extras))

end IconForge.CommandLine
