import IconForge.KeyedList
import IconForge.Text.Quoted

set_option autoImplicit false

/-! # Options

The options that the program knows with their spellings, and what may be wrong with the arguments
that it is called with. -/

namespace IconForge.CommandLine

/-- The options of the program. -/
inductive Switch where
  | help
  | outputDirectory
  | force
  | recursive
  | report
  | config
  | noCheck
  | verbose
deriving DecidableEq, Repr

namespace Switch

/-- All options, in the order in which they are listed. -/
def all : List Switch :=
  [.help, .outputDirectory, .force, .recursive, .report, .config, .noCheck, .verbose]

/-- The spellings of an option. -/
def spellings : Switch → List String
  | .help => ["-h", "--help"]
  | .outputDirectory => ["--output-dir", "-o"]
  | .force => ["--force", "-f"]
  | .recursive => ["--recursive", "-r"]
  | .report => ["--report"]
  | .config => ["--config", "-c"]
  | .noCheck => ["--no-check"]
  | .verbose => ["--verbose", "-v"]

/-- Whether an option has a value. -/
def takesValue : Switch → Bool
  | .outputDirectory => true
  | .report => true
  | .config => true
  | _ => false

/-- The name of an option in messages. -/
def title (switch : Switch) : String :=
  String.intercalate "/" switch.spellings

/-- All spellings with their options. -/
def table : List (List Char × Switch) :=
  all.flatMap fun switch => switch.spellings.map fun spelling => (spelling.toList, switch)

/-- The option with a spelling. -/
def ofSpelling? (spelling : List Char) : Option Switch :=
  KeyedList.get? table spelling

end Switch

/-! ## Misuse -/

/-- What is wrong with the arguments. -/
inductive Misuse where
  /-- Several options begin with what the argument says. -/
  | ambiguous (argument : String) (candidates : List String)
  | missingValue (switch : Switch)
  | unexpectedValue (switch : Switch) (value : String)
  | missingInput
  | unrecognized (arguments : List String)
deriving DecidableEq, Repr

/-- The wording of a misuse. -/
def Misuse.message : Misuse → String
  | .ambiguous argument candidates =>
    s!"ambiguous option: {argument} could match " ++ String.intercalate ", " candidates
  | .missingValue switch => s!"argument {switch.title}: expected one argument"
  | .unexpectedValue switch value =>
    s!"argument {switch.title}: ignored explicit argument {Text.quoted value}"
  | .missingInput => "the following arguments are required: input"
  | .unrecognized arguments => "unrecognized arguments: " ++ String.intercalate " " arguments

/-- Why no arguments result. -/
inductive Stop where
  /-- The help text was asked for. -/
  | help
  | misuse (misuse : Misuse)
deriving DecidableEq, Repr

end IconForge.CommandLine
