import IconForge.Text.CodePoint

set_option autoImplicit false

/-! # Log

What a run reports while it works. An entry has a level, the part of the program that it comes
from and a text. Entries for debugging are only shown on demand. -/

namespace IconForge.Log

/-- How much an entry matters. -/
inductive Level where
  | debug
  | info
  | warning
  | error
deriving DecidableEq, Repr

/-- The name of a level. -/
def Level.name : Level → String
  | .debug => "DEBUG"
  | .info => "INFO"
  | .warning => "WARNING"
  | .error => "ERROR"

/-- The part of the program that an entry comes from. -/
inductive Origin where
  | commandLine
  | settings
  | conversion
  | extraction
  | generation
  | storage
deriving DecidableEq, Repr

/-- The name of an origin. -/
def Origin.name : Origin → String
  | .commandLine => "command line"
  | .settings => "settings"
  | .conversion => "conversion"
  | .extraction => "extraction"
  | .generation => "generation"
  | .storage => "storage"

/-- An entry of the log. -/
structure Entry where
  level : Level
  origin : Origin
  text : CodeText
deriving DecidableEq, Repr

/-- The entries that are shown. -/
def shown (verbose : Bool) (entries : List Entry) : List Entry :=
  entries.filter fun entry => verbose || entry.level ≠ .debug

end IconForge.Log
