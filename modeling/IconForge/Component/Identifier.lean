import IconForge.Text.LetterCase
import IconForge.Text.Split

set_option autoImplicit false

/-! # Identifiers

A component is named after the base name of its icon. The base name is cut into words at hyphens,
low lines, full stops and blanks; each word begins with a capital letter and goes on in small
ones; the words are joined and only the letters and digits of ASCII are kept. -/

namespace IconForge.Component

open IconForge.Text

/-- The characters between the words of a base name. -/
def isSeparator (c : Char) : Bool :=
  c = '-' || c = '_' || c = '.' || c = ' '

/-- A word with its first character in capital and the others in small form. -/
def capitalize : List Char → List Char
  | [] => []
  | first :: rest => capitalForm first ++ rest.flatMap smallForm

/-- The identifier of a base name, character by character. -/
def identifierCharacters (name : List Char) : List Char :=
  (splitAtRuns isSeparator name).flatMap capitalize

/-- The identifier of a base name. -/
def identifier (name : String) : String :=
  String.ofList (identifierCharacters name.toList)

end IconForge.Component
