import IconForge.Text.CodePoint
import IconForge.Text.Hexadecimal
import IconForge.Text.Printable

set_option autoImplicit false

/-! # Quoted texts

The form in which a message shows a text so that all of it can be seen: between quotes, with a
backslash in front of the quote and of the backslash itself, with short escapes for line feed,
carriage return and tabulator and with the number of every other code point that cannot be
printed. Single quotes are used unless the text holds a single quote and no double quote. -/

namespace IconForge.Text

/-- The quote that a text is shown in. -/
def quoteMark (text : CodeText) : Char :=
  if text.contains (.char '\'') && !text.contains (.char '"') then '"' else '\''

/-- A character as a quoted text shows it. -/
def quoteCharacter (mark c : Char) : List Char :=
  if c = mark || c = '\\' then ['\\', c]
  else if c = '\n' then ['\\', 'n']
  else if c = '\r' then ['\\', 'r']
  else if c = '\t' then ['\\', 't']
  else if isPrintable c then [c]
  else if c.toNat < 0x100 then '\\' :: 'x' :: hexDigits 2 c.toNat
  else if c.toNat < 0x10000 then '\\' :: 'u' :: hexDigits 4 c.toNat
  else '\\' :: 'U' :: hexDigits 8 c.toNat

/-- A code point as a quoted text shows it. -/
def quotePoint (mark : Char) : CodePoint → List Char
  | .char c => quoteCharacter mark c
  | .surrogate half => '\\' :: 'u' :: hexDigits 4 half.toNat

/-- A text between quotes, with escapes. -/
def quoted (text : CodeText) : String :=
  let mark := quoteMark text
  String.ofList (mark :: text.flatMap (quotePoint mark) ++ [mark])

end IconForge.Text
