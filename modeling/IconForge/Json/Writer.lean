import IconForge.Json.Basic
import IconForge.Json.Fault
import IconForge.Number.Layout
import IconForge.Text.Hexadecimal

set_option autoImplicit false

/-! # Writing JSON

Values are written in ASCII, one item or member a line, two blanks deeper for each level, with
the members of an object in the order of their names. So the text of an object does not depend on
the order in which its members were given. -/

namespace IconForge.Json

open IconForge.Text

/-! ## Strings -/

/-- The choices of a string format. -/
structure StringStyle where
  /-- Whether a solidus has a backslash in front. -/
  escapesSolidus : Bool
  /-- Whether the delete character is written by its number. -/
  escapesDelete : Bool

/-- A code unit by its number. -/
def writeUnit (n : Nat) : List Char :=
  '\\' :: 'u' :: hexDigits 4 n

/-- A character by the numbers of its code units: one, or a surrogate pair. -/
def writeUnits (c : Char) : List Char :=
  let n := c.toNat
  if n < 0x10000 then writeUnit n
  else writeUnit (0xd800 + (n - 0x10000) / 0x400) ++ writeUnit (0xdc00 + (n - 0x10000) % 0x400)

/-- A character inside a string. -/
def writeCharacter (style : StringStyle) (c : Char) : List Char :=
  match c with
  | '"' => ['\\', '"']
  | '\\' => ['\\', '\\']
  | '\n' => ['\\', 'n']
  | '\r' => ['\\', 'r']
  | '\t' => ['\\', 't']
  | '\x08' => ['\\', 'b']
  | '\x0c' => ['\\', 'f']
  | '/' => if style.escapesSolidus then ['\\', '/'] else ['/']
  | '\x7f' => if style.escapesDelete then writeUnits c else [c]
  | c => if c < ' ' || '\x7f' < c then writeUnits c else [c]

/-- A code point inside a string. -/
def writePoint (style : StringStyle) : CodePoint → List Char
  | .char c => writeCharacter style c
  | .surrogate half => writeUnit half.toNat

/-- A string between quotes. -/
def writeString (style : StringStyle) (text : CodeText) : String :=
  String.ofList ('"' :: text.flatMap (writePoint style) ++ ['"'])

/-- Strings in settings and run records. -/
def StringStyle.record : StringStyle where
  escapesSolidus := false
  escapesDelete := true

/-! ## Values -/

/-- A number in settings and run records. -/
def writeReal (x : Binary64) : String :=
  match x with
  | .infinite negative => if negative then "-Infinity" else "Infinity"
  | .notANumber => "NaN"
  | x => NumberLayout.record.render x

/-- A new line at a level of depth. -/
def newLine (depth : Nat) : String :=
  String.ofList ('\n' :: List.replicate (2 * depth) ' ')

/-- Parts one a line between brackets, or the brackets alone. -/
def writeBlock (depth : Nat) (opening closing : String) (parts : List String) : String :=
  match parts with
  | [] => opening ++ closing
  | parts =>
    opening ++ newLine (depth + 1) ++ String.intercalate ("," ++ newLine (depth + 1)) parts ++
      newLine depth ++ closing

mutual

/-- The text of a value at a level of depth. -/
def writeAt (depth : Nat) : Json → String
  | .null => "null"
  | .boolean value => if value then "true" else "false"
  | .integer value => toString value
  | .real value => writeReal value
  | .text value => writeString .record value
  | .list items => writeBlock depth "[" "]" (writeItems (depth + 1) items)
  | .object members =>
    let written := writeMembers (depth + 1) members
    let sorted := written.mergeSort fun a b => CodeText.le a.1 b.1
    writeBlock depth "\x7b" "\x7d" (sorted.map fun (name, value) =>
      writeString .record name ++ ": " ++ value)

/-- The texts of the items of a list. -/
def writeItems (depth : Nat) : List Json → List String
  | [] => []
  | item :: items => writeAt depth item :: writeItems depth items

/-- The texts of the members of an object, with their names. -/
def writeMembers (depth : Nat) : List (CodeText × Json) → List (CodeText × String)
  | [] => []
  | (name, value) :: members => (name, writeAt depth value) :: writeMembers depth members

end

/-- The text of a value. -/
def write (value : Json) : String :=
  writeAt 0 value

/-! ## Writing that breaks off

A value is written piece by piece, and an integer that is too long is met at its place. In a list
an integer is one piece with the comma or the bracket in front of it, so these are missing too. -/

/-- Where the first of some parts stops, one behind the other, by their lengths and where each of
them stops itself. -/
def firstStop? : List (Nat × Option Nat) → Option Nat
  | [] => none
  | (_, some stop) :: _ => some stop
  | (length, none) :: parts => (firstStop? parts).map (length + ·)

/-- Where an item with something in front of it stops, if it stops itself behind some characters. -/
def stopOfItem (lead stop : Nat) : Json → Nat
  | .integer _ => 0
  | _ => lead + stop

mutual

/-- Behind how many characters the text of a value at a level of depth stops because of an integer
that is too long. -/
def stopAt? (depth : Nat) : Json → Option Nat
  | .integer value => if isTooLong value then some 0 else none
  | .list items => firstStop? (itemStops (depth + 1) items)
  | .object members =>
    let sorted := (memberStops (depth + 1) members).mergeSort fun a b => CodeText.le a.1 b.1
    firstStop? (sorted.map (·.2))
  | _ => none

/-- The lengths of items with what is in front of them, and where they stop. -/
def itemStops (depth : Nat) : List Json → List (Nat × Option Nat)
  | [] => []
  | item :: items =>
    let lead := (newLine depth).length + 1
    (lead + (writeAt depth item).length,
      (stopAt? depth item).map fun stop => stopOfItem lead stop item) :: itemStops depth items

/-- The lengths of members with what is in front of them, and where they stop, by their names. -/
def memberStops (depth : Nat) : List (CodeText × Json) → List (CodeText × Nat × Option Nat)
  | [] => []
  | (name, value) :: members =>
    let lead := (newLine depth).length + (writeString .record name).length + 3
    (name, lead + (writeAt depth value).length, (stopAt? depth value).map (lead + ·)) ::
      memberStops depth members

end

/-- As much of the text of a value as is written, and what keeps the rest from being written: an
integer, or the room, which gives out behind a number of characters if it does. -/
def writeWithin (room : String → Option Nat) (value : Json) : String × Option TextFault :=
  let text := write value
  let broken (count : Nat) (fault : TextFault) : String × Option TextFault :=
    (String.ofList (text.toList.take count), some fault)
  match stopAt? 0 value, room text with
  | none, none => (text, none)
  | some stop, none => broken stop .tooManyDigits
  | none, some count => broken count .tooDeep
  | some stop, some count =>
    if stop < count then broken stop .tooManyDigits else broken count .tooDeep

end IconForge.Json
