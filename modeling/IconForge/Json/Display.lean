import IconForge.Json.Basic
import IconForge.Json.Fault
import IconForge.Number.Layout
import IconForge.Text.Quoted

set_option autoImplicit false

/-! # Displayed values

How a setting of any kind appears in a component, in a file name or in a message. A text stands
for itself; inside a list or an object it is quoted. An integer that is too long keeps a value from
being displayed. -/

namespace IconForge.Json

open IconForge.Text

mutual

/-- A value inside another one. -/
def inspect : Json → Except TextFault String
  | .null => .ok "None"
  | .boolean value => .ok (if value then "True" else "False")
  | .integer value => if isTooLong value then .error .tooManyDigits else .ok (toString value)
  | .real value => .ok (NumberLayout.record.render value)
  | .text value => .ok (quoted value)
  | .list items => do
    let items ← inspectItems items
    return "[" ++ String.intercalate ", " items ++ "]"
  | .object members => do
    let members ← inspectMembers members
    return "\x7b" ++ String.intercalate ", " members ++ "\x7d"

/-- The items of a list. -/
def inspectItems : List Json → Except TextFault (List String)
  | [] => .ok []
  | item :: items => do
    let item ← inspect item
    let items ← inspectItems items
    return item :: items

/-- The members of an object. -/
def inspectMembers : List (CodeText × Json) → Except TextFault (List String)
  | [] => .ok []
  | (name, value) :: members => do
    let value ← inspect value
    let members ← inspectMembers members
    return (quoted name ++ ": " ++ value) :: members

end

/-- A value on its own. -/
def display (value : Json) : Except TextFault CodeText :=
  match value with
  | .text s => .ok s
  | value => (inspect value).map CodeText.ofString

end IconForge.Json
