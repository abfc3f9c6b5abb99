import IconForge.KeyedList
import IconForge.Number.Binary64
import IconForge.Text.CodePoint

set_option autoImplicit false

/-! # JSON values

The values of settings, of run records and of report cells. Integers are exact and kept apart
from binary64 numbers: `1` and `1.0` are different values. An object keeps its members in the
order in which their names first appeared. Texts and names may hold surrogates that stand alone. -/

namespace IconForge

/-- A JSON value. -/
inductive Json where
  | null
  | boolean (value : Bool)
  | integer (value : Int)
  | real (value : Binary64)
  | text (value : CodeText)
  | list (items : List Json)
  | object (members : List (CodeText × Json))

namespace Json

instance : Inhabited Json := ⟨.null⟩

/-! ## What a value counts as -/

/-- The name of a value's kind in messages. -/
def kindName : Json → String
  | .null => "NoneType"
  | .boolean _ => "bool"
  | .integer _ => "int"
  | .real _ => "float"
  | .text _ => "str"
  | .list _ => "list"
  | .object _ => "dict"

/-- A value counts as true unless it is null, false, zero or empty. -/
def isTruthy : Json → Bool
  | .null => false
  | .boolean value => value
  | .integer value => decide (value ≠ 0)
  | .real (.finite _ m) => decide (m.significand ≠ 0)
  | .real _ => true
  | .text value => !value.isEmpty
  | .list items => !items.isEmpty
  | .object members => !members.isEmpty

end Json

end IconForge
