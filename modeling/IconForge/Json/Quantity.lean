import IconForge.Json.Basic
import IconForge.Number.Numeral
import IconForge.Text.Quoted

set_option autoImplicit false

/-! # Values as numbers

A setting that is used as a number may be an integer, a binary64 number, a boolean (zero or one)
or a text that holds a numeral. Every other value is a fault, and so is an integer that is too
large. -/

namespace IconForge.Json

open IconForge.Text

/-- Why a value is no number. -/
inductive NumberFault where
  /-- The text is no numeral. -/
  | notNumeral (text : CodeText)
  /-- The integer is too large. -/
  | tooLarge
  /-- Values of this kind are never numbers. -/
  | wrongKind (kind : String)
deriving DecidableEq, Repr

/-- The wording of a fault. -/
def NumberFault.message : NumberFault → String
  | .notNumeral s => "could not convert string to float: " ++ quoted s
  | .tooLarge => "int too large to convert to float"
  | .wrongKind kind => s!"float() argument must be a string or a real number, not '{kind}'"

/-- A number when there is one, and otherwise a fault. -/
def orFault (fault : NumberFault) : Option Binary64 → Except NumberFault Binary64
  | some x => .ok x
  | none => .error fault

/-- The number that a value stands for. -/
def toBinary64 (value : Json) : Except NumberFault Binary64 :=
  match value with
  | .boolean b => .ok (if b then .one else .zero)
  | .integer i => orFault .tooLarge (Binary64.ofInt? i)
  | .real x => .ok x
  | .text s => orFault (.notNumeral s) ((CodeText.chars? s).bind Numeral.number?)
  | value => .error (.wrongKind value.kindName)

/-- Whether a count is greater than a limit; `none` when the limit is no number. A text is not
read as a number here. -/
def exceededBy? (limit : Json) (count : Nat) : Option Bool :=
  match limit with
  | .boolean b => some (decide ((if b then 1 else 0) < count))
  | .integer i => some (decide (i < count))
  | .real x => some (x.ltNat count)
  | _ => none

end IconForge.Json
