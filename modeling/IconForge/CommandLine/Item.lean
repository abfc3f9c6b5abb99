import IconForge.CommandLine.Switch
import IconForge.Text.DecimalDigit

set_option autoImplicit false

/-! # Items

Each argument is first classified on its own: an option with or without an attached value, an
unknown option, or an operand; everything behind the separator `--` is an operand. A long option
may be shortened as long as only one option begins so. Negative numbers and texts with a blank are
operands even with a hyphen in front. -/

namespace IconForge.CommandLine

/-- An argument by its kind. -/
inductive Item where
  | operand (text : String)
  | separator
  /-- An option in a short or a long spelling, with the value attached to it. -/
  | option (switch : Switch) (short : Bool) (attached : Option (List Char))
  | unknown (text : String)
deriving DecidableEq, Repr

/-- Split a text at its first equals sign. -/
def splitAtEquals? (cs : List Char) : Option (List Char × List Char) :=
  match cs.dropWhile (· ≠ '=') with
  | _ :: value => some (cs.takeWhile (· ≠ '='), value)
  | [] => none

/-- The long spellings that begin with what an argument says, with their options and the value
attached behind an equals sign. -/
def longCandidates (cs : List Char) : List (List Char × Item) :=
  let (stem, attached) :=
    match splitAtEquals? cs with
    | some (stem, value) => (stem, some value)
    | none => (cs, none)
  (Switch.table.filter fun entry => stem.isPrefixOf entry.1).map fun (spelling, switch) =>
    (spelling, .option switch false attached)

/-- The short spelling that an argument begins with, with its option and the value right behind
it. -/
def shortCandidates (cs : List Char) : List (List Char × Item) :=
  (Switch.table.filter fun entry => entry.1 = cs.take 2).map fun (spelling, switch) =>
    (spelling, .option switch true (some (cs.drop 2)))

/-- Whether an argument is a negative number: digits, or a fraction with digits behind the point,
and at most a line feed behind them. -/
def isNegativeNumber (cs : List Char) : Bool :=
  match cs with
  | '-' :: rest =>
    let whole := rest.takeWhile Text.isDecimalDigit
    let atEnd (cs : List Char) := cs = [] || cs = ['\n']
    match rest.dropWhile Text.isDecimalDigit with
    | '.' :: behind =>
      !(behind.takeWhile Text.isDecimalDigit).isEmpty &&
        atEnd (behind.dropWhile Text.isDecimalDigit)
    | behind => !whole.isEmpty && atEnd behind
  | _ => false

/-- Whether a spelling is a short one. -/
def isShort (spelling : List Char) : Bool :=
  !(['-', '-'].isPrefixOf spelling)

/-- The option that an argument spells out, alone or with a value behind an equals sign. -/
def exactOption? (cs : List Char) : Option Item :=
  match Switch.ofSpelling? cs with
  | some switch => some (.option switch (isShort cs) none)
  | none =>
    match splitAtEquals? cs with
    | none => none
    | some (spelling, value) =>
      (Switch.ofSpelling? spelling).map fun switch =>
        .option switch (isShort spelling) (some value)

/-- Classify an argument in front of the separator. -/
def classify (argument : String) : Except Misuse Item :=
  let cs := argument.toList
  match cs with
  | '-' :: _ :: _ =>
    match exactOption? cs with
    | some item => .ok item
    | none =>
      match if isShort cs then shortCandidates cs else longCandidates cs with
      | [(_, item)] => .ok item
      | [] =>
        if isNegativeNumber cs || cs.contains ' ' then .ok (.operand argument)
        else .ok (.unknown argument)
      | several => .error (.ambiguous argument (several.map fun entry => String.ofList entry.1))
  | _ => .ok (.operand argument)

/-- Classify all arguments. -/
def classifyAll : List String → Except Misuse (List Item)
  | [] => .ok []
  | "--" :: rest => .ok (.separator :: rest.map .operand)
  | argument :: rest =>
    match classify argument with
    | .error misuse => .error misuse
    | .ok item =>
      match classifyAll rest with
      | .error misuse => .error misuse
      | .ok items => .ok (item :: items)

end IconForge.CommandLine
