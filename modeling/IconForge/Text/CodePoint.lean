set_option autoImplicit false

/-! # Code points

A text that spells its characters by number can name half of a surrogate pair without the other
half, and a name on the disk can hold bytes that are no character. Neither fits into a string. A
code text is a list of code points, each of which is a character or half of a surrogate pair that
stands alone; every string is a code text. -/

namespace IconForge

/-- Half of a surrogate pair. -/
structure Surrogate where
  toNat : Nat
  inRange : 0xd800 ≤ toNat ∧ toNat < 0xe000
deriving DecidableEq, Repr

/-- A character, or half of a surrogate pair that stands alone. -/
inductive CodePoint where
  | char (c : Char)
  | surrogate (half : Surrogate)
deriving DecidableEq, Repr

instance : Coe Char CodePoint := ⟨.char⟩

namespace CodePoint

/-- The number of a code point. -/
def toNat : CodePoint → Nat
  | .char c => c.toNat
  | .surrogate half => half.toNat

/-- The character of a code point, if it is one. -/
def char? : CodePoint → Option Char
  | .char c => some c
  | .surrogate _ => none

/-- Whether a code point is a given character. -/
def isChar (c : Char) (point : CodePoint) : Bool :=
  decide (point = .char c)

/-- Whether a code point is half of a surrogate pair. -/
def isSurrogate : CodePoint → Bool
  | .char _ => false
  | .surrogate _ => true

/-- The character that shows a code point; half of a pair is shown by the replacement
character. -/
def shown : CodePoint → Char
  | .char c => c
  | .surrogate _ => '\ufffd'

end CodePoint

/-- A text of code points. -/
abbrev CodeText := List CodePoint

namespace CodeText

/-- The code points of characters. -/
def ofChars (cs : List Char) : CodeText :=
  cs.map .char

/-- The code points of a string. -/
def ofString (s : String) : CodeText :=
  ofChars s.toList

instance : Coe String CodeText := ⟨ofString⟩

/-- The characters of a text without surrogates. -/
def chars? (text : CodeText) : Option (List Char) :=
  text.mapM CodePoint.char?

/-- A text as far as a string can show it. -/
def shown (text : CodeText) : String :=
  String.ofList (text.map CodePoint.shown)

/-- Whether a text stands in front of another one or is the same, compared by the numbers of their
code points. -/
def le : CodeText → CodeText → Bool
  | [], _ => true
  | _ :: _, [] => false
  | a :: text, b :: other => if a = b then le text other else decide (a.toNat ≤ b.toNat)

/-! ## Strings among code texts -/

theorem shown_ofString (s : String) : shown (ofString s) = s := by
  have h : ∀ cs : List Char, (cs.map CodePoint.char).map CodePoint.shown = cs := by
    intro cs
    induction cs with
    | nil => rfl
    | cons c cs ih => simp only [List.map_cons, ih, CodePoint.shown]
  simp [shown, ofString, ofChars, h]

end CodeText

end IconForge
