import IconForge.Text.Hexadecimal
import IconForge.Xml.Character
import IconForge.Xml.NameTable

set_option autoImplicit false

/-! # Names and references

The smallest parts that markup is made of. A reader takes one part off the front of a text. It
stops at the first character that cannot go on with the part, or when the text ends inside it.

Names may have one colon with a name on both sides of it. -/

namespace IconForge.Xml

/-! ## Stops -/

/-- Why no token could be read. -/
inductive Stop where
  /-- The text cannot go on as it does from here. -/
  | invalid (rest : List Char)
  /-- The text ends inside the token. -/
  | unfinished
  /-- The text ends inside a CDATA section. -/
  | unclosedSection
deriving DecidableEq, Repr

/-- Stop at the front of a text: at its first character, or at its end. -/
def Stop.before : List Char → Stop
  | [] => .unfinished
  | c :: rest => .invalid (c :: rest)

/-! ## Names and references -/

/-- A name with an optional prefix. -/
structure Name where
  /-- The part in front of the colon. -/
  qualifier : Option (List Char)
  /-- The part behind the colon, or the whole name. -/
  localPart : List Char
deriving DecidableEq, Repr

namespace Name

/-- A name as it is written. -/
def written (name : Name) : List Char :=
  match name.qualifier with
  | some q => q ++ ':' :: name.localPart
  | none => name.localPart

end Name

/-- Read a name without a colon. -/
def readSimpleName (cs : List Char) : Except Stop (List Char × List Char) :=
  match cs with
  | c :: _ =>
    if isNameStart c then .ok (cs.takeWhile isNameCharacter, cs.dropWhile isNameCharacter)
    else .error (.invalid cs)
  | [] => .error .unfinished

/-- Read a name with an optional prefix. -/
def readName (cs : List Char) : Except Stop (Name × List Char) :=
  match readSimpleName cs with
  | .error stop => .error stop
  | .ok (first, ':' :: rest) =>
    match readSimpleName rest with
    | .error stop => .error stop
    | .ok (second, rest) => .ok (⟨some first, second⟩, rest)
  | .ok (first, rest) => .ok (⟨none, first⟩, rest)

/-- A reference in content or in the value of an attribute. -/
inductive Reference where
  /-- A character by its number. -/
  | character (number : Nat)
  /-- An entity by its name. -/
  | entity (name : List Char)
deriving DecidableEq, Repr

/-- Digits of a base and the semicolon behind them; the digits are given by their values. -/
def readNumber (base : Nat) (digit? : Char → Option Nat) (cs : List Char) :
    Except Stop (Reference × List Char) :=
  let isDigit := fun c => (digit? c).isSome
  let value := (cs.takeWhile isDigit).foldl (fun n c => n * base + (digit? c).getD 0) 0
  match cs.dropWhile isDigit with
  | ';' :: rest =>
    if (cs.takeWhile isDigit).isEmpty then .error (.invalid (';' :: rest))
    else .ok (.character value, rest)
  | rest => .error (.before rest)

/-- The value of a decimal digit of ASCII. -/
def decimalValue? (c : Char) : Option Nat :=
  if c.isDigit then some (c.toNat - '0'.toNat) else none

/-- Read a reference behind its ampersand. -/
def readReference (cs : List Char) : Except Stop (Reference × List Char) :=
  match cs with
  | '#' :: 'x' :: rest => readNumber 16 Text.hexValue? rest
  | '#' :: rest => readNumber 10 decimalValue? rest
  | cs =>
    match readSimpleName cs with
    | .error stop => .error stop
    | .ok (name, ';' :: rest) => .ok (.entity name, rest)
    | .ok (_, rest) => .error (.before rest)

/-! ## Lengths of what is left -/

theorem length_dropWhile_le (p : Char → Bool) (cs : List Char) :
    (cs.dropWhile p).length ≤ cs.length :=
  (List.dropWhile_suffix p).length_le

theorem length_dropWhile_lt {p : Char → Bool} {c : Char} {cs : List Char} (h : p c) :
    ((c :: cs).dropWhile p).length < (c :: cs).length := by
  rw [List.dropWhile_cons_of_pos h]
  exact Nat.lt_succ_of_le (length_dropWhile_le p cs)

theorem length_skipSpace_le (cs : List Char) : (skipSpace cs).length ≤ cs.length :=
  length_dropWhile_le isSpace cs

theorem isNameCharacter_of_isNameStart {c : Char} (h : isNameStart c) : isNameCharacter c := by
  simp [isNameCharacter, h]

theorem length_lt_of_readSimpleName {cs name rest : List Char}
    (h : readSimpleName cs = .ok (name, rest)) : rest.length < cs.length := by
  unfold readSimpleName at h
  split at h
  · split at h
    · next hc =>
      cases h
      exact length_dropWhile_lt (isNameCharacter_of_isNameStart hc)
    · cases h
  · cases h

theorem length_lt_of_readName {cs rest : List Char} {name : Name}
    (h : readName cs = .ok (name, rest)) : rest.length < cs.length := by
  unfold readName at h
  split at h
  · cases h
  · next h₁ =>
    have := length_lt_of_readSimpleName h₁
    split at h
    · cases h
    · next h₂ =>
      have := length_lt_of_readSimpleName h₂
      cases h
      simp only [List.length_cons] at *
      omega
  · next h₁ =>
    have := length_lt_of_readSimpleName h₁
    cases h
    omega

theorem length_lt_of_readNumber {base : Nat} {digit? : Char → Option Nat} {cs rest : List Char}
    {reference : Reference} (h : readNumber base digit? cs = .ok (reference, rest)) :
    rest.length < cs.length := by
  unfold readNumber at h
  simp only at h
  split at h
  · next h₁ =>
    have := h₁ ▸ length_dropWhile_le (fun c => (digit? c).isSome) cs
    split at h
    · cases h
    · cases h
      simp only [List.length_cons] at this
      omega
  · cases h

theorem length_lt_of_readReference {cs rest : List Char} {reference : Reference}
    (h : readReference cs = .ok (reference, rest)) : rest.length < cs.length := by
  unfold readReference at h
  split at h
  · have := length_lt_of_readNumber h
    simp only [List.length_cons]
    omega
  · have := length_lt_of_readNumber h
    simp only [List.length_cons]
    omega
  · split at h
    · cases h
    · next h₁ =>
      have := length_lt_of_readSimpleName h₁
      cases h
      simp only [List.length_cons] at this
      omega
    · cases h

end IconForge.Xml
