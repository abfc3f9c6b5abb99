import IconForge.Text.CodePoint
import IconForge.Text.Quoted
import IconForge.Text.Utf8

set_option autoImplicit false

/-! # Bytes of code texts

A code text has bytes in UTF-8 when it holds no surrogate. The names of files are encoded more
generously: a surrogate from `U+DC80` to `U+DCFF` stands for the byte at the end of its number, so
that every sequence of bytes is the name of some code text (`nameOfBytes`).

A text that has no bytes is described by its first run of surrogates. -/

namespace IconForge.Text.Encoding

/-! ## Faults -/

/-- What a text is encoded for. -/
inductive Use where
  | content
  | name
deriving DecidableEq, Repr

/-- The byte that a surrogate stands for in a name. -/
def escapedByte? (half : Surrogate) : Option UInt8 :=
  if 0xdc80 ≤ half.toNat ∧ half.toNat < 0xdd00 then some (half.toNat - 0xdc00).toUInt8 else none

/-- Whether a surrogate has a byte. -/
def Use.allows : Use → Surrogate → Bool
  | .content, _ => false
  | .name, half => (escapedByte? half).isSome

/-- The first place where a text has no bytes. -/
structure Fault where
  /-- How many code points stand in front of it. -/
  position : Nat
  /-- The surrogate there. -/
  first : Surrogate
  /-- How many surrogates follow each other from there on. -/
  length : Nat
deriving DecidableEq, Repr

/-- The wording of a fault: one surrogate is shown, several are counted. -/
def Fault.message (fault : Fault) : String :=
  let place :=
    if fault.length = 1 then
      "character " ++ quoted [.surrogate fault.first] ++ s!" in position {fault.position}"
    else
      s!"characters in position {fault.position}-{fault.position + fault.length - 1}"
  s!"'utf-8' codec can't encode {place}: surrogates not allowed"

/-- The first fault of a text behind a number of code points. -/
def faultFrom? (use : Use) (position : Nat) : CodeText → Option Fault
  | [] => none
  | .char _ :: rest => faultFrom? use (position + 1) rest
  | .surrogate half :: rest =>
    if use.allows half then faultFrom? use (position + 1) rest
    else some ⟨position, half, (rest.takeWhile CodePoint.isSurrogate).length + 1⟩

/-! ## Encoding -/

/-- The bytes of a code point. -/
def pointBytes : CodePoint → List UInt8
  | .char c => String.utf8EncodeChar c
  | .surrogate half => (escapedByte? half).toList

/-- The bytes of a text. -/
def encode (use : Use) (text : CodeText) : Except Fault (List UInt8) :=
  match faultFrom? use 0 text with
  | some fault => .error fault
  | none => .ok (text.flatMap pointBytes)

/-- The bytes of the chunks of a text in front of the first one that has none, and what is wrong
with that. -/
def encodeChunks : List CodeText → List UInt8 × Option Fault
  | [] => ([], none)
  | chunk :: chunks =>
    match encode .content chunk with
    | .error fault => ([], some fault)
    | .ok bytes =>
      let (more, fault) := encodeChunks chunks
      (bytes ++ more, fault)

/-! ## Names -/

/-- The surrogate that stands for a byte. -/
def escapeByte (b : UInt8) : CodePoint :=
  .surrogate ⟨0xdc00 + b.toNat, by have := b.toNat_lt; omega⟩

/-- The character at the front of bytes, with how many bytes it has. -/
def frontCharacter? (bytes : List UInt8) : Option (Char × Nat) :=
  [1, 2, 3, 4].findSome? fun count =>
    match Utf8.decode (bytes.take count) with
    | .ok [c] => some (c, count)
    | _ => none

/-- The name with given bytes. -/
def nameOfBytes : List UInt8 → CodeText
  | [] => []
  | b :: rest =>
    match frontCharacter? (b :: rest) with
    | some (c, count) => .char c :: nameOfBytes (rest.drop (count - 1))
    | none => escapeByte b :: nameOfBytes rest
termination_by bytes => bytes.length
decreasing_by
  · simp only [List.length_drop, List.length_cons]; omega
  · simp only [List.length_cons]; omega

/-- How many bytes of a broken character at the front of bytes fit. -/
def brokenLength (bytes : List UInt8) : Nat :=
  match Utf8.decode bytes with
  | .error fault => fault.length
  | .ok _ => 0

/-- The characters of bytes, with the replacement character for every broken one. -/
def shownBytes : List UInt8 → List Char
  | [] => []
  | b :: rest =>
    match frontCharacter? (b :: rest) with
    | some (c, count) => c :: shownBytes (rest.drop (count - 1))
    | none => '\ufffd' :: shownBytes (rest.drop (brokenLength (b :: rest) - 1))
termination_by bytes => bytes.length
decreasing_by all_goals simp only [List.length_drop, List.length_cons]; omega

/-- The one spelling that names with the same bytes share. -/
def spellName (name : CodeText) : CodeText :=
  if name.any CodePoint.isSurrogate then nameOfBytes (name.flatMap pointBytes) else name

end IconForge.Text.Encoding
