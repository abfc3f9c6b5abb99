import IconForge.Text.Blank
import IconForge.Text.LetterCase

set_option autoImplicit false

/-! # The root element

The root of a document is found in the plain text, so that a document which is not quite well
formed still gives a graphic. The first opener decides: `<svg` in any case with a blank, a solidus
or a closing bracket behind it. Its tag ends at the next `>`, and its content at the next closing
tag, whatever stands in between. When either is missing there is no root, since a later opener
has nothing behind it that the first one has not. -/

namespace IconForge.Graphic

open IconForge.Text

/-- The root element of a document. -/
structure Root where
  /-- The text between the name and the end of the opening tag. -/
  attributes : List Char
  /-- The text between the opening and the closing tag. -/
  content : List Char
deriving DecidableEq, Repr

/-- The rest of a text behind the name of an opening root tag at its front. -/
def opener? (cs : List Char) : Option (List Char) :=
  match dropFolded? ['<', 's', 'v', 'g'] cs with
  | some (c :: rest) => if isBlank c || c = '/' || c = '>' then some (c :: rest) else none
  | _ => none

/-- Whether a closing root tag stands at the front of a text. -/
def isCloser (cs : List Char) : Bool :=
  match dropFolded? ['<', '/', 's', 'v', 'g'] cs with
  | some rest => (rest.dropWhile isBlank).head? = some '>'
  | none => false

/-- The rest of a text behind the name of its first opening root tag. -/
def findOpener? : List Char → Option (List Char)
  | [] => none
  | c :: rest =>
    match opener? (c :: rest) with
    | some behind => some behind
    | none => findOpener? rest

/-- The rest of a text from its first closing root tag on. -/
def findCloser? : List Char → Option (List Char)
  | [] => none
  | c :: rest => if isCloser (c :: rest) then some (c :: rest) else findCloser? rest

/-- The root element of a text. -/
def root? (cs : List Char) : Option Root :=
  match findOpener? cs with
  | none => none
  | some behind =>
    match behind.dropWhile (· ≠ '>') with
    | [] => none
    | _ :: body =>
      (findCloser? body).map fun closer =>
        { attributes := behind.takeWhile (· ≠ '>')
          content := body.take (body.length - closer.length) }

/-- Whether a text has a root element at all. -/
def looksLikeSvg (text : String) : Bool :=
  (root? text.toList).isSome

end IconForge.Graphic
