import IconForge.Xml.Tag

set_option autoImplicit false

/-! # Tokens

The content of a document is read token by token: characters, references, tags, comments,
processing instructions and CDATA sections. -/

namespace IconForge.Xml

/-! ## Comments, instructions and sections -/

/-- Read a comment behind its opening: the rest behind its end. Two hyphens end it and have to
be followed by a bracket. -/
def readComment : List Char → Except Stop (List Char)
  | [] => .error .unfinished
  | '-' :: '-' :: '>' :: rest => .ok rest
  | '-' :: '-' :: rest => .error (.before rest)
  | c :: rest => if isLegal c then readComment rest else .error (.invalid (c :: rest))

/-- Read the text of a processing instruction: the rest behind its end. -/
def readInstructionText : List Char → Except Stop (List Char)
  | [] => .error .unfinished
  | '?' :: '>' :: rest => .ok rest
  | c :: rest => if isLegal c then readInstructionText rest else .error (.invalid (c :: rest))

/-- What the target of a processing instruction stands for. -/
inductive Target where
  | ordinary
  /-- The target of an XML declaration. -/
  | declaration
  /-- A target that differs from it in case only and is not allowed. -/
  | reserved
deriving DecidableEq, Repr

/-- The meaning of a target. -/
def Target.of (name : List Char) : Target :=
  if name = ['x', 'm', 'l'] then .declaration
  else if name.map Char.toLower = ['x', 'm', 'l'] then .reserved
  else .ordinary

/-- Read a processing instruction behind its opening. The answer tells whether it is an XML
declaration. -/
def readInstruction (cs : List Char) : Except Stop (Bool × List Char) :=
  match readSimpleName cs with
  | .error stop => .error stop
  | .ok (_, []) => .error .unfinished
  | .ok (name, c :: rest) =>
    if isSpace c || c = '?' then
      match Target.of name with
      | .reserved => .error (.invalid (c :: rest))
      | target =>
        let isDeclaration := decide (target = .declaration)
        if c = '?' then
          match rest with
          | '>' :: rest => .ok (isDeclaration, rest)
          | rest => .error (.before rest)
        else
          match readInstructionText rest with
          | .error stop => .error stop
          | .ok rest => .ok (isDeclaration, rest)
    else .error (.invalid (c :: rest))

/-- Read a fixed word: the rest behind it. -/
def readWord : List Char → List Char → Except Stop (List Char)
  | [], cs => .ok cs
  | _ :: _, [] => .error .unfinished
  | w :: word, c :: cs => if w = c then readWord word cs else .error (.invalid (c :: cs))

/-- Read the text of a CDATA section: the rest behind its end. -/
def readSection : List Char → Except Stop (List Char)
  | [] => .error .unclosedSection
  | ']' :: ']' :: '>' :: rest => .ok rest
  | c :: rest => if isLegal c then readSection rest else .error (.invalid (c :: rest))

/-! ## Tokens -/

/-- A part of a document's content. -/
inductive Token where
  /-- A character that stands for itself. -/
  | character (c : Char)
  | reference (reference : Reference)
  | opening (tag : Tag)
  /-- A closing tag, with its name as it is written. -/
  | closing (name : List Char)
  | comment
  | instruction
  /-- An XML declaration. -/
  | declaration
  /-- A CDATA section. -/
  | section
deriving DecidableEq, Repr

/-- Read a token behind an opening bracket. -/
def readMarkup (cs : List Char) : Except Stop (Token × List Char) :=
  match cs with
  | '!' :: '-' :: '-' :: rest => (readComment rest).map fun rest => (.comment, rest)
  | '!' :: '-' :: rest => .error (.before rest)
  | '!' :: '[' :: rest =>
    match readWord ['C', 'D', 'A', 'T', 'A', '['] rest with
    | .error stop => .error stop
    | .ok rest => (readSection rest).map fun rest => (.section, rest)
  | '!' :: rest => .error (.before rest)
  | '?' :: rest =>
    (readInstruction rest).map fun (isDeclaration, rest) =>
      (if isDeclaration then .declaration else .instruction, rest)
  | '/' :: rest => (readClosingTag rest).map fun (name, rest) => (.closing name, rest)
  | cs => (readTag cs).map fun (tag, rest) => (.opening tag, rest)

/-- Read a token off the front of a text that is not empty. The end of a CDATA section must not
stand in plain text. -/
def readToken (cs : List Char) : Except Stop (Token × List Char) :=
  match cs with
  | [] => .error .unfinished
  | '<' :: rest => readMarkup rest
  | '&' :: rest => (readReference rest).map fun (reference, rest) => (.reference reference, rest)
  | ']' :: ']' :: '>' :: rest => .error (.invalid ('>' :: rest))
  | c :: rest => if isLegal c then .ok (.character c, rest) else .error (.invalid cs)

end IconForge.Xml
