import IconForge.Xml.Fault

set_option autoImplicit false

/-! # After the root

Behind the root of a document only white space, comments and processing instructions may stand.
What else stands there is read as a token of the kind that declarations are made of: if such a
token can be read it is junk, otherwise the fault lies where its reading stops. -/

namespace IconForge.Xml

/-- Characters of ASCII that a declaration's keyword is made of. -/
def isKeywordCharacter (c : Char) : Bool :=
  c = '_' || c.isAlpha

/-- Read the keyword of a declaration. -/
def readKeyword : List Char → Except Stop Unit
  | [] => .error .unfinished
  | '%' :: [] => .error .unfinished
  | '%' :: next :: rest =>
    if isSpace next || next = '%' then .error (.invalid ('%' :: next :: rest)) else .ok ()
  | c :: rest =>
    if isSpace c then .ok ()
    else if isKeywordCharacter c then readKeyword rest
    else .error (.invalid (c :: rest))

/-- Read a literal up to its closing quote and look at what follows it. -/
def readLiteral (quote : Char) : List Char → Except Stop Unit
  | [] => .error .unfinished
  | c :: rest =>
    if !isLegal c then .error (.invalid (c :: rest))
    else if c = quote then
      match rest with
      | [] => .ok ()
      | next :: _ =>
        if isSpace next || next = '>' || next = '%' || next = '[' then .ok ()
        else .error (.invalid rest)
    else readLiteral quote rest

/-- Read a reference to a parameter entity behind its per cent sign, which may also stand alone. -/
def readParameterReference (cs : List Char) : Except Stop Unit :=
  match cs with
  | [] => .error .unfinished
  | c :: _ =>
    if isSpace c || c = '%' then .ok ()
    else
      match readSimpleName cs with
      | .error stop => .error stop
      | .ok (_, ';' :: _) => .ok ()
      | .ok (_, rest) => .error (.before rest)

/-- Read a reserved name behind its number sign. -/
def readReservedName (cs : List Char) : Except Stop Unit :=
  match readSimpleName cs with
  | .error stop => .error stop
  | .ok (_, []) => .ok ()
  | .ok (_, c :: rest) =>
    if isSpace c || c = ')' || c = '>' || c = '%' || c = '|' then .ok ()
    else .error (.invalid (c :: rest))

/-- What kind of name token the characters so far make. -/
inductive NameKind where
  | plain
  | qualified
  /-- A token that is no name. -/
  | token
deriving DecidableEq, Repr

/-- Read on in a name token. An occurrence sign may only follow a name. -/
def readNameToken : NameKind → List Char → Except Stop Unit
  | _, [] => .ok ()
  | .plain, ':' :: [] => .error .unfinished
  | .plain, ':' :: next :: rest =>
    if isNameCharacter next then readNameToken .qualified rest
    else readNameToken .token (next :: rest)
  | _, ':' :: rest => readNameToken .token rest
  | kind, c :: rest =>
    if isNameCharacter c then readNameToken kind rest
    else if isSpace c || c = '>' || c = ')' || c = ',' || c = '|' || c = '[' || c = '%' then .ok ()
    else if (c = '+' || c = '*' || c = '?') && kind ≠ .token then .ok ()
    else .error (.invalid (c :: rest))

/-- Read a token behind the root. -/
def readEpilogToken (cs : List Char) : Except Stop Unit :=
  match cs with
  | [] => .error .unfinished
  | '<' :: [] => .error .unfinished
  | '<' :: '!' :: [] => .error .unfinished
  | '<' :: '!' :: '[' :: _ => .ok ()
  | '<' :: '!' :: c :: rest =>
    if isKeywordCharacter c then readKeyword rest else .error (.invalid (c :: rest))
  | '<' :: c :: rest =>
    if isKeywordCharacter c || '\x7f' < c then .ok () else .error (.invalid (c :: rest))
  | ']' :: ']' :: [] => .error .unfinished
  | ')' :: next :: rest =>
    if isSpace next || next = '>' || next = ',' || next = '|' || next = ')' || next = '*' ||
      next = '+' || next = '?' then .ok ()
    else .error (.invalid (next :: rest))
  | '%' :: rest => readParameterReference rest
  | '#' :: rest => readReservedName rest
  | c :: rest =>
    if c = '"' || c = '\'' then readLiteral c rest
    else if c = ',' || c = '[' || c = ']' || c = '(' || c = ')' || c = '|' || c = '>' then .ok ()
    else if isNameStart c then readNameToken .plain rest
    else if isNameCharacter c || c = ':' then readNameToken .token rest
    else .error (.invalid cs)

/-- Skip a comment or a processing instruction; `none` when neither stands at the front. An XML
declaration is junk here. -/
def skipMiscellaneous? (cs : List Char) : Option (Except Fault (List Char)) :=
  match cs with
  | '<' :: '?' :: rest =>
    match readInstruction rest with
    | .error stop => some (.error (stop.toFault cs))
    | .ok (true, _) => some (.error ⟨.junkAfterRoot, cs⟩)
    | .ok (false, rest) => some (.ok rest)
  | '<' :: '!' :: '-' :: '-' :: rest =>
    match readComment rest with
    | .error stop => some (.error (stop.toFault cs))
    | .ok rest => some (.ok rest)
  | '<' :: '!' :: '-' :: rest => some (.error ((Stop.before rest).toFault cs))
  | _ => none

/-- The first fault behind the root, if there is one. At most `fuel` comments, instructions and
white space characters are skipped. -/
def epilogFault? : Nat → List Char → Option Fault
  | 0, _ => none
  | fuel + 1, cs =>
    match cs with
    | [] => none
    | c :: rest =>
      if isSpace c then epilogFault? fuel rest
      else
        match skipMiscellaneous? cs with
        | some (.ok rest) => epilogFault? fuel rest
        | some (.error fault) => some fault
        | none =>
          match readEpilogToken cs with
          | .ok () => some ⟨.junkAfterRoot, cs⟩
          | .error stop => some (stop.toFault cs)

end IconForge.Xml
