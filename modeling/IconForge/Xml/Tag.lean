import IconForge.Xml.Name

set_option autoImplicit false

/-! # Tags

An opening tag has a name and attributes, a closing tag only a name. The value of an attribute is
kept as characters and references, which are looked up later.

The name of a closing tag is only read here and not checked for colons: it has to equal the name
of an opening tag anyway. -/

namespace IconForge.Xml

/-! ## Parts of tags -/

/-- A part of an attribute's value. -/
inductive Piece where
  /-- A character that stands for itself. -/
  | character (c : Char)
  /-- A reference, with the text from its ampersand on. -/
  | reference (reference : Reference) (source : List Char)
deriving DecidableEq, Repr

/-- An attribute of an opening tag. -/
structure Attribute where
  name : Name
  value : List Piece
  /-- The text from the attribute's name on. -/
  source : List Char
deriving DecidableEq, Repr

/-- An opening tag. -/
structure Tag where
  name : Name
  attributes : List Attribute
  /-- Whether the tag closes its element, too. -/
  selfClosing : Bool
deriving DecidableEq, Repr

/-! ## Values -/

/-- Read the value of an attribute up to its closing quote. -/
def readValue (quote : Char) (cs : List Char) : Except Stop (List Piece × List Char) :=
  match cs with
  | [] => .error .unfinished
  | c :: rest =>
    if c = quote then .ok ([], rest)
    else if c = '&' then
      match h : readReference rest with
      | .error stop => .error stop
      | .ok (reference, behind) =>
        have := length_lt_of_readReference h
        match readValue quote behind with
        | .error stop => .error stop
        | .ok (pieces, behind) => .ok (.reference reference cs :: pieces, behind)
    else if c = '<' || !isLegal c then .error (.invalid cs)
    else
      match readValue quote rest with
      | .error stop => .error stop
      | .ok (pieces, behind) => .ok (.character c :: pieces, behind)
termination_by cs.length

/-- Read an attribute: its name, an equals sign with white space around it and the value between
quotes. -/
def readAttribute (cs : List Char) : Except Stop (Attribute × List Char) :=
  match readName cs with
  | .error stop => .error stop
  | .ok (name, rest) =>
    match skipSpace rest with
    | '=' :: rest =>
      match skipSpace rest with
      | quote :: rest =>
        if quote = '"' || quote = '\'' then
          match readValue quote rest with
          | .error stop => .error stop
          | .ok (value, rest) => .ok (⟨name, value, cs⟩, rest)
        else .error (.invalid (quote :: rest))
      | [] => .error .unfinished
    | rest => .error (.before rest)

theorem length_lt_of_readValue {quote : Char} {cs rest : List Char} {pieces : List Piece}
    (h : readValue quote cs = .ok (pieces, rest)) : rest.length < cs.length := by
  fun_induction readValue quote cs generalizing pieces rest with
  | case1 => cases h
  | case2 => cases h; simp
  | case3 => cases h
  | case4 => cases h
  | case5 =>
    rename_i hlt _ _ hvalue _ ih
    cases h
    have := ih hvalue
    simp only [List.length_cons]
    omega
  | case6 => cases h
  | case7 => cases h
  | case8 =>
    rename_i hvalue ih
    cases h
    have := ih hvalue
    simp only [List.length_cons]
    omega

theorem length_lt_of_readAttribute {cs rest : List Char} {item : Attribute}
    (h : readAttribute cs = .ok (item, rest)) : rest.length < cs.length := by
  unfold readAttribute at h
  split at h
  · cases h
  · next afterName h₁ =>
    have h₁ := length_lt_of_readName h₁
    split at h
    · next afterEquals h₂ =>
      have h₂ := h₂ ▸ length_skipSpace_le afterName
      split at h
      · next quote afterQuote h₃ =>
        have h₃ := h₃ ▸ length_skipSpace_le afterEquals
        split at h
        · split at h
          · cases h
          · next h₄ =>
            have h₄ := length_lt_of_readValue h₄
            cases h
            simp only [List.length_cons] at h₂ h₃
            omega
        · cases h
      · cases h
    · cases h

/-! ## Opening and closing tags -/

/-- Read the attributes of an opening tag and its end. The answer tells whether the tag closes its
element. White space has to stand in front of every attribute. -/
def readAttributes (cs : List Char) : Except Stop ((List Attribute × Bool) × List Char) :=
  match cs with
  | [] => .error .unfinished
  | '>' :: rest => .ok (([], false), rest)
  | '/' :: '>' :: rest => .ok (([], true), rest)
  | '/' :: rest => .error (.before rest)
  | c :: rest =>
    if isSpace c then
      match hnext : skipSpace rest with
      | '>' :: rest => .ok (([], false), rest)
      | '/' :: '>' :: rest => .ok (([], true), rest)
      | '/' :: rest => .error (.before rest)
      | next =>
        match h : readAttribute next with
        | .error stop => .error stop
        | .ok (item, behind) =>
          have : behind.length < rest.length + 1 := by
            have h₁ := length_lt_of_readAttribute h
            have h₂ := hnext ▸ length_skipSpace_le rest
            omega
          match readAttributes behind with
          | .error stop => .error stop
          | .ok ((attributes, selfClosing), behind) =>
            .ok ((item :: attributes, selfClosing), behind)
    else .error (.invalid cs)
termination_by cs.length

/-- Read an opening tag behind its bracket. -/
def readTag (cs : List Char) : Except Stop (Tag × List Char) :=
  match readName cs with
  | .error stop => .error stop
  | .ok (name, rest) =>
    match readAttributes rest with
    | .error stop => .error stop
    | .ok ((attributes, selfClosing), rest) => .ok (⟨name, attributes, selfClosing⟩, rest)

/-- Characters of the name in a closing tag. -/
def isClosingNameCharacter (c : Char) : Bool :=
  isNameCharacter c || c = ':'

/-- Read a closing tag behind its bracket and solidus: the name as it is written. -/
def readClosingTag (cs : List Char) : Except Stop (List Char × List Char) :=
  match cs with
  | [] => .error .unfinished
  | c :: _ =>
    if isNameStart c then
      match skipSpace (cs.dropWhile isClosingNameCharacter) with
      | '>' :: rest => .ok (cs.takeWhile isClosingNameCharacter, rest)
      | rest => .error (.before rest)
    else .error (.invalid cs)

end IconForge.Xml
