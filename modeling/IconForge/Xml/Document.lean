import IconForge.Xml.Epilog
import IconForge.Xml.Namespace
import IconForge.Xml.Progress

set_option autoImplicit false

/-! # Documents

A document is read from the opening tag of its root to its end. The elements that are open are
kept with the prefixes in scope inside of them; when the root is closed the rest has to be empty
but for comments and the like. The answer is either the list of all elements in the order of
their opening tags or the first fault. -/

namespace IconForge.Xml

/-- An element that is open. -/
structure Frame where
  /-- The name of its tag, as it is written. -/
  name : List Char
  /-- The prefixes in scope inside of it. -/
  scope : Scope
deriving DecidableEq, Repr

/-- How far a document has been read. -/
structure State where
  /-- The open elements, the innermost first. -/
  frames : List Frame
  /-- The elements so far, the last one first. -/
  elements : List Element
deriving DecidableEq, Repr

namespace State

/-- The state in front of the root. -/
def initial : State :=
  ⟨[], []⟩

/-- The prefixes in scope. -/
def scope (state : State) : Scope :=
  match state.frames with
  | frame :: _ => frame.scope
  | [] => .initial

/-- The state inside or behind an element that is opened. -/
def enter (state : State) (tag : Tag) (source : List Char) : Except Fault State :=
  match tag.check source state.scope with
  | .error fault => .error fault
  | .ok scope =>
    let elements := tag.element :: state.elements
    if tag.selfClosing then .ok ⟨state.frames, elements⟩
    else .ok ⟨⟨tag.name.written, scope⟩ :: state.frames, elements⟩

/-- The state behind a closing tag that begins with `source`. The fault of a wrong tag lies at its
name. -/
def leave (state : State) (name source : List Char) : Except Fault State :=
  match state.frames with
  | frame :: outer =>
    if frame.name = name then .ok ⟨outer, state.elements⟩
    else .error ⟨.mismatchedTag, source.drop 2⟩
  | [] => .error ⟨.mismatchedTag, source.drop 2⟩

/-- The state behind a token that begins with `source`. -/
def take (state : State) (source : List Char) : Token → Except Fault State
  | .character _ => .ok state
  | .reference reference =>
    match reference.character? with
    | .ok _ => .ok state
    | .error problem => .error ⟨problem, source⟩
  | .opening tag => state.enter tag source
  | .closing name => state.leave name source
  | .comment => .ok state
  | .instruction => .ok state
  | .declaration => .error ⟨.misplacedDeclaration, source⟩
  | .section => .ok state

end State

/-- Read what follows the root. -/
def readEpilog (elements : List Element) (cs : List Char) : Except Fault (List Element) :=
  match epilogFault? (cs.length + 1) cs with
  | some fault => .error fault
  | none => .ok elements

/-- Read on inside of the root: all elements in the order of their opening tags. -/
def readContent (state : State) (cs : List Char) : Except Fault (List Element) :=
  match cs with
  | [] => .error ⟨.noElement, []⟩
  | c :: rest =>
    match h : readToken (c :: rest) with
    | .error stop => .error (stop.toFault (c :: rest))
    | .ok (token, behind) =>
      have : behind.length < rest.length + 1 := length_lt_of_readToken h
      match state.take (c :: rest) token with
      | .error fault => .error fault
      | .ok state =>
        if state.frames.isEmpty then readEpilog state.elements.reverse behind
        else readContent state behind
termination_by cs.length

/-- The elements of a document that begins with the opening tag of its root. -/
def readDocument (cs : List Char) : Except Fault (List Element) :=
  match readToken cs with
  | .error stop => .error (stop.toFault cs)
  | .ok (.opening _, _) => readContent .initial cs
  | .ok _ => .error ⟨.invalidToken, cs⟩

end IconForge.Xml
