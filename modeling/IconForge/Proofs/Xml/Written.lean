import Mathlib
import IconForge.Xml.Document

set_option autoImplicit false

/-! # Markup as it is written

A forest of elements and text, with everything that its text leaves open: how each character is
spelled, which quotes a value stands between and where white space stands. Its text is markup
(`Forest.text`), and what a reader should find in it is its list of elements (`Forest.elements`).

Two conditions are kept apart. A forest is *valid* when every part of it may be written at its
place, which does not depend on what stands around it. It is *namespace-well-formed* in a scope
when its declarations are allowed, the prefixes it uses are bound and its attributes differ. -/

namespace IconForge.Xml

/-! ## Characters -/

/-- A character as it is spelled in text or in the value of an attribute. -/
inductive Spelled where
  /-- The character itself. -/
  | plain (c : Char)
  /-- A reference by the name of an entity. -/
  | named (name : List Char)
  /-- A reference by a number in decimal digits. -/
  | decimal (digits : List Char)
  /-- A reference by a number in hexadecimal digits. -/
  | hexadecimal (digits : List Char)
deriving DecidableEq, Repr

namespace Spelled

/-- The number that digits of a base stand for. -/
def number (base : Nat) (digit? : Char → Option Nat) (digits : List Char) : Nat :=
  digits.foldl (fun n c => n * base + (digit? c).getD 0) 0

/-- The text of a spelled character. -/
def text : Spelled → List Char
  | plain c => [c]
  | named name => '&' :: (name ++ [';'])
  | decimal digits => '&' :: '#' :: (digits ++ [';'])
  | hexadecimal digits => '&' :: '#' :: 'x' :: (digits ++ [';'])

/-- The reference that a character is spelled with. -/
def reference? : Spelled → Option Reference
  | plain _ => none
  | named name => some (.entity name)
  | decimal digits => some (.character (number 10 decimalValue? digits))
  | hexadecimal digits => some (.character (number 16 Text.hexValue? digits))

/-- The character that is spelled. -/
def char : Spelled → Char
  | plain c => c
  | named name => (predefinedEntity? name).getD ' '
  | decimal digits => (characterOfNumber? (number 10 decimalValue? digits)).getD ' '
  | hexadecimal digits => (characterOfNumber? (number 16 Text.hexValue? digits)).getD ' '

/-- A character stands for itself when it is legal and does not begin markup; a reference needs a
predefined entity or the number of a legal character. -/
def Valid : Spelled → Prop
  | plain c => isLegal c ∧ c ≠ '<' ∧ c ≠ '&'
  | named name => (predefinedEntity? name).isSome
  | decimal digits => digits ≠ [] ∧ (∀ d ∈ digits, (decimalValue? d).isSome) ∧
      (characterOfNumber? (number 10 decimalValue? digits)).isSome
  | hexadecimal digits => digits ≠ [] ∧ (∀ d ∈ digits, (Text.hexValue? d).isSome) ∧
      (characterOfNumber? (number 16 Text.hexValue? digits)).isSome

end Spelled

/-- The value that spelled characters give: white space becomes a blank, a carriage return and a
line feed together one blank, unless they are references. -/
def resolved : List Spelled → List Char
  | [] => []
  | .plain '\r' :: .plain '\n' :: rest => ' ' :: resolved rest
  | .plain c :: rest => (if isSpace c then ' ' else c) :: resolved rest
  | spelled :: rest => spelled.char :: resolved rest

/-! ## Names and attributes -/

/-- A name without a colon. -/
def IsSimpleName (cs : List Char) : Prop :=
  ∃ first rest, cs = first :: rest ∧ isNameStart first ∧ ∀ c ∈ rest, isNameCharacter c

/-- A name whose parts are names without a colon. -/
structure Name.Valid (name : Name) : Prop where
  qualifier : ∀ q ∈ name.qualifier, IsSimpleName q
  localPart : IsSimpleName name.localPart

/-- White space of markup. -/
def IsSpaces (cs : List Char) : Prop :=
  ∀ c ∈ cs, isSpace c

/-- An attribute as it is written. -/
structure WrittenAttribute where
  /-- The white space in front of the attribute. -/
  gap : List Char
  name : Name
  /-- The white space in front of the equals sign. -/
  beforeEquals : List Char
  /-- The white space behind the equals sign. -/
  afterEquals : List Char
  quote : Char
  value : List Spelled

namespace WrittenAttribute

/-- The text of an attribute behind the white space in front of it. -/
def body (a : WrittenAttribute) : List Char :=
  a.name.written ++ (a.beforeEquals ++ '=' :: (a.afterEquals ++ a.quote ::
    (a.value.flatMap Spelled.text ++ [a.quote])))

/-- The text of an attribute. -/
def text (a : WrittenAttribute) : List Char :=
  a.gap ++ a.body

/-- The value of an attribute. -/
def content (a : WrittenAttribute) : List Char :=
  resolved a.value

/-- An attribute stands behind white space, and its value between quotes that it does not hold. -/
structure Valid (a : WrittenAttribute) : Prop where
  gap_ne : a.gap ≠ []
  gap : IsSpaces a.gap
  name : a.name.Valid
  beforeEquals : IsSpaces a.beforeEquals
  afterEquals : IsSpaces a.afterEquals
  quote : a.quote = '"' ∨ a.quote = '\''
  value : ∀ s ∈ a.value, s.Valid ∧ s ≠ .plain a.quote

end WrittenAttribute

/-! ## Tags -/

/-- A prefix, or the default namespace, may be declared with a namespace name. -/
structure AllowedDeclaration (qualifier : Option (List Char)) (uri : List Char) : Prop where
  nonempty : qualifier ≠ none → uri ≠ []
  not_xmlns : qualifier ≠ some xmlnsName
  separator : expandedNameSeparator ∉ uri
  xml : qualifier = some xmlPrefix ↔ uri = xmlNamespace
  not_xmlnsNamespace : uri ≠ xmlnsNamespace

/-- An opening tag as it is written, without its brackets. -/
structure WrittenTag where
  name : Name
  attributes : List WrittenAttribute
  /-- The white space at the end. -/
  trailing : List Char

namespace WrittenTag

/-- The text of a tag. -/
def text (tag : WrittenTag) : List Char :=
  tag.name.written ++ (tag.attributes.flatMap WrittenAttribute.text ++ tag.trailing)

structure Valid (tag : WrittenTag) : Prop where
  name : tag.name.Valid
  attributes : ∀ a ∈ tag.attributes, a.Valid
  trailing : IsSpaces tag.trailing

/-- The names of the attributes that declare nothing. -/
def plainNames (tag : WrittenTag) : List Name :=
  (tag.attributes.map (·.name)).filter (·.declared?.isNone)

/-- The element that a tag opens. -/
def element (tag : WrittenTag) : Element where
  name := tag.name.localPart
  attributes := tag.plainNames.map (·.localPart)

end WrittenTag

/-- A scope with the prefixes that attributes declare. -/
def Scope.declaring (scope : Scope) : List WrittenAttribute → Scope
  | [] => scope
  | a :: attributes =>
    match a.name.declared? with
    | some (some q) => Scope.declaring ((q, a.content) :: scope) attributes
    | _ => Scope.declaring scope attributes

/-- The expanded names of those names that have a prefix. -/
def Scope.expandedNames (scope : Scope) (names : List Name) : List (List Char × List Char) :=
  names.filterMap fun name =>
    (name.qualifier.bind scope.lookup?).map fun uri => (uri, name.localPart)

/-- A tag keeps to the rules for namespaces: the names of its attributes differ, also when they are
expanded, it declares what may be declared, and the prefixes it uses are bound inside of it. -/
structure WrittenTag.WellFormed (scope : Scope) (tag : WrittenTag) : Prop where
  names : (tag.attributes.map (·.name)).Nodup
  declarations : ∀ a ∈ tag.attributes, ∀ q ∈ a.name.declared?, AllowedDeclaration q a.content
  bound : ∀ name ∈ tag.plainNames, ∀ q ∈ name.qualifier,
    ((scope.declaring tag.attributes).lookup? q).isSome
  expanded : ((scope.declaring tag.attributes).expandedNames tag.plainNames).Nodup
  nameBound : ∀ q ∈ tag.name.qualifier, ((scope.declaring tag.attributes).lookup? q).isSome

/-! ## Forests -/

/-- Elements and characters one after the other. -/
inductive Forest where
  | empty
  | character (spelled : Spelled) (rest : Forest)
  /-- An element with its content and the white space in its closing tag. -/
  | element (tag : WrittenTag) (content : Forest) (trailing : List Char) (rest : Forest)
  /-- An element whose tag closes it. -/
  | leaf (tag : WrittenTag) (rest : Forest)

namespace Forest

/-- The text of a forest. -/
def text : Forest → List Char
  | empty => []
  | character spelled rest => spelled.text ++ rest.text
  | element tag content trailing rest =>
    '<' :: (tag.text ++ '>' :: (content.text ++
      '<' :: '/' :: (tag.name.written ++ (trailing ++ '>' :: rest.text))))
  | leaf tag rest => '<' :: (tag.text ++ '/' :: '>' :: rest.text)

/-- The elements of a forest in the order of their opening tags. -/
def elements : Forest → List Element
  | empty => []
  | character _ rest => rest.elements
  | element tag content _ rest => tag.element :: (content.elements ++ rest.elements)
  | leaf tag rest => tag.element :: rest.elements

/-- The names of the elements that have a closing tag. -/
def closedNames : Forest → List Name
  | empty => []
  | character _ rest => rest.closedNames
  | element tag content _ rest => tag.name :: (content.closedNames ++ rest.closedNames)
  | leaf _ rest => rest.closedNames

/-- All parts of a forest may be written where they stand. The end of a CDATA section must not
stand in plain text. -/
def Valid : Forest → Prop
  | empty => True
  | character spelled rest =>
    spelled.Valid ∧ ¬ (spelled = .plain ']' ∧ [']', '>'] <+: rest.text) ∧ rest.Valid
  | element tag content trailing rest =>
    tag.Valid ∧ content.Valid ∧ IsSpaces trailing ∧ rest.Valid
  | leaf tag rest => tag.Valid ∧ rest.Valid

/-- All tags of a forest keep to the rules for namespaces in the scopes where they stand. -/
def WellFormed (scope : Scope) : Forest → Prop
  | empty => True
  | character _ rest => rest.WellFormed scope
  | element tag content _ rest =>
    tag.WellFormed scope ∧ content.WellFormed (scope.declaring tag.attributes) ∧
      rest.WellFormed scope
  | leaf tag rest => tag.WellFormed scope ∧ rest.WellFormed scope

end Forest

end IconForge.Xml
