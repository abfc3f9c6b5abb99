import IconForge.KeyedList
import IconForge.Xml.Fault

set_option autoImplicit false

/-! # Namespaces

An opening tag is checked attribute by attribute: the names as they are written have to differ,
the references in the values have to be known, and the declarations of prefixes have to keep to
the rules for the two reserved prefixes and namespace names. Then every prefix that the tag uses
has to be bound, and no two attributes may have the same local name in the same namespace. A
default namespace is checked but otherwise plays no part, since prefixed names alone are looked
up. -/

namespace IconForge.Xml

/-! ## Prefixes in scope -/

/-- The prefixes in scope with their namespace names, the innermost first. -/
abbrev Scope := List (List Char × List Char)

/-- The namespace name that a prefix is bound to. -/
def Scope.lookup? (scope : Scope) (qualifier : List Char) : Option (List Char) :=
  KeyedList.get? scope qualifier

/-- The namespace name of the prefix `xml`. -/
def xmlNamespace : List Char :=
  "http://www.w3.org/XML/1998/namespace".toList

/-- The namespace name of declarations. -/
def xmlnsNamespace : List Char :=
  "http://www.w3.org/2000/xmlns/".toList

/-- The prefix of prefix declarations, and the name of a default declaration. -/
def xmlnsName : List Char :=
  ['x', 'm', 'l', 'n', 's']

/-- The one prefix that needs no declaration. -/
def xmlPrefix : List Char :=
  ['x', 'm', 'l']

/-- The scope outside of the root. -/
def Scope.initial : Scope :=
  [(xmlPrefix, xmlNamespace)]

/-- The character between a namespace name and a local name in an expanded name. -/
def expandedNameSeparator : Char :=
  '\x7d'

/-- Declare a prefix, or the default namespace. -/
def Scope.declare (scope : Scope) (qualifier : Option (List Char)) (uri : List Char) :
    Except Problem Scope :=
  if uri.isEmpty && qualifier.isSome then .error .undeclaredPrefix
  else if qualifier = some xmlnsName then .error .reservedPrefixXmlns
  else if uri.contains expandedNameSeparator then .error .separatorInNamespace
  else if qualifier = some xmlPrefix && uri ≠ xmlNamespace then .error .reservedPrefixXml
  else if qualifier ≠ some xmlPrefix && uri = xmlNamespace then .error .reservedNamespace
  else if uri = xmlnsNamespace then .error .reservedNamespace
  else
    match qualifier with
    | some q => .ok ((q, uri) :: scope)
    | none => .ok scope

/-! ## Values of attributes -/

/-- The entities that need no declaration. -/
def predefinedEntity? (name : List Char) : Option Char :=
  match name with
  | ['l', 't'] => some '<'
  | ['g', 't'] => some '>'
  | ['a', 'm', 'p'] => some '&'
  | ['q', 'u', 'o', 't'] => some '"'
  | ['a', 'p', 'o', 's'] => some '\''
  | _ => none

/-- The character that a reference stands for. -/
def Reference.character? : Reference → Except Problem Char
  | .character number =>
    match characterOfNumber? number with
    | some c => .ok c
    | none => .error .invalidCharacterNumber
  | .entity name =>
    match predefinedEntity? name with
    | some c => .ok c
    | none => .error .undefinedEntity

/-- The value of an attribute: white space becomes a blank, a carriage return and a line feed
together one blank, and references become their characters. In a tag that begins with `source`, an
unknown entity is a fault of the tag and a bad number one of its reference. -/
def resolveValue (source : List Char) : List Piece → Except Fault (List Char)
  | [] => .ok []
  | .character '\r' :: .character '\n' :: pieces =>
    (resolveValue source pieces).map (' ' :: ·)
  | .character c :: pieces =>
    (resolveValue source pieces).map ((if isSpace c then ' ' else c) :: ·)
  | .reference reference place :: pieces =>
    match reference.character? with
    | .ok c => (resolveValue source pieces).map (c :: ·)
    | .error .invalidCharacterNumber => .error ⟨.invalidCharacterNumber, place⟩
    | .error problem => .error ⟨problem, source⟩

/-! ## Tags -/

/-- The prefix that an attribute declares: `none` when it declares nothing, `some none` when it
declares the default namespace. -/
def Name.declared? (name : Name) : Option (Option (List Char)) :=
  match name.qualifier with
  | none => if name.localPart = xmlnsName then some none else none
  | some q => if q = xmlnsName then some (some name.localPart) else none

/-- Check the attributes of a tag one after the other, with the names seen so far. The answer is
the scope inside of the element. -/
def checkAttributes (source : List Char) (seen : List Name) (scope : Scope) :
    List Attribute → Except Fault Scope
  | [] => .ok scope
  | item :: items =>
    if seen.contains item.name then .error ⟨.duplicateAttribute, item.source⟩
    else
      match resolveValue source item.value with
      | .error fault => .error fault
      | .ok value =>
        match item.name.declared? with
        | none => checkAttributes source (item.name :: seen) scope items
        | some qualifier =>
          match scope.declare qualifier value with
          | .error problem => .error ⟨problem, source⟩
          | .ok scope => checkAttributes source (item.name :: seen) scope items

/-- Check that the prefixes of attributes are bound and that no two expanded names are equal. The
names are those of the attributes that declare nothing. -/
def checkPrefixes (scope : Scope) (seen : List (List Char × List Char)) :
    List Name → Except Problem Unit
  | [] => .ok ()
  | name :: names =>
    match name.qualifier with
    | none => checkPrefixes scope seen names
    | some q =>
      match scope.lookup? q with
      | none => .error .unboundPrefix
      | some uri =>
        if seen.contains (uri, name.localPart) then .error .duplicateAttribute
        else checkPrefixes scope ((uri, name.localPart) :: seen) names

/-- An element of a document without its content. -/
structure Element where
  /-- The name without its prefix. -/
  name : List Char
  /-- The names of the attributes that declare nothing, without their prefixes, in order. -/
  attributes : List (List Char)
deriving DecidableEq, Repr

/-- The names of a tag's attributes that declare nothing. -/
def Tag.plainNames (tag : Tag) : List Name :=
  (tag.attributes.map (·.name)).filter (·.declared?.isNone)

/-- The element that a tag opens. -/
def Tag.element (tag : Tag) : Element where
  name := tag.name.localPart
  attributes := tag.plainNames.map (·.localPart)

/-- Check a tag that begins with `source`. The answer is the scope inside of its element. -/
def Tag.check (tag : Tag) (source : List Char) (scope : Scope) : Except Fault Scope :=
  match checkAttributes source [] scope tag.attributes with
  | .error fault => .error fault
  | .ok scope =>
    match checkPrefixes scope [] tag.plainNames with
    | .error problem => .error ⟨problem, source⟩
    | .ok () =>
      match tag.name.qualifier with
      | none => .ok scope
      | some q => if (scope.lookup? q).isSome then .ok scope else .error ⟨.unboundPrefix, source⟩

end IconForge.Xml
