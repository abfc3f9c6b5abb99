import IconForge.Xml.Position
import IconForge.Xml.Token

set_option autoImplicit false

/-! # Faults of documents

A document that is not well formed is described by its first problem and the place where it was
found. The place is kept as the rest of the document from there on. -/

namespace IconForge.Xml

/-- What a document breaks of the rules. -/
inductive Problem where
  | invalidToken
  | unclosedToken
  | unclosedSection
  | noElement
  | junkAfterRoot
  | mismatchedTag
  | misplacedDeclaration
  | duplicateAttribute
  | undefinedEntity
  | invalidCharacterNumber
  | unboundPrefix
  | undeclaredPrefix
  | reservedPrefixXml
  | reservedPrefixXmlns
  | reservedNamespace
  /-- A namespace name holds the character that separates it from a local name. -/
  | separatorInNamespace
deriving DecidableEq, Repr

/-- The wording of a problem. -/
def Problem.message : Problem → String
  | .invalidToken => "not well-formed (invalid token)"
  | .unclosedToken => "unclosed token"
  | .unclosedSection => "unclosed CDATA section"
  | .noElement => "no element found"
  | .junkAfterRoot => "junk after document element"
  | .mismatchedTag => "mismatched tag"
  | .misplacedDeclaration => "XML or text declaration not at start of entity"
  | .duplicateAttribute => "duplicate attribute"
  | .undefinedEntity => "undefined entity"
  | .invalidCharacterNumber => "reference to invalid character number"
  | .unboundPrefix => "unbound prefix"
  | .undeclaredPrefix => "must not undeclare prefix"
  | .reservedPrefixXml =>
    "reserved prefix (xml) must not be undeclared or bound to another namespace name"
  | .reservedPrefixXmlns => "reserved prefix (xmlns) must not be declared or undeclared"
  | .reservedNamespace => "prefix must not be bound to one of the reserved namespace names"
  | .separatorInNamespace => "syntax error"

/-- A problem and the rest of the document from its place on. -/
structure Fault where
  problem : Problem
  rest : List Char
deriving DecidableEq, Repr

/-- The fault of a reader that stopped in a token which begins with `source`. A token without an
end is a fault at its start, a section without one at the end of the document. -/
def Stop.toFault (source : List Char) : Stop → Fault
  | .invalid rest => ⟨.invalidToken, rest⟩
  | .unfinished => ⟨.unclosedToken, source⟩
  | .unclosedSection => ⟨.unclosedSection, []⟩

/-- The place of a fault in its document. -/
def Fault.position (fault : Fault) (document : List Char) : Position :=
  .ofRest document fault.rest

end IconForge.Xml
