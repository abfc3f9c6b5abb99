import IconForge.Json.Display
import IconForge.Json.Quantity
import IconForge.Xml.Document

set_option autoImplicit false

/-! # Checking inner markup

Before markup is put into a component it is checked. It must not be larger than a limit, it has
to be well formed inside of a wrapper element that binds the prefixes declared on the root, and
neither script elements nor event handlers may occur in it. The answer is the first offence, where
elements are visited in the order of their opening tags, each before its attributes. -/

namespace IconForge.Markup

/-! ## Offences -/

/-- What speaks against putting markup into a component. -/
inductive Offence where
  /-- The markup has more bytes than the limit allows, which is displayed. -/
  | tooLarge (size : Nat) (limit : String)
  /-- The markup is not well formed in its wrapper. -/
  | malformed (problem : Xml.Problem) (position : Xml.Position)
  | scriptElement
  /-- An attribute that handles events, on an element. -/
  | eventHandler (attributeName elementName : String)

/-- The wording of an offence. -/
def Offence.message : Offence → String
  | .tooLarge size limit =>
    s!"Markup exceeds allowed size: {size} bytes (max: {limit})"
  | .malformed problem position =>
    s!"Invalid XML: {problem.message}: line {position.line}, column {position.column}"
  | .scriptElement => "Script elements cannot be embedded in a component"
  | .eventHandler attributeName elementName =>
    s!"Event handler attribute not allowed: {attributeName} on element {elementName}"

/-! ## The wrapper -/

/-- The name of the wrapper element. -/
def wrapperName : String :=
  "fragment"

/-- The default namespace inside of the wrapper. -/
def svgNamespace : String :=
  "http://www.w3.org/2000/svg"

/-- The namespace of links, whose prefix is always declared. -/
def xlinkNamespace : String :=
  "http://www.w3.org/1999/xlink"

/-- The declarations of the wrapper: that of links, then those of the root. Of two declarations
of one prefix the last counts, at the place of the first. -/
def wrapperDeclarations (namespaces : List (String × String)) : List (String × String) :=
  KeyedList.setAll [("xlink", xlinkNamespace)] namespaces

/-- The opening tag of the wrapper. -/
def wrapperStart (namespaces : List (String × String)) : String :=
  let declarations := (wrapperDeclarations namespaces).map fun (name, uri) =>
    " xmlns:" ++ name ++ "=\"" ++ uri ++ "\""
  "<" ++ wrapperName ++ " xmlns=\"" ++ svgNamespace ++ "\"" ++ String.join declarations ++ ">"

/-- The closing tag of the wrapper. -/
def wrapperEnd : String :=
  "</" ++ wrapperName ++ ">"

/-- Markup in its wrapper. -/
def wrap (namespaces : List (String × String)) (content : String) : String :=
  wrapperStart namespaces ++ content ++ wrapperEnd

/-! ## Visiting elements -/

/-- A name in small letters. Only ASCII letters are made small, which is enough for what names are
compared with: outside ASCII, no character but the dotted capital I and the Kelvin sign has an ASCII
letter in its small form, and neither `script` nor `on` holds an `i` with a dot behind it or a `k`. -/
def small (name : List Char) : List Char :=
  name.map Char.toLower

/-- Whether an element holds a script. -/
def isScript (element : Xml.Element) : Bool :=
  small element.name = ['s', 'c', 'r', 'i', 'p', 't']

/-- Whether an attribute handles events. -/
def isEventHandler (name : List Char) : Bool :=
  ['o', 'n'].isPrefixOf (small name)

/-- The first offence of an element. -/
def elementOffence? (element : Xml.Element) : Option Offence :=
  if isScript element then some .scriptElement
  else
    (element.attributes.find? isEventHandler).map fun name =>
      .eventHandler (String.ofList name) (String.ofList element.name)

/-! ## The check -/

/-- The first offence in the structure of markup. Empty markup has none. -/
def structureOffence? (namespaces : List (String × String)) (content : String) : Option Offence :=
  if content.isEmpty then none
  else
    let document := (wrap namespaces content).toList
    match Xml.readDocument document with
    | .error fault => some (.malformed fault.problem (fault.position document))
    | .ok elements => elements.findSome? elementOffence?

/-- Why a limit gives no answer. -/
inductive LimitFault where
  /-- A limit of this kind is no number and so cannot be compared with a size. -/
  | noNumber (kind : String)
  /-- The limit is exceeded, but cannot be displayed. -/
  | hidden (fault : Json.TextFault)
deriving DecidableEq, Repr

/-- The wording of a fault. -/
def LimitFault.message : LimitFault → String
  | .noNumber kind => s!"'>' not supported between instances of 'int' and '{kind}'"
  | .hidden fault => fault.message

/-- The offence of markup that is larger than a limit. -/
def sizeOffence (size : Nat) (limit : Json) : Except LimitFault (Option Offence) :=
  match limit.inspect with
  | .error fault => .error (.hidden fault)
  | .ok limit => .ok (some (.tooLarge size limit))

/-- Markup that is too large has that for its offence, if the limit can be displayed. -/
theorem sizeOffence_eq_ok {size : Nat} {limit : Json} {answer : Option Offence}
    (h : sizeOffence size limit = .ok answer) :
    ∃ shown, limit.inspect = .ok shown ∧ answer = some (.tooLarge size shown) := by
  rw [sizeOffence] at h
  split at h
  · cases h
  · next shown hshown => exact ⟨shown, hshown, (Except.ok.inj h).symm⟩

/-- The first offence of markup. Its size is looked at first, also when it is empty. -/
def offence? (limit : Json) (namespaces : List (String × String)) (content : String) :
    Except LimitFault (Option Offence) :=
  let size := content.utf8ByteSize
  match limit.exceededBy? size with
  | none => .error (.noNumber limit.kindName)
  | some true => sizeOffence size limit
  | some false => .ok (structureOffence? namespaces content)

end IconForge.Markup
