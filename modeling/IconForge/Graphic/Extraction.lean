import IconForge.Graphic.Attribute
import IconForge.Graphic.Basic
import IconForge.Graphic.Root
import IconForge.Json.Display
import IconForge.Number.Numeral
import IconForge.Text.Split

set_option autoImplicit false

/-! # Extraction

A graphic is taken from the root of a text. A view box on the root has to be four numbers, or the
text is unusable. Without one, width and height give the size, if both begin with a number;
otherwise the size is a square with the default side. The origin is zero in both cases. -/

namespace IconForge.Graphic

open IconForge.Text

/-- The four numbers of a view box value: origin, width and height, between runs of blanks. A
blank at either end leaves an empty piece, which is no number. -/
def viewBoxOfValue? (value : List Char) : Option ViewBox :=
  match (splitAtRuns isBlank value).map Numeral.leadingNumber? with
  | [some x, some y, some width, some height] =>
    some ⟨.real width, .real height, some (.real x), some (.real y)⟩
  | _ => none

/-- The view box that a root declares: `none` without the attribute. -/
def declaredViewBox? (attributes : List Char) : Option (Except Unusable ViewBox) :=
  (attribute? "viewbox" attributes).map fun value =>
    match viewBoxOfValue? value with
    | some box => .ok box
    | none => .error (.malformedViewBox (String.ofList value))

/-- A rectangle at the origin. -/
def atOrigin (width height : Json) : ViewBox :=
  ⟨width, height, some (.integer 0), some (.integer 0)⟩

/-- The size that a root declares by its width and height. -/
def declaredSize? (attributes : List Char) : Option ViewBox :=
  match attribute? "width" attributes, attribute? "height" attributes with
  | some width, some height =>
    match Numeral.leadingNumber? width, Numeral.leadingNumber? height with
    | some width, some height => some (atOrigin (.real width) (.real height))
    | _, _ => none
  | _, _ => none

/-- The rectangle of a root. -/
def viewBoxOf (defaultSize : Json) (attributes : List Char) : Except Unusable ViewBox :=
  match declaredViewBox? attributes with
  | some box => box
  | none => .ok ((declaredSize? attributes).getD (atOrigin defaultSize defaultSize))

/-- Whether the rectangle of a root is the default square. -/
def usesDefaultSize (attributes : List Char) : Bool :=
  (declaredViewBox? attributes).isNone && (declaredSize? attributes).isNone

/-- The graphic of a root element. -/
def ofRoot (defaultSize : Json) (root : Root) : Except Unusable Graphic :=
  (viewBoxOf defaultSize root.attributes).map fun box =>
    { viewBox := box
      inner := String.ofList (strip root.content)
      namespaces := declarations root.attributes }

/-- The graphic of a text. -/
def extract (defaultSize : Json) (text : String) : Except Unusable Graphic :=
  match root? text.toList with
  | some root => ofRoot defaultSize root
  | none => .error .noRoot

/-- The graphic of a value, which has to be a text. A surrogate that stands alone counts as the
character that shows it. -/
def extractValue (defaultSize value : Json) : Except Unusable Graphic :=
  match value with
  | .text text => extract defaultSize (CodeText.shown text)
  | value => .error (.notText value.kindName)

/-- Whether a value is a text that has a root element. -/
def looksLikeSvgValue (value : Json) : Bool :=
  match value with
  | .text text => looksLikeSvg (CodeText.shown text)
  | _ => false

/-- What is worth noting about the extraction of a graphic: why there is none, or that its size is
the default, if that can be displayed. -/
def remark? (defaultSize : Json) (text : String) : Option CodeText :=
  match extract defaultSize text with
  | .error why => some why.detail
  | .ok _ =>
    if (root? text.toList).any fun root => usesDefaultSize root.attributes then
      defaultSize.display.toOption.map fun size => "No usable size on <svg>, using default " ++ size
    else none

end IconForge.Graphic
