import IconForge.Json.Quantity
import IconForge.Number.Layout
import IconForge.Text.Quoted

set_option autoImplicit false

/-! # Graphics

What is taken from an SVG document: the rectangle it is drawn in, the markup between its root
tags and the prefixes that its root declares. A text from which no graphic can be taken is
unusable for one of a few reasons. -/

namespace IconForge

/-- The rectangle of a graphic. Its numbers are settings or were read from the document; they
become numbers for good when the rectangle is written. -/
structure ViewBox where
  width : Json
  height : Json
  x : Option Json
  y : Option Json

/-- What a document is drawn from. -/
structure Graphic where
  viewBox : ViewBox
  /-- The markup between the root tags, without the blanks around it. -/
  inner : String
  /-- The prefixes declared on the root with their namespace names, in order. -/
  namespaces : List (String × String)

/-- Why a text gives no graphic. -/
inductive Unusable where
  /-- The text has no root element. -/
  | noRoot
  /-- The root has a view box with this value, which is not four numbers. -/
  | malformedViewBox (value : String)
  /-- What was given is no text but a value of this kind. -/
  | notText (kind : String)
deriving DecidableEq, Repr

namespace Unusable

/-- The class of a reason. -/
def reason : Unusable → String
  | .noRoot => "no_svg_root"
  | .malformedViewBox _ => "malformed_viewbox"
  | .notText _ => "no_svg_root"

/-- The wording of a reason. -/
def detail : Unusable → String
  | .noRoot => "No <svg> element found"
  | .malformedViewBox value => "Malformed viewBox: " ++ Text.quoted value
  | .notText kind => s!"expected string or bytes-like object, got '{kind}'"

end Unusable

/-! ## The view box as an attribute -/

/-- The layout of numbers in a view box: written out in full from `1e-6` up to below `1e21`,
without a point in whole numbers and with the plain digits of an exponent. -/
def NumberLayout.attribute : NumberLayout where
  fullAbove := -6
  fullUpTo := 21
  wholeEnd := ""
  exponentWidth := 1
  signedZero := false
  infinity := "Infinity"
  notANumber := "NaN"

namespace ViewBox

/-- One number of a view box as text. -/
def numberText (value : Json) : Except Json.NumberFault String :=
  value.toBinary64.map NumberLayout.attribute.render

/-- A view box as the value of an attribute: the origin, then the size. Without both coordinates
the origin is zero. Width and height are converted before the origin. -/
def text (box : ViewBox) : Except Json.NumberFault String := do
  let width ← numberText box.width
  let height ← numberText box.height
  match box.x, box.y with
  | some x, some y =>
    let x ← numberText x
    let y ← numberText y
    return x ++ " " ++ y ++ " " ++ width ++ " " ++ height
  | _, _ => return "0 0 " ++ width ++ " " ++ height

end ViewBox

end IconForge
