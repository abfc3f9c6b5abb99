import IconForge.Component.Identifier
import IconForge.Graphic.Basic

set_option autoImplicit false

/-! # Component sources

The text of an icon component: it imports a wrapper component and the type of its properties
from a package and renders the wrapper around the markup of a graphic. Names, package and
extension are settings, and any texts will do. The markup is put in as it is. -/

namespace IconForge

/-- The settings of generated components. -/
structure Generator where
  /-- The package that provides the wrapper. -/
  package : CodeText
  /-- The component that every icon renders. -/
  wrapper : CodeText
  /-- The type of the wrapper's properties. -/
  propsType : CodeText
  /-- What the name of a component ends with. -/
  suffix : CodeText
  /-- What the name of a component file ends with. -/
  extension : CodeText

namespace Generator

/-- The generator with the default settings. -/
def default : Generator where
  package := "@imile/components"
  wrapper := "SvgIcon"
  propsType := "SvgIconProps"
  suffix := "Icon"
  extension := ".tsx"

/-- The name of the component for a base name. -/
def componentName (g : Generator) (base : String) : CodeText :=
  Component.identifier base ++ g.suffix

/-- The name of the file that holds the component for a base name. -/
def fileName (g : Generator) (base : String) : CodeText :=
  g.componentName base ++ g.extension

/-- The source of a component with a name, a view box and inner markup. -/
def source (g : Generator) (name : CodeText) (viewBox inner : String) : CodeText :=
  "import \x7b " ++ g.wrapper ++ " \x7d from '" ++ g.package ++ "';\n\n" ++
  "import type \x7b " ++ g.propsType ++ " \x7d from '" ++ g.package ++ "';\n\n" ++
  "export function " ++ name ++ "(props: " ++ g.propsType ++ ") \x7b\n" ++
  "  return (\n" ++
  "    <" ++ g.wrapper ++ " viewBox=\"" ++ viewBox ++ "\" \x7b...props\x7d>\n" ++
  "      " ++ inner ++ "\n" ++
  "    </" ++ g.wrapper ++ ">\n" ++
  "  );\n" ++
  "\x7d\n"

/-- The source of the component for a base name and a graphic. -/
def generate (g : Generator) (base : String) (graphic : Graphic) :
    Except Json.NumberFault CodeText :=
  graphic.viewBox.text.map fun viewBox => g.source (g.componentName base) viewBox graphic.inner

end Generator

end IconForge
