import IconForge.Component.Source
import IconForge.Conversion.Storage
import IconForge.Json.Display

set_option autoImplicit false

/-! # Settings

What a user may set: the names in generated components, the size of graphics that declare none and
the check of inner markup. A configuration file may change any of the defaults and nothing else;
its values may be of any kind. -/

namespace IconForge

/-- The settings of a run. -/
structure Settings where
  componentPackage : Json
  wrapperComponent : Json
  propsType : Json
  componentSuffix : Json
  fileExtension : Json
  /-- The side of the square that stands in for a size. -/
  defaultSize : Json
  /-- Whether inner markup is checked. -/
  checkMarkup : Json
  /-- The largest size of inner markup in bytes. -/
  maxMarkupSize : Json

namespace Settings

/-- The settings without a configuration file. -/
def default : Settings where
  componentPackage := .text Generator.default.package
  wrapperComponent := .text Generator.default.wrapper
  propsType := .text Generator.default.propsType
  componentSuffix := .text Generator.default.suffix
  fileExtension := .text Generator.default.extension
  defaultSize := .integer 24
  checkMarkup := .boolean true
  maxMarkupSize := .integer 100000

/-- The settings by name. -/
def toMembers (settings : Settings) : List (CodeText × Json) :=
  [("component_package", settings.componentPackage),
   ("wrapper_component", settings.wrapperComponent),
   ("props_type", settings.propsType),
   ("component_suffix", settings.componentSuffix),
   ("file_extension", settings.fileExtension),
   ("default_size", settings.defaultSize),
   ("check_markup", settings.checkMarkup),
   ("max_markup_size", settings.maxMarkupSize)]

/-- The settings in the members of an object; those that are not there have their defaults. -/
def ofMembers (members : List (CodeText × Json)) : Settings :=
  let get (name : String) (fallback : Json) :=
    (KeyedList.get? members (CodeText.ofString name)).getD fallback
  { componentPackage := get "component_package" default.componentPackage
    wrapperComponent := get "wrapper_component" default.wrapperComponent
    propsType := get "props_type" default.propsType
    componentSuffix := get "component_suffix" default.componentSuffix
    fileExtension := get "file_extension" default.fileExtension
    defaultSize := get "default_size" default.defaultSize
    checkMarkup := get "check_markup" default.checkMarkup
    maxMarkupSize := get "max_markup_size" default.maxMarkupSize }

/-- The settings of generated components, as they are displayed. -/
def generator (settings : Settings) : Except Json.TextFault Generator := do
  let package ← settings.componentPackage.display
  let wrapper ← settings.wrapperComponent.display
  let propsType ← settings.propsType.display
  let suffix ← settings.componentSuffix.display
  let extension ← settings.fileExtension.display
  return { package, wrapper, propsType, suffix, extension }

/-- The settings with a configuration file at a path; without a path they are the defaults. -/
def load (room : Room) (path : Option String) : Action Settings :=
  match path with
  | none => return default
  | some "" => return default
  | some path => do
    let members ← Storage.loadOver room default.toMembers (Path.ofText path)
    Action.note .debug .settings s!"Loaded settings from {path}"
    return ofMembers members

end Settings

end IconForge
