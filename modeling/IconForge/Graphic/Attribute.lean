import IconForge.Text.Blank
import IconForge.Text.LetterCase
import IconForge.Text.WordCharacter

set_option autoImplicit false

/-! # Attributes of the root

Attributes are looked up in the plain text of the opening tag. A name counts only where it does
not continue another name, that is where no word character and no hyphen stands in front of it.
Its value stands between quotes of either kind, of which the first after the opening one ends it.

A search walks through the text with the character in front of it at hand. -/

namespace IconForge.Graphic

open IconForge.Text

/-- Single and double quotes. -/
def isQuote (c : Char) : Bool :=
  c = '"' || c = '\''

/-- The value behind the name of an attribute, and the rest behind the value: an equals sign with
blanks around it and a text between quotes. -/
def value? (cs : List Char) : Option (List Char × List Char) :=
  match cs.dropWhile isBlank with
  | '=' :: rest =>
    match rest.dropWhile isBlank with
    | quote :: rest =>
      if isQuote quote then
        match rest.dropWhile (!isQuote ·) with
        | _ :: behind => some (rest.takeWhile (!isQuote ·), behind)
        | [] => none
      else none
    | [] => none
  | _ => none

/-- Whether a name may begin behind a character. -/
def atBoundary (previous : Option Char) : Bool :=
  match previous with
  | some c => !(isWordCharacter c || c = '-')
  | none => true

/-! ## Looking a value up -/

/-- The value of an attribute at the front of a text. The name is compared without case and the
value must not be empty. -/
def attributeAt? (name cs : List Char) : Option (List Char) :=
  match (dropFolded? name cs).bind value? with
  | some (value, _) => if value.isEmpty then none else some value
  | none => none

/-- The value of the first attribute with a name, given in small letters. -/
def findAttribute? (name : List Char) (previous : Option Char) : List Char → Option (List Char)
  | [] => none
  | c :: rest =>
    match if atBoundary previous then attributeAt? name (c :: rest) else none with
    | some value => some value
    | none => findAttribute? name (some c) rest

/-- The value of the first attribute with a name in the text of an opening tag. -/
def attribute? (name : String) (attributes : List Char) : Option (List Char) :=
  findAttribute? name.toList none attributes

/-! ## Namespace declarations -/

/-- Characters of a declared prefix. -/
def isPrefixCharacter (c : Char) : Bool :=
  isWordCharacter c || c = '.' || c = '-'

/-- A declaration at the front of a text: the prefix, the namespace name and the rest. -/
def declaration? : List Char → Option (List Char × List Char × List Char)
  | 'x' :: 'm' :: 'l' :: 'n' :: 's' :: ':' :: cs =>
    let name := cs.takeWhile isPrefixCharacter
    if name.isEmpty then none
    else (value? (cs.dropWhile isPrefixCharacter)).map fun (value, rest) => (name, value, rest)
  | _ => none

theorem length_dropWhile_le {α : Type} (p : α → Bool) (cs : List α) :
    (cs.dropWhile p).length ≤ cs.length :=
  (List.dropWhile_suffix p).length_le

theorem length_le_of_value? {cs value rest : List Char} (h : value? cs = some (value, rest)) :
    rest.length ≤ cs.length := by
  unfold value? at h
  split at h
  · next _ afterName h₁ =>
    split at h
    · next _ quote afterEquals h₂ =>
      split at h
      · split at h
        · next _ c behind h₃ =>
          have h₁ := h₁ ▸ length_dropWhile_le isBlank cs
          have h₂ := h₂ ▸ length_dropWhile_le isBlank afterName
          have h₃ := h₃ ▸ length_dropWhile_le (!isQuote ·) afterEquals
          simp only [List.length_cons] at h₁ h₂ h₃
          simp only [Option.some.injEq, Prod.mk.injEq] at h
          obtain ⟨_, rfl⟩ := h
          omega
        · cases h
      · cases h
    · cases h
  · cases h

theorem length_lt_of_declaration? {cs name value rest : List Char}
    (h : declaration? cs = some (name, value, rest)) : rest.length < cs.length := by
  unfold declaration? at h
  split at h
  · next behind =>
    simp only at h
    split at h
    · cases h
    · obtain ⟨⟨v, r⟩, hv, h⟩ := Option.map_eq_some_iff.1 h
      simp only [Prod.mk.injEq] at h
      obtain ⟨_, _, rfl⟩ := h
      have := length_le_of_value? hv
      have := length_dropWhile_le isPrefixCharacter behind
      simp only [List.length_cons]
      omega
  · cases h

/-- The declarations in a text, each searched for behind the one before. -/
def findDeclarations (previous : Option Char) (cs : List Char) : List (List Char × List Char) :=
  match cs with
  | [] => []
  | c :: rest =>
    match h : if atBoundary previous then declaration? (c :: rest) else none with
    | some (name, value, behind) =>
      have : behind.length < rest.length + 1 := by
        split at h
        · exact length_lt_of_declaration? h
        · cases h
      (name, value) :: findDeclarations (some '"') behind
    | none => findDeclarations (some c) rest
termination_by cs.length

/-- The prefixes declared in the text of an opening tag with their namespace names, in order. -/
def declarations (attributes : List Char) : List (String × String) :=
  (findDeclarations none attributes).map fun (name, value) =>
    (String.ofList name, String.ofList value)

end IconForge.Graphic
