import IconForge.Text.CodePoint
import IconForge.Text.Split

set_option autoImplicit false

/-! # Paths

A path is a list of parts behind an anchor. Reading a path drops empty parts, parts that are a
single full stop and a solidus at the end; a double full stop stays. Two solidi at the front are
an anchor of their own, one solidus or more than two are the ordinary root. -/

namespace IconForge

/-- What the parts of a path begin at. -/
inductive Anchor where
  | workingDirectory
  | root
  /-- A root written with exactly two solidi. -/
  | doubleRoot
deriving DecidableEq, Repr

/-- Whether a text can be a part of a path: it is neither empty nor a single full stop, and it
holds no solidus. -/
def isPathPart (text : CodeText) : Bool :=
  !text.isEmpty && text ≠ [.char '.'] && !text.any (CodePoint.isChar '/')

/-- A path to a file or a directory. -/
structure Path where
  anchor : Anchor
  parts : List CodeText
  proper : ∀ part ∈ parts, isPathPart part
deriving DecidableEq, Repr

namespace Path

/-- The path of the texts that can be parts of one. -/
def ofParts (anchor : Anchor) (texts : List CodeText) : Path :=
  ⟨anchor, texts.filter isPathPart, fun _ h => (List.mem_filter.1 h).2⟩

/-- The anchor of the text of a path. -/
def anchorOf (text : CodeText) : Anchor :=
  match (text.takeWhile (CodePoint.isChar '/')).length with
  | 0 => .workingDirectory
  | 2 => .doubleRoot
  | _ => .root

/-- The path that a text stands for. -/
def ofText (text : CodeText) : Path :=
  ofParts (anchorOf text) (Text.splitAtRuns (CodePoint.isChar '/') text)

/-- The text of a path. -/
def text (p : Path) : CodeText :=
  let joined := List.intercalate [.char '/'] p.parts
  match p.anchor with
  | .workingDirectory => if p.parts.isEmpty then [.char '.'] else joined
  | .root => .char '/' :: joined
  | .doubleRoot => .char '/' :: .char '/' :: joined

/-- A path that goes on with another one, unless that has an anchor of its own. -/
def join (p q : Path) : Path :=
  match q.anchor with
  | .workingDirectory =>
    ⟨p.anchor, p.parts ++ q.parts,
      fun part h => (List.mem_append.1 h).elim (p.proper part) (q.proper part)⟩
  | _ => q

/-- The path of what lies below a path, by the names that lead there. -/
def below (p : Path) (names : List CodeText) : Path :=
  ofParts p.anchor (p.parts ++ names)

/-- The path without its last part. -/
def parent (p : Path) : Path :=
  ⟨p.anchor, p.parts.dropLast, fun part h => p.proper part ((List.dropLast_sublist p.parts).mem h)⟩

/-- The path without a number of its last parts. -/
def ancestor (p : Path) (count : Nat) : Path :=
  ⟨p.anchor, p.parts.take (p.parts.length - count),
    fun part h => p.proper part (List.mem_of_mem_take h)⟩

/-- The last part of a path. -/
def name (p : Path) : CodeText :=
  p.parts.getLastD []

/-- The path with another last part. -/
def withName (p : Path) (name : CodeText) : Path :=
  ofParts p.anchor (p.parts.dropLast ++ [name])

/-- The end of a name from its last full stop on. A full stop at the front of the name or at its
end does not count. -/
def suffixOf (name : CodeText) : CodeText :=
  let reversed := name.reverse
  let behind := reversed.takeWhile (!CodePoint.isChar '.' ·)
  let front := (reversed.dropWhile (!CodePoint.isChar '.' ·)).drop 1
  if front.isEmpty || behind.isEmpty then [] else .char '.' :: behind.reverse

/-- The suffix of a path's last part. -/
def suffix (p : Path) : CodeText :=
  suffixOf p.name

end Path

end IconForge
