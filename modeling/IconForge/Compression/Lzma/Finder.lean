import IconForge.Compression.Checksum
import IconForge.Compression.Lzma.Symbol
import Std.Data.HashMap

set_option autoImplicit false

/-! # Finding copies

Places in front of the current one are kept by the bytes that begin there: the last place of each
two and each three bytes, and a search tree for each four, in the order of the texts behind its
places. Bytes share their entry with others of the same hash. When a place comes into its tree it
becomes the root, and what was there is split into what is below and above it; on its way down the
split meets the texts that agree with the current one for longer and longer. -/

namespace IconForge.Compression.Lzma

/-! ## Agreement -/

/-- How many bytes agree at two places: at least those that are known to, and no more than a
limit. -/
def agreement (content : Array UInt8) (a b known limit : Nat) : Nat :=
  if known < limit ∧ byteAt content (a + known) = byteAt content (b + known) then
    agreement content a b (known + 1) limit
  else known
termination_by limit - known

/-- How many bytes agree with those at a distance. -/
def agreementBack (content : Array UInt8) (place distance known limit : Nat) : Nat :=
  agreement content place (place - distance - 1) known limit

/-- The length that is long enough to search no longer. -/
def goodLength : Nat :=
  64

/-- The longest length of a copy. -/
def maxLength : Nat :=
  273

/-- The largest distance between a byte and its copy. -/
def window : Nat :=
  0x800000

/-- A copy that was found. -/
structure Finding where
  length : Nat
  distance : Nat
deriving DecidableEq, Repr

/-! ## Trees -/

/-- A search tree of places. -/
inductive Tree where
  | leaf
  | node (below : Tree) (place : Nat) (above : Tree)

/-- A tree that was split, with the copies that were found. -/
structure Split where
  below : Tree
  above : Tree
  findings : List Finding

/-- Split a tree at a place. At most `depth` nodes are looked at; the rest is dropped, and so are
places out of the window. Only copies longer than `longest` count. All texts in the tree agree with
that of the place in as many bytes as the closest ones below and above the tree both do. -/
def Tree.split (content : Array UInt8) (place limit : Nat) :
    Tree → (depth longest agreedBelow agreedAbove : Nat) → Split
  | .leaf, _, _, _, _ => ⟨.leaf, .leaf, []⟩
  | .node _ _ _, 0, _, _, _ => ⟨.leaf, .leaf, []⟩
  | .node below p above, depth + 1, longest, agreedBelow, agreedAbove =>
    if window < place - p then ⟨.leaf, .leaf, []⟩
    else
      let length := agreement content p place (min agreedBelow agreedAbove) limit
      let found := if longest < length then [⟨length, place - p - 1⟩] else []
      let longest := max longest length
      if limit ≤ length then ⟨below, above, found⟩
      else if byteAt content (p + length) < byteAt content (place + length) then
        let rest := above.split content place limit depth longest length agreedAbove
        ⟨.node below p rest.below, rest.above, found ++ rest.findings⟩
      else
        let rest := below.split content place limit depth longest agreedBelow length
        ⟨rest.below, .node rest.above p above, found ++ rest.findings⟩

/-! ## The finder -/

/-- What is known of the places in front of one. -/
structure Finder where
  content : Array UInt8
  place : Nat := 0
  pairs : Std.HashMap UInt32 Nat := ∅
  triples : Std.HashMap UInt32 Nat := ∅
  trees : Std.HashMap UInt32 Tree := ∅

/-- What can be seen from a place: copies, the longest one last, and the length of that one if
it is not cut at the good length. -/
structure Sight where
  findings : List Finding
  reach : Nat

/-- The hashes of single bytes. -/
def byteHashes : Array UInt32 :=
  ((List.range 256).map fun b => Nat.repeat step32 8 b.toUInt32).toArray

/-- The hash of a byte. -/
def hashOf (b : UInt8) : UInt32 :=
  byteHashes.getD b.toNat 0

namespace Finder

/-- The copy from a place that was kept, if it is in the window and begins with the same byte. -/
def near (finder : Finder) (kept : Option Nat) : Option Nat :=
  kept.filter fun p =>
    finder.place - p ≤ window ∧ byteAt finder.content p = byteAt finder.content finder.place

/-- The copies from the last places of the same two and three bytes. Only the last one is followed
further than that. -/
def shortFindings (finder : Finder) (pair triple : Option Nat) (limit : Nat) : List Finding :=
  let finding (p known : Nat) : Finding :=
    ⟨agreement finder.content finder.place p known limit, finder.place - p - 1⟩
  match pair, triple with
  | none, none => []
  | some p, none => [finding p 2]
  | none, some q => [finding q 3]
  | some p, some q => if p = q then [finding p 2] else [⟨2, finder.place - p - 1⟩, finding q 3]

/-- The entries of a place: those of its next two, three and four bytes. -/
def keysAt (content : Array UInt8) (place : Nat) : UInt32 × UInt32 × UInt32 :=
  let two := hashOf (byteAt content place) ^^^ (byteAt content (place + 1)).toUInt32
  let three := two ^^^ ((byteAt content (place + 2)).toUInt32 <<< (8 : UInt32))
  let four := three ^^^ (hashOf (byteAt content (place + 3)) <<< (5 : UInt32))
  (two &&& 0x3ff, three &&& 0xffff, four &&& 0x3fffff)

/-- How far copies are followed from the current place. -/
def limit (finder : Finder) : Nat :=
  min goodLength (finder.content.size - finder.place)

/-- Go on by one place, and find its copies in ascending lengths. The last three places come into
no entries. -/
def step (finder : Finder) : List Finding × Finder :=
  let limit := finder.limit
  if limit < 4 then ([], { finder with place := finder.place + 1 })
  else
    let (pair, triple, key) := keysAt finder.content finder.place
    let findings := finder.shortFindings (finder.near finder.pairs[pair]?)
      (finder.near finder.triples[triple]?) limit
    let longest := (findings.map (·.length)).foldl max 3
    let split := (finder.trees.getD key .leaf).split finder.content finder.place limit
      (16 + goodLength / 2) longest 0 0
    let findings := if longest < limit then findings ++ split.findings else findings
    -- The tables are taken out of the finder, so that they change in place.
    let ⟨content, place, pairs, triples, trees⟩ := finder
    (findings,
      ⟨content, place + 1, pairs.insert pair place, triples.insert triple place,
        trees.insert key (.node split.below place split.above)⟩)

/-- Go on by some places. -/
def skip (finder : Finder) (count : Nat) : Finder :=
  Nat.repeat (fun finder => finder.step.2) count finder

/-- The length of the longest copy from a place, followed to its end. -/
def reachOf (content : Array UInt8) (place : Nat) (findings : List Finding) : Nat :=
  match findings.getLast? with
  | none => 0
  | some last =>
    if last.length < goodLength then last.length
    else
      agreementBack content place last.distance last.length
        (min maxLength (content.size - place))

/-- Go on by one place, and see its copies. -/
def look (finder : Finder) : Sight × Finder :=
  let content := finder.content
  let place := finder.place
  let (findings, finder) := finder.step
  (⟨findings, reachOf content place findings⟩, finder)

end Finder

end IconForge.Compression.Lzma
