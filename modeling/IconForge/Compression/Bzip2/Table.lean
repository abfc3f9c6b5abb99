import IconForge.Compression.Bzip2.CodeLength
import IconForge.Compression.Bzip2.Symbol

set_option autoImplicit false

/-! # Tables of codes

The symbols of a block are written in groups of fifty, and every group may use another one of up
to six tables of code lengths. The tables begin with a share of the symbols each, which cost
nothing there, while the other symbols cost much. Then, four times over, every group chooses the
table that is cheapest for it, and every table gets the code lengths that suit the groups which
chose it. -/

namespace IconForge.Compression.Bzip2

/-- How many symbols a group has. -/
def groupSize : Nat :=
  50

/-- How many tables a block with a number of symbols has. -/
def tableCount (symbols : Nat) : Nat :=
  if symbols < 200 then 2
  else if symbols < 600 then 3
  else if symbols < 1200 then 4
  else if symbols < 2400 then 5
  else 6

/-- The groups of symbols. -/
def groupsOf (symbols : List Nat) : List (List Nat) :=
  match symbols with
  | [] => []
  | symbol :: rest =>
    (symbol :: rest.take (groupSize - 1)) :: groupsOf (rest.drop (groupSize - 1))
termination_by symbols.length
decreasing_by simp only [List.length_drop, List.length_cons]; omega

/-- How often the symbols below a number occur. -/
def frequencies (count : Nat) (symbols : List Nat) : List Nat :=
  (symbols.foldl (fun counts s => counts.modify s (· + 1)) (Array.replicate count 0)).toList

/-! ## The first tables -/

/-- A share of the symbols: symbols from the front of those with given frequencies until they
occur often enough. The answer is how many they are and how often they occur. -/
def shareOf (wanted taken : Nat) : List Nat → Nat × Nat
  | [] => (0, taken)
  | frequency :: rest =>
    if taken < wanted then
      let (count, taken) := shareOf wanted (taken + frequency) rest
      (count + 1, taken)
    else (0, taken)

/-- The bounds of the shares of symbols behind `start`, the last share first. The number of shares
still to come is `parts`; every other share leaves its last symbol to the next one. -/
def shares (tables : Nat) : Nat → Nat → Nat → List Nat → List (Nat × Nat)
  | 0, _, _, _ => []
  | parts + 1, start, total, rest =>
    let (count, taken) := shareOf (total / (parts + 1)) 0 rest
    let givesBack := 1 < count ∧ parts + 1 ≠ tables ∧ parts ≠ 0 ∧ (tables - (parts + 1)) % 2 = 1
    let last := rest.getD (count - 1) 0
    let (count, taken) := if givesBack then (count - 1, taken - last) else (count, taken)
    shares tables parts (start + count) (total - taken) (rest.drop count) ++
      [(start, start + count)]

/-- The tables at the beginning. -/
def firstTables (tables : Nat) (frequencies : List Nat) : List (Array Nat) :=
  let total := frequencies.foldl (· + ·) 0
  (shares tables tables 0 total frequencies).map fun (first, behind) =>
    (Array.range frequencies.length).map fun s => if first ≤ s ∧ s < behind then 0 else 15

/-! ## The final tables -/

/-- What a group costs with a table. -/
def cost (lengths : Array Nat) (group : List Nat) : Nat :=
  group.foldl (fun total s => total + lengths.getD s 0) 0

/-- The first one of the cheapest tables for a group. -/
def cheapest (tables : List (Array Nat)) (group : List Nat) : Nat :=
  let costs := tables.map fun table => cost table group
  costs.idxOf (costs.foldl min (costs.headD 0))

/-- The tables that suit the groups which chose them. -/
def suitedTables (count alphabet : Nat) (groups : List (List Nat)) (choices : List Nat) :
    List (Array Nat) :=
  (List.range count).map fun table =>
    let symbols := (groups.zip choices).flatMap fun (group, choice) =>
      if choice = table then group else []
    codeLengths (frequencies alphabet symbols)

/-- The choices of the groups and the tables that suit them, after a number of rounds. -/
def settle (count alphabet : Nat) (groups : List (List Nat)) :
    Nat → List Nat → List (Array Nat) → List Nat × List (Array Nat)
  | 0, choices, tables => (choices, tables)
  | rounds + 1, _, tables =>
    let choices := groups.map (cheapest tables)
    settle count alphabet groups rounds choices (suitedTables count alphabet groups choices)

/-- The choices of the groups of symbols and the tables of a block. -/
def tablesOf (alphabet : Nat) (symbols : List Nat) : List Nat × List (Array Nat) :=
  let count := tableCount symbols.length
  settle count alphabet (groupsOf symbols) 4 [] (firstTables count (frequencies alphabet symbols))

/-! ## Codes -/

/-- Codes for the symbols with lengths up to a length, with the next free code of that length. -/
def codesUpTo (lengths : Array Nat) : Nat → Array Nat × Nat
  | 0 => (Array.replicate lengths.size 0, 0)
  | length + 1 =>
    let (codes, next) := codesUpTo lengths length
    lengths.toList.zipIdx.foldl (fun (codes, next) (l, symbol) =>
      if l = length + 1 then (codes.setIfInBounds symbol next, next + 1) else (codes, next))
      (codes, 2 * next)

/-- The codes for symbols with given lengths: shorter codes come first and, of one length, those
for lower symbols. -/
def codesOf (lengths : Array Nat) : Array Nat :=
  (codesUpTo lengths maxLength).1

end IconForge.Compression.Bzip2
