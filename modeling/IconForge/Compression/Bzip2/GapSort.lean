set_option autoImplicit false

/-! # Sorting with gaps

Items are compared by a test that keeps count of its work. They are sorted with ever smaller gaps:
each item goes to the front in steps of the gap, past the items that are greater. -/

namespace IconForge.Compression.Bzip2

/-- Whether one item is greater than another one, with the work that has been done up to then and
after the test. -/
abbrev GreaterTest := Nat → Nat → Nat → Bool × Nat

/-- All gaps. -/
def gaps : List Nat :=
  [797161, 265720, 88573, 29524, 9841, 3280, 1093, 364, 121, 40, 13, 4, 1]

/-- Put an item to its place in front of another place. -/
def sink (greater : GreaterTest) (gap item place : Nat) (items : Array Nat) (work : Nat) :
    Array Nat × Nat :=
  if _h : 0 < gap ∧ gap ≤ place then
    let other := items.getD (place - gap) 0
    let (isGreater, work) := greater other item work
    if isGreater then
      sink greater gap item (place - gap) (items.setIfInBounds place other) work
    else (items.setIfInBounds place item, work)
  else (items.setIfInBounds place item, work)
termination_by place

/-- Sort with one gap. -/
def sortWithGap (greater : GreaterTest) (state : Array Nat × Nat) (gap : Nat) :
    Array Nat × Nat :=
  (List.range' gap (state.1.size - gap)).foldl
    (fun (items, work) place => sink greater gap (items.getD place 0) place items work) state

/-- Sort items with all gaps that are shorter than their number. -/
def gapSort (greater : GreaterTest) (items : Array Nat) (work : Nat) : Array Nat × Nat :=
  (gaps.filter (· < items.size)).foldl (sortWithGap greater) (items, work)

end IconForge.Compression.Bzip2
