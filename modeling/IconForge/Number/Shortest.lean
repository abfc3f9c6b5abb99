import IconForge.Number.Decimal

set_option autoImplicit false

/-! # Shortest digits

The decimal digits that a binary64 number is written with: the fewest significant digits that
still read back as the same number, and among those of that length the ones nearest to it, a
tie going to the even last digit.

A decimal reads back as a number when it lies in the interval of reals that round to the number.
The interval reaches half way to both neighbours; its ends belong to it exactly when the
significand is even. All quantities are kept as natural numbers over the common denominator
`4 * 2 ^ 1074`, in which half the distance to a neighbour is a whole number.

For each count of digits only the two decimals around the number need to be looked at: if any
decimal with that many digits lies in the interval, one of these two does. -/

namespace IconForge

/-- Significant digits and the place of the decimal point: `0.d₁d₂… * 10 ^ point`. -/
structure ShortestDigits where
  /-- The significant digits as a natural number whose last digit is not zero. -/
  digits : Nat
  /-- How many digits stand in front of the point, negative for zeros behind it. -/
  point : Int
deriving DecidableEq, Repr

namespace ShortestDigits

/-- Four times the units of `2 ^ -1074` in one. -/
def quarters : Nat :=
  4 * Nat.pow 2 1074

/-- The reals that round to a magnitude, over the denominator `quarters`. -/
structure Interval where
  least : Nat
  most : Nat
  /-- Whether both ends belong to the interval. -/
  closed : Bool

/-- The reals that round to a magnitude. Below a power of two the neighbour is half as far away
as above it. -/
def Interval.of (m : Magnitude) : Interval where
  least :=
    let below := if m.significand = Nat.pow 2 52 && 0 < m.scale then 1 else 2
    4 * m.units - below * Nat.pow 2 m.scale
  most := 4 * m.units + 2 * Nat.pow 2 m.scale
  closed := m.significand % 2 = 0

/-- Whether the ratio `n / d` lies in the interval. -/
def Interval.holds (i : Interval) (n d : Nat) : Bool :=
  let n := n * quarters
  if i.closed then i.least * d ≤ n && n ≤ i.most * d else i.least * d < n && n < i.most * d

/-- The `point` for which the ratio `n / d` lies from `10 ^ (point - 1)` up to `10 ^ point`. -/
def pointOf (n d : Nat) : Int :=
  if d ≤ n then Decimal.digitCount (n / d) else 1 - (Decimal.digitCount ((d - 1) / n) : Int)

/-- Drop the zeros at the end of a natural number other than zero. -/
def dropZeros (n : Nat) : Nat :=
  if n = 0 then 0 else if n % 10 = 0 then dropZeros (n / 10) else n
termination_by n
decreasing_by omega

/-- The digits and the place of the point for `c * 10 ^ (point - count)`. -/
def ofCandidate (c : Nat) (point : Int) (count : Nat) : ShortestDigits where
  digits := dropZeros c
  point := point - count + Decimal.digitCount c

/-- The digits with `count` places that lie in the interval of a magnitude and are nearest to it,
if there are any. -/
def withCount? (m : Magnitude) (point : Int) (count : Nat) : Option ShortestDigits :=
  let up := Nat.pow 10 ((count : Int) - point).toNat
  let down := Nat.pow 10 (point - (count : Int)).toNat
  let interval := Interval.of m
  let n := 4 * m.units * up
  let d := quarters * down
  let low := n / d
  let twice := 2 * (n % d)
  let nearer := if twice < d || (twice = d && low % 2 = 0) then low else low + 1
  let farther := if nearer = low then low + 1 else low
  if interval.holds (nearer * down) up then some (ofCandidate nearer point count)
  else if interval.holds (farther * down) up then some (ofCandidate farther point count)
  else none

/-- The digits that a magnitude other than zero is written with. Seventeen digits are always
enough. -/
def of (m : Magnitude) : ShortestDigits :=
  let point := pointOf (4 * m.units) quarters
  match (List.range 17).findSome? fun i => withCount? m point (i + 1) with
  | some digits => digits
  | none => ⟨0, 0⟩

end ShortestDigits

end IconForge
