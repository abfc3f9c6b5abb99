set_option autoImplicit false

/-! # Binary64 numbers

The numbers of the binary64 format as exact objects. A finite magnitude is
`significand * 2 ^ scale` units of `2 ^ -1074`, the least positive magnitude; the significand has
at most 53 bits and exactly 53 unless the scale is zero, so every number has one form.

Rounding takes a ratio of natural numbers to the nearest magnitude, a tie to the even
significand. A ratio has no magnitude exactly when rounding would need a scale above 2045. -/

namespace IconForge

/-- A finite magnitude of the binary64 format, in units of `2 ^ -1074`. -/
structure Magnitude where
  /-- The bits of the number. -/
  significand : Nat
  /-- The power of two that the significand is multiplied with. -/
  scale : Nat
  significand_lt : significand < Nat.pow 2 53
  scale_le : scale ≤ 2045
  normal : scale = 0 ∨ Nat.pow 2 52 ≤ significand
deriving DecidableEq

/-- A binary64 number. -/
inductive Binary64 where
  /-- A finite number; zero has both signs. -/
  | finite (negative : Bool) (magnitude : Magnitude)
  /-- Positive or negative infinity. -/
  | infinite (negative : Bool)
  /-- The value that is no number. -/
  | notANumber
deriving DecidableEq

namespace Magnitude

/-- Zero. -/
def zero : Magnitude :=
  ⟨0, 0, by decide, by decide, Or.inl rfl⟩

/-- How many units of `2 ^ -1074` a magnitude has. -/
def units (m : Magnitude) : Nat :=
  m.significand * Nat.pow 2 m.scale

/-- The magnitude with the given parts, when they have the one form of a magnitude. -/
def ofParts? (significand scale : Nat) : Option Magnitude :=
  if h : significand < Nat.pow 2 53 ∧ scale ≤ 2045 ∧
      (scale = 0 ∨ Nat.pow 2 52 ≤ significand) then
    some ⟨significand, scale, h.1, h.2.1, h.2.2⟩
  else
    none

/-- The quotient of two natural numbers, rounded to the nearest one and in a tie to the even. -/
def nearestQuotient (n d : Nat) : Nat :=
  let q := n / d
  let twice := 2 * (n % d)
  if twice < d || (twice = d && q % 2 = 0) then q else q + 1

/-- The magnitude nearest to `n / d`; `none` when that is too large for the format. -/
def ofRatio? (n d : Nat) : Option Magnitude :=
  let n := n * Nat.pow 2 1074
  let scale := (n / d).log2 - 52
  let significand := nearestQuotient n (d * Nat.pow 2 scale)
  if significand = Nat.pow 2 53 then ofParts? (Nat.pow 2 52) (scale + 1)
  else ofParts? significand scale

end Magnitude

namespace Binary64

/-- The number with a sign and a magnitude, infinite when there is none. -/
def ofMagnitude? (negative : Bool) : Option Magnitude → Binary64
  | some m => .finite negative m
  | none => .infinite negative

/-- The number nearest to a ratio with a sign, infinite when that is too large. -/
def ofRatio (negative : Bool) (n d : Nat) : Binary64 :=
  ofMagnitude? negative (Magnitude.ofRatio? n d)

/-- The number nearest to an integer; `none` when the integer is too large. -/
def ofInt? (i : Int) : Option Binary64 :=
  (Magnitude.ofRatio? i.natAbs 1).map (.finite (decide (i < 0)))

/-- Positive zero. -/
def zero : Binary64 :=
  .finite false .zero

/-- One. -/
def one : Binary64 :=
  ofRatio false 1 1

/-- Neither infinite nor no number. -/
def isFinite : Binary64 → Bool
  | .finite _ _ => true
  | _ => false

/-- Whether a natural number is greater than a binary64 number, compared exactly. -/
def ltNat (x : Binary64) (n : Nat) : Bool :=
  match x with
  | .finite true m => decide (0 < n + m.units)
  | .finite false m => decide (m.units < n * Nat.pow 2 1074)
  | .infinite negative => negative
  | .notANumber => false

end Binary64

end IconForge
