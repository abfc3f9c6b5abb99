import IconForge.Number.Binary64

set_option autoImplicit false

/-! # Decimal numbers

A decimal number is an integer times a power of ten. It is rounded to binary64 through an exact
ratio. Numbers far outside the format are decided by their order of magnitude alone, so that an
exponent of any size can be read. -/

namespace IconForge

/-- The number `± digits * 10 ^ exponent`. -/
structure Decimal where
  /-- Whether the number has a minus sign. -/
  negative : Bool
  /-- The digits, without a point. -/
  digits : Nat
  /-- The power of ten. -/
  exponent : Int
deriving DecidableEq, Repr

namespace Decimal

/-- How many decimal digits a natural number has; zero has none. -/
def digitCount (n : Nat) : Nat :=
  if n = 0 then 0 else digitCount (n / 10) + 1
termination_by n
decreasing_by omega

/-- The ratio of a decimal's digits and power of ten. -/
def ratio (d : Decimal) : Nat × Nat :=
  if 0 ≤ d.exponent then (d.digits * Nat.pow 10 d.exponent.toNat, 1)
  else (d.digits, Nat.pow 10 d.exponent.natAbs)

/-- The binary64 number nearest to a decimal. With `k` digits and exponent `e` a decimal other
than zero lies between `10 ^ (k + e - 1)` and `10 ^ (k + e)`: above `10 ^ 309` it is infinite and
below `10 ^ -330` it is zero. -/
def toBinary64 (d : Decimal) : Binary64 :=
  let order := (digitCount d.digits : Int) + d.exponent
  if d.digits = 0 || order < -330 then .finite d.negative .zero
  else if order > 310 then .infinite d.negative
  else .ofRatio d.negative d.ratio.1 d.ratio.2

end Decimal

end IconForge
