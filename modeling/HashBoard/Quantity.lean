/-!
# The numbers clocks and voltages are computed in

Frequencies, voltages and temperatures are computed over a type `ν` with the operations below and
nothing more. Running, the type is `Float`; the exact statements about the arithmetic are about
`Rat`. Every operation is one that doubles and rationals both have, so one definition serves both
and nothing is stated twice.

## Dropping fractions

Rounding up, rounding to nearest and the fractional part are all derived from `trunc`, which drops
the fraction and keeps the sign. For doubles `trunc` goes through the 64-bit count rather than
through an opaque primitive: a double from `2 ^ 52` on has no fraction, and below it the count is
exact.
-/

namespace HashBoard

/-- A type with the arithmetic that clocks, voltages and temperatures need. -/
class Quantity (ν : Type) extends Add ν, Sub ν, Mul ν, Div ν, Neg ν, OfScientific ν where
  /-- A whole number as a quantity. -/
  ofNat : Nat → ν
  /-- Strictly below; false when either side is no number. -/
  lt : ν → ν → Bool
  /-- Below or equal; false when either side is no number. -/
  le : ν → ν → Bool
  /-- The value with its fraction dropped, towards zero. -/
  trunc : ν → ν
  /-- The whole part as a 64-bit count, zero below zero and the greatest count above the range. -/
  count : ν → UInt64

namespace Quantity

variable {ν : Type} [Quantity ν]

/-- The same value. Both zeros are the same value, and what is no number equals nothing. -/
def same (x y : ν) : Bool := le x y && le y x

/-- Distance from zero. -/
def abs (x : ν) : ν := if lt x (ofNat 0) then -x else x

/-- The least whole value that is not below `x`. -/
def ceil (x : ν) : ν :=
  let t := trunc x
  if lt t x then t + ofNat 1 else t

/-- What `trunc` drops. -/
def fract (x : ν) : ν := x - trunc x

/-- The nearest whole value; a half goes away from zero. -/
def round (x : ν) : ν :=
  let t := trunc x
  if le (ofNat 1 / ofNat 2) (abs (x - t)) then
    if lt x (ofNat 0) then t - ofNat 1 else t + ofNat 1
  else t

/-- The whole part as a register word, zero below zero and the greatest word above the range. -/
def word (x : ν) : UInt32 :=
  if 0xffff_ffff < count x then 0xffff_ffff else (count x).toUInt32

/-- A span of microseconds in seconds: whole seconds first, then the rest as a fraction. -/
def seconds (micros : Nat) : ν :=
  ofNat (micros / 1_000_000) + ofNat (micros % 1_000_000 * 1000) / ofNat 1_000_000_000

/-- A double with its fraction dropped. -/
def truncFloat (x : Float) : Float :=
  if x < 0.0 then
    if -4503599627370496.0 < x then -((-x).toUInt64.toFloat) else x
  else if 0.0 < x then
    if x < 4503599627370496.0 then x.toUInt64.toFloat else x
  else x

instance : Quantity Float where
  ofNat := Float.ofNat
  lt x y := x < y
  le x y := x ≤ y
  trunc := truncFloat
  count := Float.toUInt64

instance : Quantity Rat where
  ofNat n := (n : Rat)
  lt x y := decide (x < y)
  le x y := decide (x ≤ y)
  trunc x := if x < 0 then (x.ceil : Rat) else (x.floor : Rat)
  count x := UInt64.ofNat (min x.floor.toNat (UInt64.size - 1))

end Quantity

end HashBoard
