/-!
# Doubles as exact binary fractions

A finite double is a sign and `m * 2 ^ q` with natural `m` and integer `q`. Both ways of writing
one in decimal start from that exact value, so rounding is decided in whole numbers.
-/

namespace HashBoard.Decimal

/-- What the bits of a double say. -/
inductive Binary
  /-- No number. -/
  | undefined
  /-- Beyond every finite value. -/
  | infinite (negative : Bool)
  /-- The value `m * 2 ^ q`, with its sign. -/
  | finite (negative : Bool) (m : Nat) (q : Int)
  deriving DecidableEq

/-- A double taken apart. -/
def Binary.ofFloat (x : Float) : Binary :=
  let bits := x.toBits.toNat
  let negative := bits >>> 63 = 1
  let exponent : Nat := (bits >>> 52) % 2048
  let fraction : Nat := bits % (1 <<< 52)
  if exponent = 2047 then
    if fraction = 0 then .infinite negative else .undefined
  else if exponent = 0 then .finite negative fraction (-1074)
  else .finite negative ((1 <<< 52) + fraction) ((exponent : Int) - 1075)

/-- `m * 2 ^ q` as a quotient of naturals. -/
def quotient (m : Nat) (q : Int) : Nat × Nat :=
  if 0 ≤ q then (m <<< q.toNat, 1) else (m, 1 <<< (-q).toNat)

/-- The power of ten with an exponent. -/
def tenTo (k : Nat) : Nat := Nat.pow 10 k

end HashBoard.Decimal
