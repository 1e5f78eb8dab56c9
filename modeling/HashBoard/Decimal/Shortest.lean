import HashBoard.Decimal.Binary

/-!
# The shortest decimal that reads back as a double

The reals that round to a double form an interval around it, ends included exactly when its
mantissa is even. Of the decimal grids with 1, 2, … 17 significant digits the first one with a point
in that interval is taken, and on it the point nearest to the double. Only the two neighbours of
the double on a grid have to be tried: if any point of the grid lies in the interval, one of them
does.

## Layout

Values from `10 ^ -4` up to but not including `10 ^ 16` are written positionally, with at least one
digit after the point; the others with one digit before the point and a power of ten after `e`.
-/

namespace HashBoard.Decimal

/-- Significant digits and the power of ten of the last of them. -/
structure Digits where
  /-- The digits as one number. -/
  value : Nat
  /-- The power of ten the number is multiplied by. -/
  power : Int
  deriving DecidableEq

/-- The digits without zeros at their end. -/
def Digits.strip : Nat → Digits → Digits
  | 0, d => d
  | fuel + 1, d =>
    if d.value ≠ 0 ∧ d.value % 10 = 0 then strip fuel ⟨d.value / 10, d.power + 1⟩ else d

/-- The power of ten of the first digit of `num / den`, a quotient that is not zero. -/
def leadingPower (num den : Nat) : Int :=
  if den ≤ num then ((Nat.toDigits 10 (num / den)).length : Int) - 1
  else
    let rec below (fuel k : Nat) : Int :=
      match fuel with
      | 0 => -(k : Int)
      | fuel + 1 => if den ≤ num * tenTo k then -(k : Int) else below fuel (k + 1)
    below 400 1

/-- The interval of reals that round to `m * 2 ^ q`, in units of `2 ^ (q - 2)`. Below a power of
two the doubles lie twice as close as above it, except at the bottom of the range. -/
def roundingInterval (m : Nat) (q : Int) : Nat × Nat :=
  (if m = 1 <<< 52 ∧ -1074 < q then 4 * m - 1 else 4 * m - 2, 4 * m + 2)

/-- The nearest point of the grid with `n` digits to `m * 2 ^ q`, if it reads back. -/
def onGrid? (m : Nat) (q : Int) (lead : Int) (n : Nat) : Option Digits :=
  let power := lead - n + 1
  -- in units of `2 ^ (q - 2)`, one step of the grid is `up / down`
  let (num, den) := quotient 1 (2 - q)
  let up := if 0 ≤ power then num * tenTo power.toNat else num
  let down := if 0 ≤ power then den else den * tenTo (-power).toNat
  let (lo, hi) := roundingInterval m q
  let inside (c : Nat) : Bool :=
    if m % 2 = 0 then lo * down ≤ c * up && c * up ≤ hi * down
    else lo * down < c * up && c * up < hi * down
  let c := 4 * m * down / up
  let belowGap := 4 * m * down - c * up
  let aboveGap := (c + 1) * up - 4 * m * down
  let pick (c : Nat) : Option Digits := some ⟨c, power⟩
  match inside c, inside (c + 1) with
  | true, true => if belowGap < aboveGap then pick c else pick (c + 1)
  | true, false => pick c
  | false, true => pick (c + 1)
  | false, false => none

/-- The shortest digits that read back as `m * 2 ^ q`, which is not zero. -/
def shortestDigits (m : Nat) (q : Int) : Digits :=
  let (num, den) := quotient m q
  let lead := leadingPower num den
  let found := (List.range' 1 17).findSome? (onGrid? m q lead)
  (found.getD ⟨0, 0⟩).strip 20

/-- Digits written with a point and no power of ten. -/
def positional (d : Digits) : String :=
  let ds := Nat.toDigits 10 d.value
  if 0 ≤ d.power then String.ofList (ds ++ List.replicate d.power.toNat '0') ++ ".0"
  else
    let places := (-d.power).toNat
    if places < ds.length then
      String.ofList (ds.take (ds.length - places)) ++ "." ++
        String.ofList (ds.drop (ds.length - places))
    else "0." ++ String.ofList (List.replicate (places - ds.length) '0' ++ ds)

/-- Digits written with one before the point and a power of ten. -/
def scientific (d : Digits) : String :=
  let ds := Nat.toDigits 10 d.value
  let exponent := d.power + (ds.length : Int) - 1
  String.ofList (ds.take 1) ++ (if ds.length = 1 then "" else ".") ++ String.ofList (ds.drop 1) ++
    "e" ++ (if exponent < 0 then "-" else "") ++ toString exponent.natAbs

/-- A double as its shortest decimal. -/
def shortest (x : Float) : String :=
  match Binary.ofFloat x with
  | .undefined => "NaN"
  | .infinite negative => if negative then "-inf" else "inf"
  | .finite negative m q =>
    (if negative then "-" else "") ++
      if m = 0 then "0.0"
      else
        let d := shortestDigits m q
        let first := d.power + ((Nat.toDigits 10 d.value).length : Int) - 1
        if -4 ≤ first ∧ first < 16 then positional d else scientific d

end HashBoard.Decimal
