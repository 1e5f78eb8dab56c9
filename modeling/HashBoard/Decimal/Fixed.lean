import HashBoard.Decimal.Binary

/-!
# Doubles with a fixed number of places

The exact value of the double is rounded, not its shortest decimal form: a value half way between
two decimals of the wanted length goes to the even one, and hardly any double is half way. The sign
stays even when every digit is zero.
-/

namespace HashBoard.Decimal

/-- The whole number nearest to `num / den`; a half goes to the even neighbour. -/
def roundDiv (num den : Nat) : Nat :=
  let q := num / den
  let twice := 2 * (num % den)
  if den < twice ∨ (twice = den ∧ q % 2 = 1) then q + 1 else q

/-- A whole number of units of `10 ^ -places`, written with a point before the last `places`. -/
def pointed (places units : Nat) : String :=
  if places = 0 then toString units
  else
    let digits := toString (units % tenTo places)
    toString (units / tenTo places) ++ "." ++
      String.ofList (List.replicate (places - digits.length) '0') ++ digits

/-- A double with `places` digits after the point. -/
def fixed (places : Nat) (x : Float) : String :=
  match Binary.ofFloat x with
  | .undefined => "NaN"
  | .infinite negative => if negative then "-inf" else "inf"
  | .finite negative m q =>
    let (num, den) := quotient m q
    (if negative then "-" else "") ++ pointed places (roundDiv (num * tenTo places) den)

end HashBoard.Decimal
