/-!
# Whole numbers in text

Reading: a numeral is an optional plus sign and one or more decimal digits, with a value within the
bound of the number asked for. Leading zeros are fine; a sign alone, a minus sign, blanks and digit
separators are not. Writing: lower-case hexadecimal, plain or padded with zeros to a least width.
-/

namespace HashBoard.Text

/-- The value of a decimal digit. -/
def digit? (c : Char) : Option Nat :=
  if '0' ≤ c ∧ c ≤ '9' then some (c.toNat - '0'.toNat) else none

/-- The value of digits read after a part worth `acc`. -/
def digitsFrom? (acc : Nat) : List Char → Option Nat
  | [] => some acc
  | c :: cs => (digit? c).bind fun d ↦ digitsFrom? (10 * acc + d) cs

/-- The value of one or more decimal digits. -/
def digits? : List Char → Option Nat
  | [] => none
  | cs => digitsFrom? 0 cs

/-- The value of a numeral that is at most `bound`. -/
def numeral? (bound : Nat) (cs : List Char) : Option Nat :=
  let value := match cs with
    | '+' :: rest => digits? rest
    | _ => digits? cs
  value.filter (· ≤ bound)

/-- A number in lower-case hexadecimal. -/
def hex (n : Nat) : String := String.ofList (Nat.toDigits 16 n)

/-- A number in lower-case hexadecimal, filled up with zeros to `width` digits. -/
def hexPadded (width n : Nat) : String :=
  let ds := Nat.toDigits 16 n
  String.ofList (List.replicate (width - ds.length) '0' ++ ds)

/-- Bytes in lower-case hexadecimal, two digits each. -/
def hexBytes (bytes : List UInt8) : String :=
  String.join (bytes.map fun b ↦ hexPadded 2 b.toNat)

end HashBoard.Text
