import HashBoard.Text.Blank
import HashBoard.Text.Numeral

/-!
# Environment variables

Settings come from named variables. A variable that is not text counts as unset, and so does one
that should hold a number and does not; the latter is worth a notice.
-/

namespace HashBoard

open Text

/-- What a variable holds. -/
inductive Variable
  /-- Nothing. -/
  | unset
  /-- Text. -/
  | text (value : String)
  /-- Bytes that are no text. -/
  | bytes (raw : List UInt8)
  deriving DecidableEq, Repr

/-- The variables by name. -/
abbrev Environment := String → Variable

namespace Environment

variable (env : Environment)

/-- The text of a variable. -/
def text? (name : String) : Option String :=
  match env name with
  | .text value => some value
  | .unset | .bytes _ => none

/-- The number in a variable, if there is one up to `bound`. -/
def number? (bound : Nat) (name : String) : Option Nat :=
  (env.text? name).bind fun value ↦ numeral? bound (trim value.toList)

/-- The text of a variable that should hold a number up to `bound` and does not. -/
def misread? (bound : Nat) (name : String) : Option String :=
  (env.text? name).filter fun value ↦ (numeral? bound (trim value.toList)).isNone

/-- An ASCII letter in lower case; other characters stay. -/
def lowered (c : Char) : Char :=
  if 'A' ≤ c ∧ c ≤ 'Z' then Char.ofNat (c.toNat + 32) else c

/-- Whether a variable is `1`, `true` or `yes`, in any case. -/
def flag (name : String) : Bool :=
  match env.text? name with
  | some value => ["1", "true", "yes"].contains (String.ofList ((trim value.toList).map lowered))
  | none => false

end Environment

end HashBoard
