import HashBoard.Registers

/-!
# The boundary check counter

The board counts boundary checks in two words that are read one after the other. A sample below the
one before is taken for a carry between the two reads, and corrected by one in the high word. A
sample of zero in both words is a reset.
-/

namespace HashBoard

/-- The last sample, corrected. -/
structure CheckCounter where
  /-- Value of the last sample. -/
  last : UInt64 := 0
  deriving DecidableEq, Repr, Inhabited

namespace CheckCounter

/-- The value of two words. -/
def compose (lo hi : Word) : UInt64 := (hi.toUInt64 <<< 32) ||| lo.toUInt64

/-- The counter after a sample and the number of checks since the sample before. -/
def advance (c : CheckCounter) (lo hi : Word) : CheckCounter × UInt64 :=
  if lo = 0 ∧ hi = 0 then (⟨0⟩, 0)
  else
    let total := compose lo hi
    let total := if total < c.last then compose lo (hi + 1) else total
    (⟨total⟩, total - c.last)

end CheckCounter

end HashBoard
