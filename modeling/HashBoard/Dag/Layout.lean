import HashBoard.Registers

/-!
# The dataset on the board

How the dataset is divided among the generator's mixers, how the finished dataset is spread over
both memory stacks, and the reciprocal with which the core reduces numbers modulo the item count.
-/

namespace HashBoard.Dag

/-- Bytes of an item as the hash core counts them. -/
def itemBytes : UInt64 := 128

/-- Bytes of a node as the generator counts them. -/
def nodeBytes : UInt64 := 64

/-- The reciprocal of an item count: `2 ^ 60` over the count, without the last four bits. Only the
low word of it is programmed. -/
def itemReciprocal (items : Word) : UInt64 :=
  if items = 0 then 0 else ((0x1000_0000_0000_0000 : UInt64) / items.toUInt64) >>> 4

/-- Neighbouring ranges of `step` numbers each, `n` of them from `start` on. -/
def evenRanges (step : Nat) : (n start : Nat) → List (Nat × Nat)
  | 0, _ => []
  | n + 1, start => (start, start + step) :: evenRanges step n (start + step)

/-- The numbers below `items` cut into neighbouring ranges, one for each mixer and at least one. The
first range takes what does not divide evenly. -/
def partition (items mixers : Nat) : List (Nat × Nat) :=
  let mixers := max mixers 1
  let share := items / mixers
  let first := share + (items - share * mixers)
  (0, first) :: evenRanges share (mixers - 1) first

/-- Where a piece of the staged dataset goes: the two hexadecimal digits of its number swapped,
which spreads neighbours over both stacks. -/
def pieceTarget (i : UInt64) : UInt64 :=
  (((i &&& 0x0f) <<< 4) ||| ((i &&& 0xf0) >>> 4)) * Reg.chunkSize

end HashBoard.Dag
