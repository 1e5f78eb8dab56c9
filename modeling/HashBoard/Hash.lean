import HashBoard.Text.Numeral

/-!
# Hashes and boundaries

A hash is 32 bytes in the order they travel in. Read as a big-endian number it can be compared with
a boundary. The core is never given a boundary stricter than one with 27 leading zero bits;
candidates between that floor and the boundary asked for are weeded out by whoever verifies them.
-/

namespace HashBoard

open Text

/-- Thirty-two bytes. -/
structure Hash where
  /-- The bytes in the order they travel in. -/
  bytes : List UInt8
  /-- There are thirty-two of them. -/
  length_eq : bytes.length = 32

namespace Hash

instance : DecidableEq Hash := fun a b ↦
  if h : a.bytes = b.bytes then
    .isTrue (by cases a; cases b; simp_all)
  else .isFalse (by rintro rfl; exact h rfl)

/-- The first 32 of some bytes, with zero bytes behind when there are fewer. -/
def ofBytes (bytes : List UInt8) : Hash where
  bytes := (bytes ++ List.replicate 32 0).take 32
  length_eq := by simp

/-- All bytes zero. -/
def zero : Hash := ofBytes []

instance : Inhabited Hash := ⟨zero⟩

/-- Big-endian value of bytes. -/
def bigEndian (bytes : List UInt8) : Nat := bytes.foldl (fun n b ↦ 256 * n + b.toNat) 0

/-- The last `n` bytes of the big-endian form of a number. -/
def bigEndianBytes : Nat → Nat → List UInt8
  | 0, _ => []
  | n + 1, v => bigEndianBytes n (v / 256) ++ [UInt8.ofNat v]

theorem length_bigEndianBytes (n v : Nat) : (bigEndianBytes n v).length = n := by
  induction n generalizing v with
  | zero => rfl
  | succ n ih => simp [bigEndianBytes, ih]

/-- The hash read as a number. -/
def value (h : Hash) : Nat := bigEndian h.bytes

/-- A number below `2 ^ 256` as a hash. -/
def ofNat (v : Nat) : Hash := ⟨bigEndianBytes 32 v, length_bigEndianBytes 32 v⟩

/-- The bytes in reverse order. -/
def reversed (h : Hash) : List UInt8 := h.bytes.reverse

/-- All bytes in hexadecimal. -/
def text (h : Hash) : String := hexBytes h.bytes

/-- First and last four bytes, for log lines. -/
def abridged (h : Hash) : String :=
  hexBytes (h.bytes.take 4) ++ "…" ++ hexBytes (h.bytes.drop 28)

/-- The greatest hash with `bits` leading zero bits. -/
def leadingZeros (bits : Nat) : Hash := ofNat ((1 <<< (256 - bits)) - 1)

/-- The strictest boundary the core is given. -/
def floor : Hash := leadingZeros 27

/-- The boundary that is programmed: the one asked for, or the floor where that is looser. -/
def effective (boundary : Hash) : Hash := ofNat (max boundary.value floor.value)

end Hash

end HashBoard
