import HashBoard.Registers
import HashBoard.Text.Numeral

/-!
# Board identity

What a board says about itself: three identity words, a device type of four characters and the
version of its bitstream. Tuned settings are kept under a key made of these and the voltages asked
for.
-/

namespace HashBoard

open Text

/-- The identity words read once after connecting. -/
structure Identity where
  /-- First identity word. -/
  lo : Word
  /-- Second identity word. -/
  mid : Word
  /-- Third identity word. -/
  hi : Word
  /-- Four characters naming the board family. -/
  deviceType : Word
  /-- Version of the bitstream. -/
  bitstream : Word
  deriving DecidableEq, Repr, Inhabited

namespace Identity

/-- One byte of the device type; what has no ASCII glyph is a question mark. -/
def glyph (b : Word) : Char :=
  if 0x21 ≤ b.toNat ∧ b.toNat ≤ 0x7e then Char.ofNat b.toNat else '?'

/-- The device type as four characters. -/
def typeName (i : Identity) : String :=
  let byte (shift : Word) : Char := glyph ((i.deviceType >>> shift) &&& 0xff)
  String.ofList [byte 24, byte 16, byte 8, byte 0]

/-- The identity words in hexadecimal; only the first is padded. -/
def serial (i : Identity) : String :=
  hexPadded 8 i.lo.toNat ++ hex i.mid.toNat ++ hex i.hi.toNat

/-- The key of saved settings: serial, bitstream and both voltages in millivolts with two places. -/
def calibrationId (i : Identity) (railA railB : Word) : String :=
  i.serial ++ "_" ++ hexPadded 8 i.bitstream.toNat ++ "_" ++
    toString railA.toNat ++ ".00" ++ toString railB.toNat ++ ".00"

end Identity

/-- The name of the board with a given number. -/
def boardName (index : Nat) : String := "hbm-" ++ toString index

end HashBoard
