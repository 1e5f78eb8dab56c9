import HashBoard.Registers

/-!
# Pacing of the hash core

Patience and intensity are packed into the core's flag word. A core that is stopped softly has its
intensity walked down first, so that the supply does not see the whole load drop at once.
-/

namespace HashBoard

/-- How hard the core works. Zero leaves a knob at the bitstream's default. -/
structure Intensity where
  /-- How long the core waits. -/
  patience : UInt8 := 0
  /-- Numerator of the intensity. -/
  numerator : UInt8 := 0
  /-- Denominator of the intensity. -/
  denominator : UInt8 := 0
  deriving DecidableEq, Repr, Inhabited

namespace Intensity

/-- The denominator field: eight times the low six bits, less one unless that is zero. -/
def denominatorField (i : Intensity) : Word :=
  let d := (i.denominator.toUInt32 &&& 0x3f) * 8
  if d = 0 then 0 else d - 1

/-- The flag word. -/
def controlWord (i : Intensity) : Word :=
  let patience : Word := if i.patience = 0 then 0 else (0x40 : Word) ||| (i.patience.toUInt32 <<< 8)
  let intensity : Word :=
    if i.numerator = 0 then 0
    else (1 : Word) ||| (i.numerator.toUInt32 <<< 24) ||| (i.denominatorField <<< 16)
  patience ||| intensity

/-- The knobs as they stand in log lines. -/
def display (i : Intensity) : String :=
  "P=" ++ toString i.patience.toNat ++ " N=" ++ toString i.numerator.toNat ++
    " D=" ++ toString i.denominator.toNat

/-- The intensity levels on the way down from `level` in steps of `step`: every level above zero,
and zero when the last step would have gone below it. -/
def levels (step level : Nat) : List Nat :=
  if 0 < level ∧ 0 < step then
    level :: if level < step then [0] else levels step (level - step)
  else []
termination_by level
decreasing_by omega

/-- Flag words that walk the intensity in the top byte of `flags` down in at most eight equal steps,
leaving the other bits alone. -/
def ramp (flags : Word) : List Word :=
  let level := (flags >>> 24).toNat
  (levels ((level + 7) / 8) level).map fun l ↦
    (flags &&& (0x00ff_ffff : Word)) ||| (UInt32.ofNat l <<< 24)

end Intensity

end HashBoard
