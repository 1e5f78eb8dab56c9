import HashBoard.Quantity
import HashBoard.Registers

/-!
# Telemetry

Die temperature, core supply and the health of the two memory stacks. A stack that lost its
calibration or tripped its temperature limit makes the board halt.
-/

namespace HashBoard

/-- The health word taken apart. -/
structure StackHealth where
  /-- The left stack is calibrated. -/
  leftCalibrated : Bool
  /-- The right stack is calibrated. -/
  rightCalibrated : Bool
  /-- The left stack tripped its temperature limit. -/
  leftTripped : Bool
  /-- The right stack tripped its temperature limit. -/
  rightTripped : Bool
  /-- Temperature of the left stack in degrees. -/
  leftTemperature : UInt8
  /-- Temperature of the right stack in degrees. -/
  rightTemperature : UInt8
  deriving DecidableEq, Repr

namespace StackHealth

/-- Whether a bit of a word is set. -/
def bit (raw : Word) (n : Word) : Bool := (raw >>> n) &&& 1 != 0

/-- The health word taken apart. -/
def ofWord (raw : Word) : StackHealth where
  leftCalibrated := bit raw 0
  rightCalibrated := bit raw 1
  leftTripped := bit raw 2
  rightTripped := bit raw 10
  leftTemperature := ((raw >>> 3) &&& 0x7f).toUInt8
  rightTemperature := ((raw >>> 11) &&& 0x7f).toUInt8

/-- Either stack tripped. -/
def tripped (h : StackHealth) : Bool := h.leftTripped || h.rightTripped

/-- The board has to halt: a stack tripped or is not calibrated. -/
def requiresHalt (h : StackHealth) : Bool :=
  h.tripped || !h.leftCalibrated || !h.rightCalibrated

/-- The stacks are mentioned in the status line: one tripped or is above 70 degrees. -/
def isWorthReporting (h : StackHealth) : Bool :=
  h.tripped || 70 < h.leftTemperature || 70 < h.rightTemperature

/-- Faults, then both temperatures. -/
def display (h : StackHealth) : String :=
  (if h.leftCalibrated then "" else "LCAL: 0 ") ++ (if h.rightCalibrated then "" else "RCAL: 0 ") ++
    (if h.leftTripped then "LCATTRIP: " else "") ++ (if h.rightTripped then "RCATTRIP: " else "") ++
    toString h.leftTemperature.toNat ++ "C " ++ toString h.rightTemperature.toNat ++ "C"

end StackHealth

/-- One sample of everything that is watched. -/
structure Telemetry (ν : Type) where
  /-- Die temperature in degrees, zero when unreadable. -/
  temperature : ν
  /-- Core supply in mV, zero when unreadable. -/
  supply : ν
  /-- Core clock in MHz, zero when unreadable. -/
  clock : ν
  /-- The memory stacks. -/
  health : StackHealth
  deriving Repr

namespace Telemetry

variable {ν : Type} [Quantity ν]

/-- Degrees of a raw temperature. -/
def temperatureOfWord (raw : Word) : ν :=
  Quantity.ofNat raw.toNat * (507.6 : ν) / Quantity.ofNat 65536 - (279.43 : ν)

/-- Millivolts of a raw supply reading. -/
def supplyOfWord (raw : Word) : ν :=
  Quantity.ofNat raw.toNat * Quantity.ofNat 3 / Quantity.ofNat 65536 * Quantity.ofNat 1000

end Telemetry

end HashBoard
