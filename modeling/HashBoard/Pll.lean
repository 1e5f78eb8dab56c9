import HashBoard.Quantity
import HashBoard.Registers

/-!
# The clock generator

The core clock is the oscillator's frequency over an output divisor, and only the divisor is ever
programmed. The oscillator word holds the output divider in bits 0 to 3, the whole multiplier in
bits 8 to 15 and a fraction in thousandths in bits 16 to 25; the divisor word holds the whole part
in bits 0 to 3 and thousandths in bits 8 to 17.
-/

namespace HashBoard

/-- The generator's settings and the frequencies that follow from them, in MHz. -/
structure PllReading (ν : Type) where
  /-- The oscillator word. -/
  vcoWord : Word
  /-- Frequency of the oscillator. -/
  vco : ν
  /-- Divisor from the oscillator to the core. -/
  divisor : ν
  /-- Frequency of the core. -/
  core : ν
  deriving Repr

/-- What is asked of the core clock. -/
inductive ClockRequest (ν : Type)
  /-- Report it and touch nothing. -/
  | read
  /-- Return to the stock clock of the bitstream. -/
  | stock
  /-- Run as close to this many MHz as possible without going faster. -/
  | target (mhz : ν)
  deriving Repr

/-- What is remembered of the core clock, in MHz. -/
structure ClockState (ν : Type) where
  /-- The stock clock, read back after the last reset to it. -/
  baseline : ν
  /-- The clock to return to after generating; zero stays at the stock clock. -/
  target : ν
  /-- The clock last read or set. -/
  current : ν
  deriving Repr

/-- Why no divisor gives a clock. -/
inductive DivisorError (ν : Type)
  /-- The clock is faster than the core allows. -/
  | tooFast (divisor : ν)
  /-- The clock needs a divisor wider than the register. -/
  | tooSlow (divisor : ν)
  deriving Repr

namespace Pll

variable {ν : Type} [Quantity ν]

/-- Reference frequency in MHz. -/
def reference : ν := Quantity.ofNat 200

/-- Least divisor the core can run at. -/
def minDivisor : ν := Quantity.ofNat 2

/-- Greatest divisor that is used. -/
def maxDivisor : ν := (15.875 : ν)

/-- A field of thousandths. -/
def thousandths (field : Word) : ν := Quantity.ofNat field.toNat / Quantity.ofNat 1000

/-- The multiplier in an oscillator word. Its fraction counts only if one of the bits 16 to 19 or
21 is set. -/
def multiplier (vcoWord : Word) : ν :=
  let whole : ν := Quantity.ofNat ((vcoWord >>> 8) &&& 0xff).toNat
  let fraction : ν :=
    if (vcoWord >>> 16) &&& 0x2f = 0 then Quantity.ofNat 0
    else thousandths ((vcoWord >>> 16) &&& 0x3ff)
  whole + fraction

/-- The divisor in a divisor word. -/
def divisor (clkWord : Word) : ν :=
  Quantity.ofNat (clkWord &&& 0xf).toNat + thousandths ((clkWord >>> 8) &&& 0x3ff)

/-- The frequencies two words stand for, unless one of the dividers is zero. -/
def decode (vcoWord clkWord : Word) : Option (PllReading ν) :=
  let outDivider : ν := Quantity.ofNat (vcoWord &&& 0xf).toNat
  let d : ν := divisor clkWord
  if Quantity.same outDivider (Quantity.ofNat 0) || Quantity.same d (Quantity.ofNat 0) then none
  else
    let vco : ν := reference * multiplier vcoWord / outDivider
    some { vcoWord, vco, divisor := d, core := vco / d }

/-- The divisor for a clock, rounded up to an eighth so that the core never runs faster than one
MHz above what is asked for. -/
def divisorFor (vco target : ν) : Except (DivisorError ν) ν :=
  let exact := vco / (target + Quantity.ofNat 1)
  let d := Quantity.ceil (exact * Quantity.ofNat 8) / Quantity.ofNat 8
  if Quantity.lt d minDivisor then .error (.tooFast d)
  else if Quantity.lt maxDivisor d then .error (.tooSlow d)
  else .ok d

/-- A divisor as its register word. -/
def encode (d : ν) : Word :=
  let whole := Quantity.word (Quantity.trunc d) &&& 0xf
  let fraction := Quantity.word (Quantity.round (Quantity.fract d * Quantity.ofNat 1000)) &&& 0x3ff
  whole ||| (fraction <<< 8)

end Pll

end HashBoard
