import HashBoard.Board.Access

/-!
# Setting the core clock

A clock change powers the generator and resets parts of the core, so the parameters it would lose
are read before and written back after it.
-/

namespace HashBoard.Routine

variable {ν : Type} [Quantity ν]

/-- Reads the clock generator's settings. -/
def readPll : Routine ν (Option (PllReading ν)) := do
  match ← read Reg.pllVco with
  | .error fault => do
    note (.vcoUnread fault)
    pure none
  | .ok vco =>
    match ← read Reg.pllClk0 with
    | .error fault => do
      note (.divisorUnread fault)
      pure none
    | .ok clk =>
      match Pll.decode vco clk with
      | none => do
        note (.zeroDivider vco clk)
        pure none
      | some pll => pure (some pll)

/-- Looks for the lock of the clock generator at most `n` times. -/
def awaitLock : (n : Nat) → Routine ν Bool
  | 0 => pure false
  | n + 1 => do
    match ← read Reg.pllStatus with
    | .ok status => if status &&& Reg.pllLocked = 0 then awaitLock n else pure true
    | .error _ => awaitLock n

/-- How often the lock of the clock generator is looked for. -/
def lockPolls : Nat := 1000

/-- Programs the divisor for a clock, and gives the clock there is afterwards. -/
def programDivisor (pll : PllReading ν) (mhz : ν) : Routine ν ν := do
  match Pll.divisorFor pll.vco mhz with
  | .ok divisor => do
    tryWrite pll.vcoWord Reg.pllVco "VCO"
    tryWrite (Pll.encode divisor) Reg.pllClk0 "clock divisor"
    tryWrite 0x7 Reg.pllReconfig "PLL reconfigure"
    tryWrite 0x3 Reg.pllReconfig "PLL reconfigure"
    let clock := pll.vco / divisor
    reviseClock fun c ↦ { c with target := Quantity.trunc clock }
    note (.clockSet clock divisor)
    pure clock
  | .error (.tooFast divisor) => do
    note (.clockTooFast mhz divisor)
    pure pll.core
  | .error (.tooSlow divisor) => do
    note (.clockTooSlow mhz divisor)
    pure pll.core

/-- Resets the clock generator to the settings of the bitstream. -/
def resetClock : Routine ν Unit := do
  note .clockReset
  tryWrite 0x5 Reg.pllReconfig "PLL reset"
  tryWrite 0x1 Reg.pllReconfig "PLL reset"
  sleep 10_000
  tryWrite Reg.clockResetValue Reg.clockReset "clock reset"

/-- Waits for the lock, and goes on without it if it does not come. -/
def settleClock : Routine ν Unit := do
  if ← awaitLock lockPolls then pure () else note (.unlocked)

/-- Reads a parameter that a clock change would lose. -/
def saveParameter (addr : Word) : Routine ν Word :=
  readOr addr 0 "parameter saved across clock change"

/-- Writes back a parameter. -/
def restoreParameter (addr value : Word) : Routine ν Unit :=
  tryWrite value addr "restored parameter"

/-- Makes a clock change between saving and restoring the parameters it would lose. The change
gives the clock there is afterwards. -/
def changingClock (change : Routine ν ν) : Routine ν (Option ν) := do
  let items ← saveParameter Reg.itemCount
  let reciprocal ← saveParameter Reg.itemReciprocal
  let power ← saveParameter Reg.dagPower
  tryWrite Reg.dagPowerOn Reg.dagPower "generator power"
  let clock ← change
  restoreParameter Reg.itemCount items
  restoreParameter Reg.itemReciprocal reciprocal
  restoreParameter Reg.dagPower power
  reviseClock fun c ↦ { c with current := clock }
  pure (some clock)

/-- Reads the stock clock after a reset, keeping the clock from before if that fails. -/
def readStock (before : ν) : Routine ν ν := do
  match ← readPll with
  | some pll => do
    reviseClock fun c ↦ { c with baseline := pll.core }
    pure pll.core
  | none => do
    note (.stockUnknown before)
    pure before

/-- Does to the core clock what is asked, and gives the clock there is afterwards. Nothing is done
when the clock generator cannot be read. -/
def setClock (request : ClockRequest ν) : Routine ν (Option ν) := do
  match ← readPll with
  | none => do
    note (.clockUnchanged request)
    pure none
  | some pll =>
    match request with
    | .read => do
      reviseClock fun c ↦ { c with current := pll.core }
      pure (some pll.core)
    | .stock => changingClock do
      resetClock
      settleClock
      readStock pll.core
    | .target mhz => changingClock do
      let clock ← programDivisor pll mhz
      settleClock
      pure clock

end HashBoard.Routine
