import HashBoard.Board.Access
import HashBoard.Supply

/-!
# Setting the core supply

Each rail has a fixed sequence of register writes. A write that fails does not stop the sequence.
-/

namespace HashBoard.Routine

variable {ν : Type} [Quantity ν]

/-- Makes one write of a sequence and waits as long as it says. -/
def supplyStep (s : SupplyStep) : Routine ν Unit := do
  match ← write s.value s.addr with
  | .ok () => pure ()
  | .error fault => note (.regulatorFailed s.addr fault)
  if s.settle = 0 then pure () else sleep s.settle

/-- Makes the writes of a sequence. -/
def supplySteps (steps : List SupplyStep) : Routine ν Unit := forEach supplyStep steps

/-- Sets rail A; zero leaves it alone. -/
def setRailA (table : VoltageTable ν) (mv : Word) : Routine ν Unit :=
  if mv = 0 then pure ()
  else match Supply.checkRange .a mv with
    | .ok () => do
      let code := Supply.closestCode table (Supply.volts mv)
      note (.settingRailA mv code (Supply.voltage table code))
      supplySteps (Supply.wiperSteps code)
    | .error e => note (.voltageDropped e)

/-- Sets rail B after correcting its regulator; zero leaves it alone. -/
def setRailB (mv : Word) : Routine ν Unit :=
  if mv = 0 then pure ()
  else match Supply.checkRange .b mv with
    | .ok () => do
      note .correctingRailB
      supplySteps Supply.loopFix
      supplySteps Supply.overVoltageFix
      note (.settingRailB mv (Supply.railBCode ν mv))
      supplySteps (Supply.railBSteps (Supply.railBCode ν mv))
    | .error e => note (.voltageDropped e)

/-- Sets both rails. -/
def setVoltage (table : VoltageTable ν) (railA railB : Word) : Routine ν Unit := do
  setRailA table railA
  setRailB railB

end HashBoard.Routine
