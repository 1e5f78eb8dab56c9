import HashBoard.Simulation.SimulatedBoard

/-!
# Disturbances

Changes made to a simulated board from outside, in one go: to its registers, to what fails, and to
the nonces it finds.
-/

namespace HashBoard

open Simulation

/-- Changes to a simulated board, made in the order of the fields. -/
structure Disturbance where
  /-- Registers and their new contents. -/
  registers : List (Word × Word) := []
  /-- Registers and the values that reads of them give first. -/
  scripts : List (Word × List Word) := []
  /-- Registers and what is added to them after each read. -/
  steps : List (Word × Word) := []
  /-- Registers that no longer advance. -/
  stopped : List Word := []
  /-- Registers that can no longer be read. -/
  brokenReads : List Word := []
  /-- Registers that can no longer be written. -/
  brokenWrites : List Word := []
  /-- Addresses and how many copies from the host to them fail. -/
  uploadFailures : List (UInt64 × Nat) := []
  /-- The number of the copy within the stacks that fails. -/
  brokenMove : Option Nat := none
  /-- The generators no longer finish. -/
  holding : Bool := false
  /-- Waiting for an interrupt fails. -/
  interruptsBroken : Bool := false
  /-- Nonces the board finds. -/
  nonces : List UInt64 := []
  /-- What was recorded is dropped. -/
  clearLog : Bool := false
  deriving Inhabited

/-- Makes the changes. -/
def Disturbance.apply (d : Disturbance) (b : SimulatedBoard) : SimulatedBoard :=
  let b :=
    { b with
      registers := d.registers.foldl (fun t e ↦ t.put e.1 e.2) b.registers
      scripts := d.scripts.foldl (fun t e ↦ t.put e.1 (t.getD e.1 [] ++ e.2)) b.scripts
      steps := d.stopped.foldl Table.remove (d.steps.foldl (fun t e ↦ t.put e.1 e.2) b.steps)
      brokenReads := d.brokenReads ++ b.brokenReads
      brokenWrites := d.brokenWrites ++ b.brokenWrites
      uploadFailures := d.uploadFailures.foldl (fun t e ↦ t.put e.1 e.2) b.uploadFailures
      brokenMove := d.brokenMove <|> b.brokenMove
      holding := d.holding || b.holding
      interruptsBroken := d.interruptsBroken || b.interruptsBroken }
  let b := d.nonces.foldl SimulatedBoard.pushNonce b
  if d.clearLog then b.clearLog else b

end HashBoard
