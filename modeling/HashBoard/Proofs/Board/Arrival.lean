import HashBoard.Board.BringUp
import HashBoard.Proofs.Routine.Only

/-!
# What bringing a board up asks

Apart from the clock change it resets the clock with, bringing a board up asks who the board is,
sets its voltages, which writes the registers of the regulators and no other, and may load a saved
tune.
-/

namespace HashBoard

open Routine

variable {ν : Type} [Quantity ν]

/-- The registers of the regulators. -/
def Reg.regulators : List Word :=
  [Reg.railACtrl, Reg.railAFifo, Reg.railAGo, Reg.railBCtrl, Reg.railBFifo, Reg.railBGo]

theorem Supply.wiperSteps_regulate (code : Nat) :
    (wiperSteps code).all (·.addr ∈ Reg.regulators) := rfl

theorem Supply.railBSteps_regulate (code : Word) :
    (railBSteps code).all (·.addr ∈ Reg.regulators) := rfl

namespace Board

variable {P : Request ν → Prop} (quiet : ∀ r : Request ν, r.isQuiet → P r)
  (writes : ∀ value, ∀ addr ∈ Reg.regulators, P (.call (.write value addr)))
include quiet writes

omit [Quantity ν] in
theorem only_supplySteps {steps : List SupplyStep}
    (h : steps.all (·.addr ∈ Reg.regulators)) : (supplySteps steps : Routine ν _).Only P := by
  refine only_forEach fun step hstep ↦ ?_
  have haddr : step.addr ∈ Reg.regulators := of_decide_eq_true (List.all_eq_true.mp h step hstep)
  have settles : (if step.settle = 0 then pure () else sleep step.settle :
      Routine ν Unit).Only P := by
    split
    · trivial
    · exact only_request (quiet _ rfl)
  refine (only_write quiet (writes _ _ haddr)).bind fun x ↦ ?_
  cases x with
  | ok => exact settles
  | error fault => exact (only_note quiet rfl).bind fun _ ↦ settles

theorem only_setVoltage (table : VoltageTable ν) (railA railB : Word) :
    (setVoltage table railA railB).Only P := by
  have railA : (setRailA table railA).Only P := by
    rw [setRailA]
    split
    · trivial
    · split
      · refine (only_note quiet rfl).bind fun _ ↦ ?_
        exact only_supplySteps quiet writes (Supply.wiperSteps_regulate _)
      · exact only_note quiet rfl
  have railB : (setRailB railB : Routine ν _).Only P := by
    rw [setRailB]
    split
    · trivial
    · split
      · refine (only_note quiet rfl).bind fun _ ↦ ?_
        refine (only_supplySteps quiet writes rfl).bind fun _ ↦ ?_
        refine (only_supplySteps quiet writes rfl).bind fun _ ↦ ?_
        refine (only_note quiet rfl).bind fun _ ↦ ?_
        exact only_supplySteps quiet writes (Supply.railBSteps_regulate _)
      · exact only_note quiet rfl
  exact railA.bind fun _ ↦ railB

omit [Quantity ν] writes in
theorem only_readIdentity : (readIdentity : Routine ν _).Only P := by
  have word {addr : Word} (h : addr ∉ Reg.telling) (default : Word) (what : String) :
      (identityWord addr default what : Routine ν _).Only P := by
    refine (only_request (quiet (.call (.read addr)) (by simpa [Request.isQuiet] using h))).bind
      fun x ↦ ?_
    cases x with
    | ok value => trivial
    | error fault => exact (only_note quiet rfl).bind fun _ ↦ trivial
  refine (word (by decide) _ _).bind fun lo ↦ ?_
  refine (word (by decide) _ _).bind fun mid ↦ ?_
  refine (word (by decide) _ _).bind fun hi ↦ ?_
  refine (word (by decide) _ _).bind fun deviceType ↦ ?_
  exact (word (by decide) _ _).bind fun bitstream ↦ trivial

omit [Quantity ν] quiet writes in
theorem only_attempt {c : Routine ν (Except LinkFault Unit)} (h : c.Only P)
    {failed : LinkFault → Event ν} (mentions : ∀ fault, P (.note (failed fault))) :
    (attempt c failed).Only P := by
  refine h.bind fun x ↦ ?_
  cases x with
  | ok => trivial
  | error fault => exact only_request (mentions fault)

omit [Quantity ν] writes in
theorem only_loadTune (b : Board) (applies : P (.revise fun m ↦ { m with autoTune := false })) :
    (b.loadTune : Routine ν _).Only P := by
  refine (only_note quiet rfl).bind fun _ ↦ ?_
  split
  · trivial
  · trivial
  · refine (only_request (quiet (.fileExists _) rfl)).bind fun found ↦ ?_
    split
    · refine (only_request (quiet (.loadTune ..) rfl)).bind fun loaded ↦ ?_
      split
      · exact (only_note quiet rfl).bind fun _ ↦ only_request applies
      · trivial
    · trivial

end Board

end HashBoard
