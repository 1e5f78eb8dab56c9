import HashBoard.Board.Basic
import HashBoard.Board.Clock

/-!
# Watching a board

A telemetry sample reads the die temperature, the clock, the supply and the health of the stacks. A
board with an unhealthy stack is halted: the core is stopped, the generator is powered down, and the
board takes no more work. A health word that cannot be read counts as a healthy one.
-/

namespace HashBoard.Board

open Routine

variable {ν : Type} [Quantity ν]

/-- A reading, or zero and an event if there is none. -/
def reading (addr : Word) (ofWord : Word → ν) (unread : LinkFault → Event ν) : Routine ν ν := do
  match ← read addr with
  | .ok raw => pure (ofWord raw)
  | .error fault => do
    note (unread fault)
    pure (Quantity.ofNat 0)

/-- Reads everything that is watched. -/
def sample : Routine ν (Telemetry ν) := do
  let temperature ← reading Reg.temperature Telemetry.temperatureOfWord .temperatureUnread
  let clock ← setClock .read
  let supply ← reading Reg.supply Telemetry.supplyOfWord .supplyUnread
  let health ← readOr Reg.stackHealth Reg.stackHealthSafe "stack health"
  pure
    { temperature
      supply
      clock := clock.getD (Quantity.ofNat 0)
      health := StackHealth.ofWord health }

/-- Mentions the status line. -/
def noteAverages (b : Board) (t : Telemetry ν) : Routine ν Unit := do
  let m ← memory
  let stage ← request .tuningStage
  note (.averages b.index m.averager.latest m.applied m.clock.target t b.settings.showStackStats
    stage)

/-- Stops the core, powers the generator down, and keeps the worker from starting another search. -/
def emergencyHalt (health : StackHealth) : Routine ν Unit := do
  stopCore
  tryWrite Reg.dagPowerOff Reg.dagPower "generator power"
  note (if health.tripped then .stackTripped health else .stackUncalibrated health)
  revise fun m ↦ { m with halted := true, busy := true, newWork := true }
  call .kick
  request .wake

/-- Takes a telemetry sample, mentions it, and halts the board if a stack is unhealthy. -/
def checkTelemetry (b : Board) : Routine ν (Telemetry ν) := do
  let t ← sample
  b.noteAverages t
  if t.health.requiresHalt then emergencyHalt t.health
  reviseStatus fun s ↦ { s with telemetry := some t, clock := t.clock }
  pure t

end HashBoard.Board
