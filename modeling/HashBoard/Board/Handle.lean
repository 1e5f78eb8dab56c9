import HashBoard.Board.Watch

/-!
# Reaching a running board

What others may do to a board at any time, also while its worker changes the epoch or searches.
-/

namespace HashBoard.Board

open Routine

variable {ν : Type} [Quantity ν]

/-- Whether an epoch is being changed or the board halted itself. -/
def isBusy : Routine ν Bool := do
  let m ← memory
  pure m.busy

/-- Says that there is a reason to look for other work. The wait for an interrupt is ended unless
the board is busy, and a parked worker is woken. -/
def kick : Routine ν Unit := do
  revise fun m ↦ { m with newWork := true }
  if !(← isBusy) then call .kick
  request .wake

/-- Requests shutdown, and says so to the worker. -/
def shutdown : Routine ν Unit := do
  request .cancel
  kick

/-- Takes a telemetry sample. -/
def sampleTelemetry (b : Board) : Routine ν (Telemetry ν) := do
  acquire
  let t ← b.checkTelemetry
  release
  pure t

/-- Closes the connection. -/
def disconnect : Routine ν Unit := do
  call .disconnect
  note .disconnected

end HashBoard.Board
