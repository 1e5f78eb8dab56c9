import HashBoard.Simulation.World

/-!
# Trying a simulated board out

Calls made to a simulated board one after the other, without a driver. Only a wait for an interrupt
takes time, and nothing happens while it lasts.
-/

namespace HashBoard

/-- A simulated board that is being tried out. -/
structure Trial (ν : Type) where
  /-- The board. -/
  board : SimulatedBoard
  /-- The time. -/
  now : Micros := 0
  /-- What was mentioned, the last first. -/
  events : List (Event ν) := []

namespace Trial

variable {ν : Type} (t : Trial ν)

/-- The trial with the board after a call, and the answer of the call. -/
def answered {α : Type} (r : SimulatedBoard × α) : Trial ν × α := ({ t with board := r.1 }, r.2)

/-- Makes a call. -/
def perform : (c : Call) → Trial ν × c.Answer
  | .awaitInterrupt _ timeout =>
    match t.board.beginWait with
    | (board, some answer) => ({ t with board }, answer)
    | (board, none) =>
      { t with now := max t.now (World.wholeMillis (t.now + timeout)) }.answered board.finishWait
  | .write value addr =>
    match t.board.write value addr with
    | (board, .ok ()) =>
      ({ t with board, events := .simulatedWrite addr value :: t.events }, .ok ())
    | (board, .error fault) => ({ t with board }, .error fault)
  | c => t.answered (t.board.perform c)

/-- Changes the board. -/
def disturb (d : Disturbance) : Trial ν := { t with board := d.apply t.board }

end Trial

end HashBoard
