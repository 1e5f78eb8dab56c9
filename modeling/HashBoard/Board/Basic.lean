import HashBoard.Board.Access

/-!
# Boards

What is fixed about a connected board: its number, its settings and what it said about itself.
-/

namespace HashBoard

/-- A connected board. -/
structure Board where
  /-- Its number. -/
  index : Nat
  /-- What it is run with. -/
  settings : Settings
  /-- What it said about itself. -/
  identity : Identity
  deriving Repr

namespace Board

/-- The key its tunes are saved under. -/
def tuneKey (b : Board) : String := b.identity.calibrationId b.settings.railA b.settings.railB

/-- Makes a fault fatal if the settings say so. -/
def escalate {ν : Type} (b : Board) (what cause : String) : Routine ν (Except BoardError Unit) := do
  if b.settings.dieOnError then
    Routine.note (.escalated what cause)
    pure (.error (.escalated (what ++ ": " ++ cause)))
  else pure (.ok ())

end Board

end HashBoard
