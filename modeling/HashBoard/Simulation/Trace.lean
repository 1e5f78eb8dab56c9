import HashBoard.Simulation.Link
import HashBoard.Text.Runs

/-!
# Traces

What went over a connection, as lines, shortened to what is worth reading.
-/

namespace HashBoard

open Text

/-- How much of a trace is shown. -/
inductive TraceMode
  /-- Everything, long series of copies cut short. -/
  | all
  /-- What changes the board, long series of copies cut short. -/
  | changes
  /-- Nothing. -/
  | none
  /-- Everything, copies too. -/
  | full
  deriving DecidableEq, Repr

namespace TraceMode

/-- Whether an exchange is shown. -/
def shows (mode : TraceMode) (e : Exchange) : Bool :=
  match mode with
  | .all | .full => true
  | .changes => e.isChange
  | .none => false

/-- A line about a copy within the stacks. -/
def isMove (line : String) : Bool := line.startsWith "d "

/-- What stands for `n` copies that are not shown. -/
def omitted (n : Nat) : String := "d ..." ++ toString n

/-- The lines of a trace. -/
def lines (mode : TraceMode) (exchanges : List Exchange) : List String :=
  let lines := condense ((exchanges.filter mode.shows).map Exchange.line)
  if mode = .full then lines else thin isMove omitted lines

end TraceMode

end HashBoard
