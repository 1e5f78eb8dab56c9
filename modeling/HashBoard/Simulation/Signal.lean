/-!
# Signals

A signal wakes one waiter. Raised while nobody waits it is kept, but only once, and the next wait
ends at once. A waiter that was woken and has not gone on yet waits no longer, so a signal raised
then is kept for the wait after.
-/

namespace HashBoard.Simulation

/-- A signal with at most one waiter. -/
structure Signal where
  /-- Raised while nobody waited. -/
  kept : Bool := false
  /-- Somebody waits and was not woken yet. -/
  awaited : Bool := false
  /-- The waiter was woken and has not gone on yet. -/
  woken : Bool := false
  deriving DecidableEq, Repr, Inhabited

namespace Signal

/-- Raises the signal. -/
def raise (s : Signal) : Signal :=
  if s.awaited then { s with awaited := false, woken := true } else { s with kept := true }

/-- Begins a wait; answers whether it ended at once. -/
def begin (s : Signal) : Signal × Bool :=
  if s.kept then ({ s with kept := false }, true) else ({ s with awaited := true }, false)

/-- Ends a wait, whatever ended it. -/
def finish (s : Signal) : Signal := { s with awaited := false, woken := false }

end Signal

end HashBoard.Simulation
