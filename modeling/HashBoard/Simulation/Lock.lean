/-!
# Access locks

A lock that is given to those who want it in the order they asked. Whoever gives it back hands it to
the first in the queue, so that nobody can take it in between, even if the first in the queue has
not noticed yet that it has it.
-/

namespace HashBoard.Simulation

/-- Tasks, by what they do. -/
inductive Role
  /-- The one everything else runs beside. -/
  | main
  /-- The worker of a board. -/
  | worker (board : Nat)
  /-- The kicker of a board. -/
  | kicker (board : Nat)
  /-- The source of work. -/
  | source
  /-- Does things to the others at set times. -/
  | visitor
  deriving DecidableEq, Repr

/-- A lock. -/
structure Lock where
  /-- Somebody has it, or was handed it. -/
  held : Bool := false
  /-- Who was handed it and has not noticed yet. -/
  handed : Option Role := none
  /-- Who wants it, the first first. -/
  queue : List Role := []
  deriving DecidableEq, Repr, Inhabited

namespace Lock

/-- Asks for the lock; answers whether it is there at once. -/
def ask (l : Lock) (role : Role) : Lock × Bool :=
  if l.held then ({ l with queue := l.queue ++ [role] }, false) else ({ l with held := true }, true)

/-- Gives the lock back. -/
def release (l : Lock) : Lock :=
  match l.queue with
  | [] => { l with held := false, handed := none }
  | role :: queue => { l with handed := some role, queue }

/-- Whether a role in the queue has got the lock by now. -/
def take? (l : Lock) (role : Role) : Option Lock :=
  if l.handed = some role then some { l with handed := none } else none

/-- Forgets about a role that no longer wants the lock. -/
def forget (l : Lock) (role : Role) : Lock :=
  if l.handed = some role then l.release
  else { l with queue := l.queue.filter (· ≠ role) }

end Lock

end HashBoard.Simulation
