import HashBoard.Routine.Request

/-!
# Routines

A routine is a tree of requests: each node asks for something and goes on with the answer, whatever
it is. It says nothing about who answers. Run against the simulated boards it has answers; in a
statement about every pattern of faults and every interleaving it has all of them.

Bounded repetition is recursion in the code that builds a routine. The loops that end only when
something outside tells them to (a search, the worker, the source of work) are `loop` nodes with an
explicit state, so that a statement about a loop is one about an invariant of that state.
-/

namespace HashBoard

/-- A routine with an answer in `α`. -/
inductive Routine (ν : Type) : Type → Type 1
  /-- Ends with an answer. -/
  | done {α : Type} (answer : α) : Routine ν α
  /-- Asks for something and goes on with the reply. -/
  | ask {α : Type} (request : Request ν) (next : Reply request → Routine ν α) : Routine ν α
  /-- Repeats a step on a state until it answers, then goes on. -/
  | loop {α σ β : Type} (state : σ) (step : σ → Routine ν (σ ⊕ β)) (next : β → Routine ν α) :
    Routine ν α

namespace Routine

variable {ν α β γ : Type}

/-- One routine after another. -/
def bind {α β : Type} : Routine ν α → (α → Routine ν β) → Routine ν β
  | .done a, f => f a
  | .ask r next, f => .ask r fun x ↦ (next x).bind f
  | .loop s step next, f => .loop s step fun b ↦ (next b).bind f

instance : Monad (Routine ν) where
  pure := .done
  bind := bind

theorem bind_assoc (p : Routine ν α) (f : α → Routine ν β) (g : β → Routine ν γ) :
    (p.bind f).bind g = p.bind fun a ↦ (f a).bind g := by
  induction p with
  | done a => rfl
  | ask r next ih => simp [bind, ih]
  | loop s step next _ ih => simp [bind, ih]

/-- Asks for something and ends with the reply. -/
def request (r : Request ν) : Routine ν (Reply r) := .ask r .done

/-- Repeats a step on a state until it answers. -/
def repeating {σ : Type} (state : σ) (step : σ → Routine ν (σ ⊕ β)) : Routine ν β :=
  .loop state step .done

/-- One routine for each element of a list, in order. -/
def forEach {ι : Type} (routine : ι → Routine ν Unit) : List ι → Routine ν Unit
  | [] => .done ()
  | i :: rest => (routine i).bind fun _ ↦ forEach routine rest

/-! ## The requests as routines -/

/-- Makes a call over the connection. -/
def call (c : Call) : Routine ν c.Answer := .ask (.call c) .done

/-- Mentions an event. -/
def note (event : Event ν) : Routine ν Unit := request (.note event)

/-- Takes the access lock. -/
def acquire : Routine ν Unit := request .acquire

/-- Gives the access lock back. -/
def release : Routine ν Unit := request .release

/-- The time. -/
def now : Routine ν Micros := request .now

/-- Lets time pass. -/
def sleep (span : Micros) : Routine ν Unit := request (.sleep span)

/-- What is remembered of the board. -/
def memory : Routine ν (Memory ν) := request .memory

/-- Changes what is remembered of the board. -/
def revise (f : Memory ν → Memory ν) : Routine ν Unit := request (.revise f)

/-- Changes the snapshot for onlookers. -/
def reviseStatus (f : Status ν → Status ν) : Routine ν Unit := revise fun m ↦ m.withStatus f

/-- Changes what is remembered of the clock. -/
def reviseClock (f : ClockState ν → ClockState ν) : Routine ν Unit := revise fun m ↦ m.withClock f

/-- Whether shutdown was requested. -/
def isCancelled : Routine ν Bool := request .isCancelled

/-- Gives the access lock back while time passes, then takes it again. -/
def suspend (span : Micros) : Routine ν Unit := do
  release
  sleep span
  acquire

end Routine

end HashBoard
