import HashBoard.Simulation.World
import HashBoard.Worker

/-!
# Running routines in the simulated world

One routine runs in the main seat and others beside it. Whoever runs goes on until a request keeps
it waiting. Then the first of the others that can go on does, and the main routine only when none of
them can. When nobody can go on, the clock moves to the earliest point of time that somebody waits
for; if the main routine is among those, it goes first.
-/

namespace HashBoard

open Simulation

/-- How far a task has come. -/
inductive Stage (ν α : Type) : Type 1
  /-- It can go on with a routine. -/
  | ready (rest : Routine ν α)
  /-- It waits, not longer than to a point of time, and goes on with the reply. -/
  | waiting (request : Request ν) (deadline : Option Micros) (next : Reply request → Routine ν α)
  /-- It ended. -/
  | ended (answer : α)

/-- A task beside the main one. -/
structure Task (ν : Type) : Type 1 where
  /-- Who it is. -/
  seat : Seat
  /-- How far it has come. -/
  stage : Stage ν Unit

/-- A task that was not run yet. -/
def Task.start {ν : Type} (seat : Seat) (routine : Routine ν Unit) : Task ν :=
  ⟨seat, .ready routine⟩

/-- The world with a routine in the main seat and others beside it. -/
structure Play (ν α : Type) : Type 1 where
  /-- What they ask. -/
  world : World ν
  /-- Who the main routine is. -/
  seat : Seat
  /-- How far the main routine has come. -/
  main : Stage ν α
  /-- The others. -/
  others : List (Task ν)

namespace Stage

variable {ν α : Type} [Quantity ν]

/-- What can go on, if anything can. -/
def resume? (w : World ν) (seat : Seat) : Stage ν α → Option (World ν × Routine ν α)
  | .ready rest => some (w, rest)
  | .waiting request deadline next =>
    (w.finish? seat deadline request).map fun (w, reply) ↦ (w, next reply)
  | .ended _ => none

/-- The point of time at which the task can go on at the latest. -/
def deadline? : Stage ν α → Option Micros
  | .waiting _ deadline _ => deadline
  | .ready _ | .ended _ => none

/-- Whether the task has ended. -/
def isEnded : Stage ν α → Bool
  | .ended _ => true
  | .ready _ | .waiting .. => false

end Stage

namespace World

variable {ν α : Type} [Quantity ν]

/-- Runs a routine until a request keeps it waiting, but not for more than `n` requests and rounds
of loops. -/
def run : (n : Nat) → World ν → Seat → Routine ν α → World ν × Stage ν α
  | 0, w, _, rest => (w, .ready rest)
  | _ + 1, w, _, .done answer => (w, .ended answer)
  | n + 1, w, seat, .ask request next =>
    match w.begin seat request with
    | (w, .answered reply) => run n w seat (next reply)
    | (w, .waiting deadline) => (w, .waiting request deadline next)
  | n + 1, w, seat, .loop state step next =>
    run n w seat ((step state).bind fun
      | .inl state => .loop state step next
      | .inr answer => next answer)

/-- How much a task may do before somebody else gets a turn. -/
def patience : Nat := 1_000_000

/-- Runs the first of some tasks that can go on, if any can. -/
def runFirst? (w : World ν) : List (Task ν) → Option (World ν × List (Task ν))
  | [] => none
  | task :: rest =>
    match task.stage.resume? w task.seat with
    | some (w, routine) =>
      let (w, stage) := w.run patience task.seat routine
      some (w, { task with stage } :: rest)
    | none => (w.runFirst? rest).map fun (w, rest) ↦ (w, task :: rest)

end World

namespace Play

variable {ν α : Type} [Quantity ν]

/-- Fulfils a wish about the tasks. -/
def fulfil : List (Task ν) → TaskWish → List (Task ν)
  | tasks, .kicker seat seen =>
    tasks ++ [.start { role := .kicker seat.board, board := seat.board } (Worker.kicker seen)]
  | tasks, .without role => tasks.filter fun t ↦ t.seat.role ≠ role

/-- Fulfils the wishes about the tasks and drops the tasks that ended. -/
def tidy (p : Play ν α) : Play ν α :=
  let others := (p.world.wishes.reverse.foldl fulfil p.others).filter fun t ↦ !t.stage.isEnded
  { p with
    world := { p.world with wishes := [], alive := others.map (·.seat.role) }
    others }

/-- The earlier of two points of time, if there are any. -/
def earlier : Option Micros → Option Micros → Option Micros
  | some a, some b => some (min a b)
  | a, none => a
  | none, b => b

/-- The earliest point of time that somebody waits for. -/
def deadline? (p : Play ν α) : Option Micros :=
  p.others.foldl (fun d t ↦ earlier d t.stage.deadline?) p.main.deadline?

/-- Lets the main routine go on, if it can. -/
def runMain? (p : Play ν α) : Option (Play ν α) :=
  (p.main.resume? p.world p.seat).map fun (world, rest) ↦
    let (world, main) := world.run World.patience p.seat rest
    { p with world, main }.tidy

/-- Lets the first of the others go on that can, if any can. -/
def runOthers? (p : Play ν α) : Option (Play ν α) :=
  (p.world.runFirst? p.others).map fun (world, others) ↦ { p with world, others }.tidy

/-- Moves the clock, if somebody waits for a point of time. -/
def advance? (p : Play ν α) : Option (Play ν α) :=
  p.deadline?.map fun t ↦
    let p := { p with world := { p.world with now := max p.world.now t } }
    p.runMain?.getD p

/-- One step: somebody goes on, or the clock moves. Without either the play is stuck. -/
def step? (p : Play ν α) : Option (Play ν α) := p.runOthers? <|> p.runMain? <|> p.advance?

/-- Takes steps until the main routine ends, but at most `n`. What was begun beside it goes on with
whatever runs next. -/
def finish? : (n : Nat) → Play ν α → Option (World ν × α × List (Task ν))
  | 0, _ => none
  | n + 1, p =>
    match p.main with
    | .ended answer => some (p.world, answer, p.others)
    | .ready _ | .waiting .. => p.step?.bind (finish? n)

/-- A bound on the steps of a play that no play worth watching reaches. -/
def longEnough : Nat := 1_000_000_000_000

end Play

namespace World

variable {ν α : Type} [Quantity ν]

/-- Runs a routine to its end, with others beside it. The routine goes first. Nothing is the answer
if it would never end. -/
def play? (w : World ν) (seat : Seat) (routine : Routine ν α) (others : List (Task ν)) :
    Option (World ν × α × List (Task ν)) :=
  let p : Play ν α := { world := w, seat, main := .ready routine, others }
  let p := p.tidy
  (p.runMain?.getD p).finish? Play.longEnough

end World

end HashBoard
