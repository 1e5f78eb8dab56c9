import Mathlib.Logic.Function.Basic
import HashBoard.Proofs.Routine.Path
import HashBoard.Simulation.World
import HashBoard.Worker

/-!
# Scenes

Several parties act on one board: its owner, who runs one job after another, the kicker of the
owner, and guests who come at any time and in any number. What they share is the memory of the
board, its access lock and the feed of work. A scene is all of that together with what is left of
each party's routine, and a run is any sequence of steps, each by any party.

## What is left open

* Who goes next. A step is a single request, so that a run may be interleaved more finely than the
  suspension points of the routines require; a statement about every run is about those too.
* What the board answers, and everything else that is not shared. A statement that needs an honest
  board says so about the list of what occurred.
* When the lock is taken, as long as it is free, and by whom.
-/

namespace HashBoard

/-- Who takes part in a scene. -/
inductive Party
  /-- Whoever runs the jobs. -/
  | owner
  /-- The task that turns publications into kicks. -/
  | kicker
  /-- Somebody with a handle. -/
  | guest (n : Nat)
  deriving DecidableEq, Repr

/-! ## What is shared -/

/-- What the parties of a scene share. -/
structure Shared (ν : Type) where
  /-- What is remembered of the board. -/
  memory : Memory ν
  /-- Who holds the access lock. -/
  holder : Option Party := none
  /-- The work there is. -/
  feed : Feed := {}

namespace Shared

variable {ν : Type}

/-- What a request of a party makes of it. The lock can only be given back by its holder, and a feed
that is closed stays as it is. -/
def after (sh : Shared ν) (party : Party) : Request ν → Shared ν
  | .acquire => { sh with holder := some party }
  | .release => { sh with holder := if sh.holder = some party then none else sh.holder }
  | .revise f => { sh with memory := f sh.memory }
  | .publish work =>
    if sh.feed.isOpen then
      { sh with feed := { sh.feed with version := sh.feed.version + 1, latest := work } }
    else sh
  | .closeFeed => { sh with feed := { sh.feed with isOpen := false } }
  | _ => sh

/-- What a request may be answered with. Only a free lock is taken, and a publication other than the
one that was seen is reported, or that no more will come. -/
def Permits (sh : Shared ν) : (r : Request ν) → Reply r → Prop
  | .acquire, _ => sh.holder = none
  | .memory, m => m = sh.memory
  | .subscribe, n => n = sh.feed.version
  | .latestWork, work => work = sh.feed.latest
  | .nextChange seen, some n => n = sh.feed.version ∧ n ≠ seen
  | .nextChange seen, none => sh.feed.version = seen ∧ sh.feed.isOpen = false
  | _, _ => True

end Shared

/-! ## Jobs and guests -/

/-- The jobs an owner may be given. -/
structure Repertoire (ν : Type) where
  /-- A job. -/
  Job : Type
  /-- What it ends with. -/
  Answer : Job → Type
  /-- How it is done. -/
  routine : (job : Job) → Routine ν (Answer job)

/-- A call of the driver's interface that needs the board to itself. -/
inductive Errand
  /-- Make the board ready for an epoch. -/
  | prepare (ctx : EpochContext)
  /-- Search a unit of work. -/
  | search (work : Work)

/-- The errands of a board, one at a time and in any order. -/
def Board.errands {ν : Type} [Quantity ν] (b : Board) : Repertoire ν where
  Job := Errand
  Answer
    | .prepare _ => Except BoardError EpochOutcome
    | .search _ => Except BoardError SearchExit
  routine
    | .prepare ctx => b.prepareEpoch ctx
    | .search work => b.search work

/-- The one job of a worker. -/
def Worker.duty {ν : Type} [Quantity ν] (b : Board) : Repertoire ν where
  Job := Unit
  Answer _ := Except BoardError Unit
  routine _ := Worker.run b

/-- What a guest comes for. -/
inductive Purpose
  /-- To take a telemetry sample. -/
  | telemetry (b : Board)
  /-- To say that there is a reason to look for other work. -/
  | kick
  /-- To request shutdown. -/
  | shutdown
  /-- To put other work, or none, into the feed. -/
  | publish (work : Option Work)
  /-- To close the feed. -/
  | close

/-- What a guest does. -/
def Purpose.routine {ν : Type} [Quantity ν] : Purpose → Routine ν Unit
  | .telemetry b => do
    let _ ← b.sampleTelemetry (ν := ν)
  | .kick => Board.kick
  | .shutdown => Board.shutdown
  | .publish work => Routine.request (.publish work)
  | .close => Routine.request .closeFeed

/-! ## Runs -/

/-- Something that occurs in a scene. -/
inductive Occurrence {ν : Type} (R : Repertoire ν)
  /-- The owner begins a job. -/
  | begins (job : R.Job)
  /-- The owner ends a job with an answer. -/
  | ends (job : R.Job) (answer : R.Answer job)
  /-- A guest comes. -/
  | arrives (n : Nat) (purpose : Purpose)
  /-- A party asks for something and is answered. -/
  | talks (party : Party) (said : Answered ν)

/-- What an occurrence makes of what is shared. -/
def Shared.upon {ν : Type} {R : Repertoire ν} (sh : Shared ν) : Occurrence R → Shared ν
  | .talks party said => sh.after party said.request
  | _ => sh

/-- What is shared after some occurrences. -/
def Shared.afterAll {ν : Type} {R : Repertoire ν} (sh : Shared ν) (es : List (Occurrence R)) :
    Shared ν := es.foldl upon sh

/-- What is shared, and what is left of each party's routine. -/
structure Scene {ν : Type} (R : Repertoire ν) where
  /-- What is shared. -/
  shared : Shared ν
  /-- The owner's job, if there is one. -/
  owner : Option ((job : R.Job) × Routine ν (R.Answer job)) := none
  /-- The kicker. -/
  kicker : Routine ν Unit := .done ()
  /-- The guests; one who is not there has nothing left to do. -/
  guests : Nat → Routine ν Unit := fun _ ↦ .done ()

namespace Scene

variable {ν : Type} [Quantity ν] {R : Repertoire ν}

/-- A scene before anybody came. -/
def quiet (memory : Memory ν) (feed : Feed := {}) : Scene R := { shared := { memory, feed } }

/-- The kicker after a request of the owner. -/
def kickerAfter (kicker : Routine ν Unit) : Request ν → Routine ν Unit
  | .startKicker seen => Worker.kicker seen
  | .stopKicker => .done ()
  | _ => kicker

/-- One step of a scene. -/
inductive Step : Scene R → Occurrence R → Scene R → Prop
  /-- An owner without a job begins one. -/
  | begins {s : Scene R} (job : R.Job) : s.owner = none →
    Step s (.begins job) { s with owner := some ⟨job, R.routine job⟩ }
  /-- The owner's job comes to its end. -/
  | ends {s : Scene R} {job : R.Job} {p : Routine ν (R.Answer job)} {a : R.Answer job} :
    s.owner = some ⟨job, p⟩ → Routine.Ends p a → Step s (.ends job a) { s with owner := none }
  /-- A guest who is not there comes. -/
  | arrives {s : Scene R} (n : Nat) (purpose : Purpose) : Routine.Ends (s.guests n) () →
    Step s (.arrives n purpose) { s with guests := Function.update s.guests n purpose.routine }
  /-- The owner is answered. -/
  | owner {s : Scene R} {job : R.Job} {p q : Routine ν (R.Answer job)} {r : Request ν}
    {x : Reply r} : s.owner = some ⟨job, p⟩ → Routine.Steps p r x q → s.shared.Permits r x →
    Step s (.talks .owner ⟨r, x⟩)
      { s with
        shared := s.shared.after .owner r
        owner := some ⟨job, q⟩
        kicker := kickerAfter s.kicker r }
  /-- The kicker is answered. -/
  | kicker {s : Scene R} {q : Routine ν Unit} {r : Request ν} {x : Reply r} :
    Routine.Steps s.kicker r x q → s.shared.Permits r x →
    Step s (.talks .kicker ⟨r, x⟩) { s with shared := s.shared.after .kicker r, kicker := q }
  /-- A guest is answered. -/
  | guest {s : Scene R} {n : Nat} {q : Routine ν Unit} {r : Request ν} {x : Reply r} :
    Routine.Steps (s.guests n) r x q → s.shared.Permits r x →
    Step s (.talks (.guest n) ⟨r, x⟩)
      { s with
        shared := s.shared.after (.guest n) r
        guests := Function.update s.guests n q }

/-- A run of a scene, with everything that occurs in it. -/
inductive Runs : Scene R → List (Occurrence R) → Scene R → Prop
  | nil (s : Scene R) : Runs s [] s
  | snoc {s t u : Scene R} {es : List (Occurrence R)} {e : Occurrence R} :
    Runs s es t → Step t e u → Runs s (es ++ [e]) u

end Scene

end HashBoard
