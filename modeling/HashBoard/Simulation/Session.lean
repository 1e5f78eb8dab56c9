import HashBoard.Board.BringUp
import HashBoard.Simulation.Schedule
import HashBoard.Synthetic.Source

/-!
# Sessions with a simulated board

A session brings up one simulated board and takes steps with it one after the other: changing the
epoch, searching, sampling, waiting. While a step runs a visitor can do things at set times, and
leaves when the step ends. After each step the session takes down what came of it, what went over
the connection, and what is remembered of the board.
-/

namespace HashBoard

open Simulation Routine

/-- What is set up before a session. -/
structure Setup (ν : Type) where
  /-- The board before it is connected. -/
  board : SimulatedBoard
  /-- The calls that fail. -/
  faults : List PlannedFault := []
  /-- What the board is run with. -/
  settings : Settings := {}
  /-- The tuning, if there is one. -/
  tuning : Option (Tuning ν) := none
  /-- The address of the board, as it is written. -/
  address : String
  /-- The number of the board. -/
  index : Nat := 0
  /-- The board cannot be connected to. -/
  refuses : Bool := false
  /-- Files that exist. -/
  files : String → Bool := fun _ ↦ false

/-- Something that is done to a running board or to the work there is. -/
inductive Deed
  /-- Says that there is a reason to look for other work. -/
  | kick
  /-- Requests shutdown and says so. -/
  | shutdown
  /-- Requests shutdown. -/
  | cancel
  /-- Takes a telemetry sample. -/
  | telemetry
  /-- Changes the board and adds faults to the plan. -/
  | disturb (disturbance : Disturbance) (faults : List PlannedFault)
  /-- Publishes work, or none. -/
  | publish (work : Option Work)
  /-- Publishes the next synthetic work. -/
  | publishNext (kind : Synthetic)
  /-- No more work will come. -/
  | close
  /-- Nothing. -/
  | idle

/-- A deed with the time it is done at, counted from the start of what it is done to. -/
structure Visit where
  /-- The time. -/
  time : Micros
  /-- The deed. -/
  deed : Deed

namespace Deed

/-- What a deed comes to, given where epochs are looked up. Synthetic work is published by its
source alone: whoever publishes asks the source for the next piece, and can neither take it back nor
end it. -/
def under : Almanac → Deed → Deed
  | .synthetic kind, .publish (some _) => .publishNext kind
  | .synthetic _, .publish none => .idle
  | .synthetic _, .close => .idle
  | _, deed => deed

/-- The change of the board that a deed makes. -/
def change : Deed → Disturbance × List PlannedFault
  | .disturb disturbance faults => (disturbance, faults)
  | _ => ({}, [])

variable {ν : Type} [Quantity ν]

/-- Does a deed; a change of the board is the one prepared under number `n`. -/
def perform (b : Board) (n : Nat) : Deed → Routine ν Unit
  | .kick => Board.kick
  | .shutdown => Board.shutdown
  | .cancel => request .cancel
  | .telemetry => do
    let _ ← b.sampleTelemetry (ν := ν)
    pure ()
  | .disturb .. => request (.outside n)
  | .publish work => request (.publish work)
  | .publishNext kind => kind.publishNext
  | .close => request .closeFeed
  | .idle => pure ()

end Deed

namespace Visit

variable {ν : Type} [Quantity ν]

/-- Makes visits one after the other, the first of them being number `n`. -/
def perform (b : Board) (start : Micros) : (n : Nat) → List Visit → Routine ν Unit
  | _, [] => pure ()
  | n, visit :: rest => do
    request (.sleepUntil (start + visit.time))
    visit.deed.perform b n
    perform b start (n + 1) rest

/-- The seat of a visitor. -/
def seat : Seat := { role := .visitor, board := 0 }

/-- A visitor who makes visits, the first being number 1. -/
def visitor (b : Board) (visits : List Visit) : Task ν :=
  .start seat do
    let start ← now
    perform b start 1 visits

end Visit

/-- A step of a session. -/
inductive Step
  /-- Makes the board ready for an epoch. -/
  | prepare (ctx : EpochContext)
  /-- Searches; nobody may be there to take nonces. -/
  | search (work : Work) (sinkOpen : Bool)
  /-- Takes a telemetry sample. -/
  | telemetry
  /-- Does something to the board. -/
  | deed (deed : Deed)
  /-- Parks. -/
  | park (span : Micros)
  /-- Lets time pass. -/
  | sleep (span : Micros)
  /-- Closes the connection. -/
  | disconnect

/-- What came of a step. -/
inductive Outcome (ν : Type)
  /-- The board was brought up. -/
  | broughtUp (board : Board) (mask : Word) (timeout : Option Micros)
  /-- The address is none. -/
  | misaddressed (error : HostError)
  /-- The board could not be brought up. -/
  | refused (error : BoardError)
  /-- An epoch was changed, or not. -/
  | prepared (result : Except BoardError EpochOutcome)
  /-- A search ended. -/
  | searched (result : Except BoardError SearchExit) (solutions : List Solution)
  /-- A telemetry sample. -/
  | sampled (telemetry : Telemetry ν)
  /-- The connection is open, or not. -/
  | connection (isOpen : Bool)
  /-- Nothing to tell. -/
  | nothing

/-- What the tuning was told. -/
structure TuningCalls (ν : Type) where
  /-- Checks, in order. -/
  deltas : List UInt64
  /-- Clocks it was started at, in order. -/
  starts : List ν
  /-- Keys it was asked for, in order. -/
  loads : List String

/-- What is taken down after a step. -/
structure Entry (ν : Type) where
  /-- What came of it. -/
  outcome : Outcome ν
  /-- The time. -/
  time : Micros
  /-- What went over the connection since the entry before, in order. -/
  exchanges : List Exchange
  /-- The snapshot for onlookers. -/
  status : Status ν
  /-- The board is busy. -/
  busy : Bool
  /-- The board halted itself. -/
  halted : Bool
  /-- What the tuning was told since the entry before, if there is one. -/
  tuning : Option (TuningCalls ν)

namespace Tuning

variable {ν : Type}

/-- What the tuning was told. -/
def calls (t : Tuning ν) : TuningCalls ν := ⟨t.deltas.reverse, t.starts.reverse, t.loads.reverse⟩

/-- The tuning with nothing taken down. -/
def cleared (t : Tuning ν) : Tuning ν := { t with deltas := [], starts := [], loads := [] }

end Tuning

namespace Session

variable {ν : Type} [Quantity ν]

/-- The seat of whoever takes the steps. -/
def seat : Seat := { role := .main, board := 0 }

/-- The world before a session. -/
def world (s : Setup ν) (almanac : Almanac) : World ν :=
  { sites :=
      #[{ link := { board := s.board, plan := s.faults }
          refuses := s.refuses
          memory := Memory.start 0 false
          tuning := s.tuning }]
    almanac
    files := s.files }

/-- Takes down what came of a step. -/
def takeDown (w : World ν) (outcome : Outcome ν) : World ν × Entry ν :=
  let site := w.site 0
  let entry : Entry ν :=
    { outcome
      time := w.now
      exchanges := site.link.exchanges.reverse
      status := site.memory.status
      busy := site.memory.busy
      halted := site.memory.halted
      tuning := site.tuning.map Tuning.calls }
  let site :=
    { site with
      link := { site.link with exchanges := [] }, tuning := site.tuning.map Tuning.cleared }
  ({ w.setSite 0 site with solutions := [] }, entry)

/-- Runs a routine with others beside it and a visitor who makes visits. The change prepared under
number 0 is the routine's own. Nothing is the answer if the routine would never end. -/
def visited? {α : Type} (w : World ν) (b : Board) (own : Disturbance × List PlannedFault)
    (routine : Routine ν α) (others : List (Task ν)) (visits : List Visit) :
    Option (World ν × α) :=
  let changes := own :: visits.map fun v ↦ v.deed.change
  let w : World ν := { w with changes := changes.toArray }
  match w.play? seat routine (others ++ [Visit.visitor b visits]) with
  | some (w, answer, _) => some (w.forget Visit.seat, answer)
  | none => none

/-- Brings the board up, unless its address is none. -/
def bringUp? (s : Setup ν) (w : World ν) :
    Option (World ν × Except (HostError ⊕ BoardError) Board) :=
  match Endpoint.parse s.address with
  | .error e => some (w, .error (.inl e))
  | .ok endpoint =>
    match w.play? seat (Board.bringUp endpoint s.index s.settings) [] with
    | some (w, .ok b, _) => some (w, .ok b)
    | some (w, .error e, _) => some (w, .error (.inr e))
    | none => none

/-- The change of the board that a step makes itself. -/
def ownChange : Step → Disturbance × List PlannedFault
  | .deed deed => deed.change
  | _ => ({}, [])

/-- What a step does. -/
def routine (b : Board) : Step → Routine ν (Outcome ν)
  | .prepare ctx => do
    let result ← b.prepareEpoch ctx
    pure (.prepared result)
  | .search work _ => do
    let result ← b.search work
    pure (.searched result [])
  | .telemetry => do
    let t ← b.sampleTelemetry
    pure (.sampled t)
  | .deed deed => do
    deed.perform b 0
    pure .nothing
  | .park span => do
    request (.park span)
    pure .nothing
  | .sleep span => do
    Routine.sleep span
    pure .nothing
  | .disconnect => do
    Board.disconnect
    pure (.connection false)

/-- Completes what came of a step with what only the world knows. -/
def complete (w : World ν) : Outcome ν → Outcome ν
  | .searched result _ => .searched result w.solutions.reverse
  | .connection _ => .connection (w.site 0).link.board.connected
  | outcome => outcome

/-- Takes a step. -/
def step? (w : World ν) (b : Board) (s : Step) (visits : List Visit) :
    Option (World ν × Entry ν) :=
  let sinkOpen := match s with
    | .search _ sinkOpen => sinkOpen
    | _ => true
  (visited? { w with sinkOpen } b (ownChange s) (routine b s) [] visits).map fun (w, outcome) ↦
    takeDown w (complete w outcome)

/-- Takes steps until one would never end. -/
def steps (b : Board) : World ν → List (Step × List Visit) → World ν × List (Entry ν)
  | w, [] => (w, [])
  | w, (s, visits) :: rest =>
    match step? w b s visits with
    | none => (w, [])
    | some (w, entry) =>
      let (w, entries) := steps b w rest
      (w, entry :: entries)

/-- Runs a session: brings the board up, and takes the steps if that went well. -/
def run (s : Setup ν) (list : List (Step × List Visit)) : World ν × List (Entry ν) :=
  let w := world s (.listed [])
  match bringUp? s w with
  | none => (w, [])
  | some (w, .error (.inl e)) =>
    let (w, entry) := takeDown w (.misaddressed e)
    (w, [entry])
  | some (w, .error (.inr e)) =>
    let (w, entry) := takeDown w (.refused e)
    (w, [entry])
  | some (w, .ok b) =>
    let board := (w.site 0).link.board
    let (w, entry) := takeDown w (.broughtUp b board.mask board.timeout)
    let (w, entries) := steps b w list
    (w, entry :: entries)

end Session

end HashBoard
