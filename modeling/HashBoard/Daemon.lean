import HashBoard.Board.BringUp
import HashBoard.Simulation.Schedule
import HashBoard.Synthetic.Source

/-!
# The daemon

The daemon reads its settings from the environment, brings up the boards one after the other, and
starts a worker for each that could be brought up. The boards are simulated ones, the work is
synthetic, and nonces are only mentioned. It runs until it is told to stop, a worker gives up, or no
worker is left, and then waits for everything it started.
-/

namespace HashBoard

open Simulation Routine

/-- A daemon that has started its workers. -/
structure Daemon (ν : Type) : Type 1 where
  /-- What everything runs in. -/
  world : World ν
  /-- What was started. -/
  tasks : List (Task ν)
  /-- How many workers were started. -/
  workers : Nat

namespace Daemon

variable {ν : Type} [Quantity ν]

/-- The variables that a daemon reads. -/
def variableNames : List String :=
  ["HBM_HOSTS", "HBM_TIMEOUT_MS", "HBM_RAIL_A_MV", "HBM_RAIL_B_MV", "HBM_CLOCK_MHZ",
    "HBM_DAG_MIXERS", "HBM_WORK_DELAY_US", "HBM_PATIENCE", "HBM_INTENSITY_N", "HBM_INTENSITY_D",
    "HBM_SKIP_STALL_DETECT", "HBM_DIE_ON_ERROR", "HBM_FORCE_DAG", "HBM_SKIP_DAG_WAIT",
    "HBM_CACHE_UPLOAD", "HBM_POLLED_NONCES", "HBM_SHOW_STACK_STATS", "HBM_AUTOTUNE",
    "HBM_TUNE_FILE", "HBM_TELEMETRY_SECS", "HBM_DUMMY_EPOCH", "HBM_DUMMY_INTERVAL_SECS"]

/-- The board that is driven when no boards are named. -/
def localBoard : Endpoint := ⟨"127.0.0.1", Endpoint.defaultPort⟩

/-- The settings of the environment, and what is to be said about them. -/
def settings (env : Environment) : Except BoardError (Settings × List (Event ν)) :=
  match Settings.ofEnvironment env with
  | .error cause => .error (.hosts cause)
  | .ok (some s) => .ok (s, (Settings.noticesOfEnvironment env).map .settingsNotice)
  | .ok none => .ok ({ hosts := [localBoard] }, [.oneSimulatedBoard])

/-- A worker that says how it ended. -/
def work (b : Board) : Routine ν Unit := do
  match ← Worker.run b with
  | .ok () | .error .cancelled => pure ()
  | .error (.escalated reason) => do
    note (.workerDied (.escalated reason))
    request (.giveUp (BoardError.escalated reason).message)
  | .error e => note (.workerEnded e)

/-- The seat of the daemon. -/
def seat : Seat := { role := .main, board := 0 }

/-- The world of a daemon: a mining board behind every address. -/
def surroundings (s : Settings) (kind : Synthetic) : World ν :=
  { sites := (s.hosts.map fun _ ↦
      { link := { board := .mining }, memory := Memory.start 0 false }).toArray
    almanac := .synthetic kind
    announces := true }

/-- Runs a routine in the seat of the daemon, or of the daemon about one of its boards. -/
def run? {α : Type} (d : Daemon ν) (seat : Seat) (routine : Routine ν α) : Option (Daemon ν × α) :=
  match d.world.play? seat routine d.tasks with
  | some (world, answer, tasks) => some ({ d with world, tasks }, answer)
  | none => none

/-- Mentions an event. -/
def mention (d : Daemon ν) (event : Event ν) : Daemon ν :=
  { d with world := d.world.mention seat event }

/-- Brings up the boards from number `index` on and starts a worker for each. A board that cannot be
brought up is mentioned and left out. -/
def bringUp? (s : Settings) : (index : Nat) → List Endpoint → Daemon ν → Option (Daemon ν)
  | _, [], d => some d
  | index, endpoint :: rest, d =>
    match d.run? { role := .main, board := index, known := some index }
        (Board.bringUp endpoint index s) with
    | none => none
    | some (d, .error e) =>
      bringUp? s (index + 1) rest (d.mention (.bringUpFailed index endpoint e))
    | some (d, .ok b) =>
      let task : Task ν :=
        .start { role := .worker index, board := index, known := some index } (work b)
      bringUp? s (index + 1) rest { d with tasks := d.tasks ++ [task], workers := d.workers + 1 }

/-- Starts a daemon. -/
def start? (env : Environment) (s : Settings) (said : List (Event ν)) : Option (Daemon ν) :=
  let kind := Synthetic.ofEnvironment env
  let events := said ++ (Synthetic.notices env).map .syntheticNotice
  let source : Task ν := .start { role := .source, board := 0 } kind.run
  let d : Daemon ν := { world := surroundings s kind, tasks := [source], workers := 0 }
  match bringUp? s 0 s.hosts (events.foldl mention d) with
  | none => none
  | some d =>
    if d.workers = 0 then some d
    else some ((d.mention (.started d.workers)).mention .debuggingHint)

/-- Lets a daemon run until a point of time or until there is a reason to end. -/
def watch? (d : Daemon ν) (due : Micros) : Option (Daemon ν × Verdict) :=
  d.run? seat (request (.outlast due))

/-- What was said so far, in order, and the daemon with nothing on record. -/
def drain (d : Daemon ν) : List (Logged ν) × Daemon ν :=
  (d.world.log.reverse, { d with world := d.world.clearRecords })

/-- Tells everything to stop and waits for it. -/
def stop? (d : Daemon ν) : Option (Daemon ν) :=
  let routine : Routine ν Unit := do
    request .cancel
    request .settle
  (d.run? seat routine).map fun (d, _) ↦ d

/-- Ends a daemon for a reason. The answer is the failure that ended it, if it was one; `signal` is
what came when the reason is that the time has come. -/
def finish? (d : Daemon ν) (signal : String) (verdict : Verdict) :
    Option (Daemon ν × Option String) :=
  if d.workers = 0 then d.stop?.map fun d ↦ (d, some "no board could be initialized")
  else
    let (d, failure) : Daemon ν × Option String := match verdict with
      | .time => (d.mention (.signalled signal), none)
      | .failed reason => (d.mention (.boardEscalated reason), some reason)
      | .idle => (d, some "every board stopped")
    d.stop?.map fun d ↦ (d.mention .exiting, failure)

end Daemon

/-- How a run of the daemon ended. -/
structure DaemonReport (ν : Type) where
  /-- The failure, if it ended with one. -/
  failure : Option String
  /-- When it ended. -/
  time : Micros
  /-- What it said, in order. -/
  log : List (Logged ν)

/-- Runs a daemon that is told to stop by a signal at a point of time. Nothing is the answer if it
would never end. -/
def Daemon.report? {ν : Type} [Quantity ν] (env : Environment) (due : Micros) (signal : String) :
    Option (DaemonReport ν) :=
  match Daemon.settings (ν := ν) env with
  | .error e => some { failure := some e.message, time := 0, log := [] }
  | .ok (s, said) =>
    (Daemon.start? env s said).bind fun d ↦
      (if d.workers = 0 then some (d, .idle) else d.watch? due).bind fun (d, verdict) ↦
        (d.finish? signal verdict).map fun (d, failure) ↦
          { failure, time := d.world.now, log := d.world.log.reverse }

end HashBoard
