import HashBoard.Event.Line
import HashBoard.Routine.Basic
import HashBoard.Simulation.Link
import HashBoard.Simulation.Lock

/-!
# The simulated world

What requests are answered from: simulated boards, the feed of work, whoever takes nonces, and a
clock that is moved by hand. A request is begun, and either answered at once or left waiting; one
that waits is finished once what it waits for has come, which may be a point of time.

Points of time that are waited for are whole milliseconds: a wait is over at the first one that is
not too early, and at once if that is now.
-/

namespace HashBoard

open Simulation

/-- Tuning that does nothing but record what it is told. -/
structure Tuning (ν : Type) where
  /-- The pacing it wants. -/
  override : Option Intensity := none
  /-- It has a saved tune. -/
  saved : Bool := false
  /-- The share of results that failed verification. -/
  errorRate : ν
  /-- Its stage. -/
  stage : UInt8 := 0
  /-- The checks it was told about, the last first. -/
  deltas : List UInt64 := []
  /-- The clocks it was started at, the last first. -/
  starts : List ν := []
  /-- The keys it was asked for, the last first. -/
  loads : List String := []

/-- The work there is. -/
structure Feed where
  /-- Number of publications so far. -/
  version : Nat := 0
  /-- The latest work. -/
  latest : Option Work := none
  /-- More work may come. -/
  isOpen : Bool := true

/-- Where what is needed to build datasets comes from. -/
inductive Almanac
  /-- A list for some epochs. -/
  | listed (contexts : List EpochContext)
  /-- The one epoch of synthetic work. -/
  | synthetic (kind : Synthetic)

/-- What is needed to build the dataset of an epoch. -/
def Almanac.context? (epoch : Word) : Almanac → Option EpochContext
  | .listed contexts => contexts.find? (·.epoch = epoch)
  | .synthetic kind => kind.context? epoch

/-- The place of one board. -/
structure Site (ν : Type) where
  /-- The connection to it. -/
  link : Link
  /-- It cannot be connected to. -/
  refuses : Bool := false
  /-- What is remembered of it. -/
  memory : Memory ν
  /-- The access lock. -/
  lock : Lock := {}
  /-- Wakes the parked worker. -/
  wake : Signal := {}
  /-- Its tuning; without one, nothing is tuned. -/
  tuning : Option (Tuning ν) := none

/-- Who asks: a task, the board it is about, and the board it is known by in the log. -/
structure Seat where
  /-- The task. -/
  role : Role
  /-- The board it is about. -/
  board : Nat
  /-- The board it is known by in the log. -/
  known : Option Nat := none

/-- A wish about the tasks there are. -/
inductive TaskWish
  /-- A kicker for a board. -/
  | kicker (seat : Seat) (seen : Nat)
  /-- No more of a task. -/
  | without (role : Role)

/-- Everything requests are answered from. -/
structure World (ν : Type) where
  /-- The time. -/
  now : Micros := 0
  /-- The boards. -/
  sites : Array (Site ν)
  /-- Shutdown was requested. -/
  cancelled : Bool := false
  /-- The work there is. -/
  feed : Feed := {}
  /-- Where epochs are looked up. -/
  almanac : Almanac
  /-- The epochs that were looked up in a list, the last first. -/
  asked : List Word := []
  /-- The number of synthetic works so far. -/
  serial : UInt64 := 0
  /-- Somebody takes nonces. -/
  sinkOpen : Bool := true
  /-- Whoever takes nonces mentions them. -/
  announces : Bool := false
  /-- The nonces handed over, the last first. -/
  solutions : List Solution := []
  /-- Files that exist. -/
  files : String → Bool := fun _ ↦ false
  /-- Prepared changes of the first board and its connection. -/
  changes : Array (Disturbance × List PlannedFault) := #[]
  /-- The tasks there are besides the main one. -/
  alive : List Role := []
  /-- Why the first worker that gave up did. -/
  failure : Option String := none
  /-- Wishes about the tasks, the last first. -/
  wishes : List TaskWish := []
  /-- Events, the last first. -/
  log : List (Logged ν) := []

/-- How a request begins. -/
inductive Begun (α : Type)
  /-- It is answered. -/
  | answered (answer : α)
  /-- It waits, and may be over at a point of time. -/
  | waiting (deadline : Option Micros)

namespace World

variable {ν : Type} [Quantity ν]

/-- The first whole millisecond that is not before a point of time. -/
def wholeMillis (t : Micros) : Micros := (t + 999) / 1000 * 1000

/-- A site without a board. -/
def vacant (ν : Type) [Quantity ν] : Site ν :=
  { link := default, memory := Memory.start 0 false }

variable (w : World ν)

/-- The site of a board. -/
def site (board : Nat) : Site ν := w.sites.getD board (vacant ν)

/-- The world with another site of a board. -/
def setSite (board : Nat) (s : Site ν) : World ν :=
  { w with sites := w.sites.setIfInBounds board s }

/-- Mentions an event. -/
def mention (seat : Seat) (event : Event ν) : World ν :=
  { w with log := ⟨seat.known, event⟩ :: w.log }

/-- Whether a point of time has come. -/
def hasCome : Option Micros → Bool
  | some t => t ≤ w.now
  | none => false

/-- A wait for a point of time: over at once if it has come. -/
def awaitTime (t : Micros) : World ν × Begun Unit :=
  let deadline := wholeMillis t
  (w, if deadline ≤ w.now then .answered () else .waiting (some deadline))

/-- The number of a publication that is not the one with number `seen`, or nothing once no more will
come. -/
def change? (seen : Nat) : Option (Option Nat) :=
  if w.feed.version ≠ seen then some (some w.feed.version)
  else if w.feed.isOpen then none
  else some none

/-- Whether a role is that of a worker. -/
def isWorker : Role → Bool
  | .worker _ => true
  | .main | .kicker _ | .source | .visitor => false

/-- What a wait for the end of a run ends with, if it does. -/
def verdict? (deadline : Micros) : Option Verdict :=
  match w.failure with
  | some reason => some (.failed reason)
  | none =>
    if !w.alive.any isWorker then some .idle
    else if deadline ≤ w.now then some .time
    else none

/-- Hands a nonce over. -/
def submit (s : Solution) : World ν × Bool :=
  if w.sinkOpen then
    let found : Logged ν := ⟨none, .solutionFound s.board s.nonce s.work.header⟩
    ({ w with
        solutions := s :: w.solutions
        log := if w.announces then found :: w.log else w.log }, true)
  else (w, false)

/-- Makes a call that takes no time. -/
def perform (seat : Seat) (c : Call) : World ν × c.Answer :=
  let site := w.site seat.board
  let (link, answer) := site.link.perform c
  let w := w.setSite seat.board { site with link }
  match c.fault? answer, c with
  | none, .write value addr => (w.mention seat (.simulatedWrite addr value), answer)
  | _, _ => (w, answer)

/-- Begins a wait for an interrupt. -/
def beginInterrupt (seat : Seat) (mask : Word) (timeout : Micros) :
    World ν × Begun (Except LinkFault (Option UInt64)) :=
  let site := w.site seat.board
  match site.link.beginWait mask timeout with
  | (link, some answer) => (w.setSite seat.board { site with link }, .answered answer)
  | (link, none) =>
    let deadline := wholeMillis (w.now + timeout)
    if deadline ≤ w.now then
      let (link, answer) := link.finishWait mask timeout
      (w.setSite seat.board { site with link }, .answered answer)
    else (w.setSite seat.board { site with link }, .waiting (some deadline))

/-- Ends a wait for an interrupt, whatever ended it. -/
def finishInterrupt (seat : Seat) (mask : Word) (timeout : Micros) :
    World ν × Except LinkFault (Option UInt64) :=
  let site := w.site seat.board
  let (link, answer) := site.link.finishWait mask timeout
  (w.setSite seat.board { site with link }, answer)

/-- Changes the tuning of a board, if there is one. -/
def tell (seat : Seat) (f : Tuning ν → Tuning ν) : World ν :=
  let site := w.site seat.board
  w.setSite seat.board { site with tuning := site.tuning.map f }

/-- Begins a request. -/
def begin (seat : Seat) : (r : Request ν) → World ν × Begun (Reply r)
  | .connect endpoint =>
    if (w.site seat.board).refuses then
      (w, .answered (.error (.connect endpoint.display "connection refused")))
    else (w.mention seat (.connecting endpoint), .answered (.ok ()))
  | .call (.awaitInterrupt mask timeout) => w.beginInterrupt seat mask timeout
  | .call c =>
    let (w, answer) := w.perform seat c
    (w, .answered answer)
  | .acquire =>
    let site := w.site seat.board
    let (lock, there) := site.lock.ask seat.role
    (w.setSite seat.board { site with lock }, if there then .answered () else .waiting none)
  | .release =>
    let site := w.site seat.board
    (w.setSite seat.board { site with lock := site.lock.release }, .answered ())
  | .memory => (w, .answered (w.site seat.board).memory)
  | .revise f =>
    let site := w.site seat.board
    (w.setSite seat.board { site with memory := f site.memory }, .answered ())
  | .now => (w, .answered w.now)
  | .sleep span => w.awaitTime (w.now + span)
  | .sleepUntil due => w.awaitTime due
  | .isCancelled => (w, .answered w.cancelled)
  | .cancel => ({ w with cancelled := true }, .answered ())
  | .wake =>
    let site := w.site seat.board
    (w.setSite seat.board { site with wake := site.wake.raise }, .answered ())
  | .park span =>
    let site := w.site seat.board
    let (wake, woken) := site.wake.begin
    let deadline := wholeMillis (w.now + span)
    if woken then (w.setSite seat.board { site with wake }, .answered ())
    else if w.cancelled || deadline ≤ w.now then (w, .answered ())
    else (w.setSite seat.board { site with wake }, .waiting (some deadline))
  | .intensityOverride => (w, .answered ((w.site seat.board).tuning.bind (·.override)))
  | .tune checks => (w.tell seat fun t ↦ { t with deltas := checks :: t.deltas }, .answered ())
  | .errorRate =>
    (w, .answered (((w.site seat.board).tuning.map (·.errorRate)).getD (Quantity.ofNat 0)))
  | .tuningStage => (w, .answered (((w.site seat.board).tuning.map (·.stage)).getD 0))
  | .startTune clock => (w.tell seat fun t ↦ { t with starts := clock :: t.starts }, .answered ())
  | .loadTune _ key =>
    (w.tell seat fun t ↦ { t with loads := key :: t.loads },
      .answered (((w.site seat.board).tuning.map (·.saved)).getD false))
  | .fileExists file => (w, .answered (w.files file))
  | .subscribe => (w, .answered w.feed.version)
  | .latestWork => (w, .answered w.feed.latest)
  | .nextChange seen =>
    (w, match w.change? seen with
      | some answer => .answered answer
      | none => .waiting none)
  | .publish work =>
    (if w.feed.isOpen then
        { w with feed := { w.feed with version := w.feed.version + 1, latest := work } }
      else w, .answered ())
  | .closeFeed => ({ w with feed := { w.feed with isOpen := false } }, .answered ())
  | .epochContext epoch =>
    (match w.almanac with
      | .listed _ => { w with asked := epoch :: w.asked }
      | .synthetic _ => w, .answered (w.almanac.context? epoch))
  | .submit s =>
    let (w, taken) := w.submit s
    (w, .answered taken)
  | .nextSerial => ({ w with serial := w.serial + 1 }, .answered w.serial)
  | .tick due =>
    let deadline := wholeMillis due
    (w, if w.cancelled then .answered false
      else if deadline ≤ w.now then .answered true
      else .waiting (some deadline))
  | .startKicker seen => ({ w with wishes := .kicker seat seen :: w.wishes }, .answered ())
  | .stopKicker => ({ w with wishes := .without (.kicker seat.board) :: w.wishes }, .answered ())
  | .outlast due =>
    (w, match w.verdict? (wholeMillis due) with
      | some verdict => .answered verdict
      | none => .waiting (some (wholeMillis due)))
  | .giveUp reason => ({ w with failure := w.failure <|> some reason }, .answered ())
  | .settle => (w, if w.alive.isEmpty then .answered () else .waiting none)
  | .note event => (w.mention seat event, .answered ())
  | .outside n =>
    match w.changes[n]? with
    | some (disturbance, faults) =>
      let site := w.site 0
      (w.setSite 0 { site with link := (site.link.disturb disturbance).plot faults }, .answered ())
    | none => (w, .answered ())

/-- Finishes a request that waits, once what it waits for has come. -/
def finish? (seat : Seat) (deadline : Option Micros) : (r : Request ν) → Option (World ν × Reply r)
  | .call (.awaitInterrupt mask timeout) =>
    if (w.site seat.board).link.board.interrupt.woken || w.hasCome deadline then
      some (w.finishInterrupt seat mask timeout)
    else none
  | .acquire =>
    let site := w.site seat.board
    (site.lock.take? seat.role).map fun lock ↦ (w.setSite seat.board { site with lock }, ())
  | .sleep _ => if w.hasCome deadline then some (w, ()) else none
  | .sleepUntil _ => if w.hasCome deadline then some (w, ()) else none
  | .park _ =>
    let site := w.site seat.board
    if site.wake.woken || w.cancelled || w.hasCome deadline then
      some (w.setSite seat.board { site with wake := site.wake.finish }, ())
    else none
  | .nextChange seen => (w.change? seen).map fun answer ↦ (w, answer)
  | .tick _ =>
    if w.cancelled then some (w, false) else if w.hasCome deadline then some (w, true) else none
  | .outlast due => (w.verdict? (wholeMillis due)).map fun verdict ↦ (w, verdict)
  | .settle => if w.alive.isEmpty then some (w, ()) else none
  | _ => none

/-- The world with nothing on record; nothing that happens later depends on it. -/
def clearRecords : World ν :=
  let cleared (s : Site ν) : Site ν :=
    { s with link := { s.link with exchanges := [], board := s.link.board.clearLog } }
  { w with log := [], solutions := [], asked := [], sites := w.sites.map cleared }

/-- The world after a task is gone that may have wanted the lock of its board. -/
def forget (seat : Seat) : World ν :=
  let site := w.site seat.board
  w.setSite seat.board { site with lock := site.lock.forget seat.role }

end World

end HashBoard
