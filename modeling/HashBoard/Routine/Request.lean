import HashBoard.Board.Call
import HashBoard.Board.Memory
import HashBoard.Event
import HashBoard.Work

/-!
# Requests

Everything a routine can ask of its surroundings, and what it is answered with. A request is data:
it says what is wanted, not how it is done. Only a few requests may keep a routine waiting: a call
for an interrupt, `acquire`, the ones that let time pass, and the ones that follow the feed of work.
Between two of those nobody else runs.
-/

namespace HashBoard

/-- What a wait for the end of a run ends with. -/
inductive Verdict
  /-- The point of time came. -/
  | time
  /-- No worker is left. -/
  | idle
  /-- A worker gave up. -/
  | failed (reason : String)
  deriving DecidableEq, Repr

/-- Something a routine asks of its surroundings. -/
inductive Request (ν : Type)
  -- the board
  /-- Opens the connection. -/
  | connect (endpoint : Endpoint)
  /-- Makes a call over the connection. -/
  | call (c : Call)
  /-- Takes the access lock; waits until it is free. -/
  | acquire
  /-- Gives the access lock back. -/
  | release
  /-- What is remembered of the board. -/
  | memory
  /-- Changes what is remembered of the board. -/
  | revise (f : Memory ν → Memory ν)
  -- time
  /-- The time. -/
  | now
  /-- Lets time pass. -/
  | sleep (span : Micros)
  /-- Lets time pass until a point of it. -/
  | sleepUntil (due : Micros)
  -- shutdown
  /-- Whether shutdown was requested. -/
  | isCancelled
  /-- Requests shutdown. -/
  | cancel
  /-- Wakes the parked worker, or the next one to park. -/
  | wake
  /-- Parks until woken or shut down, but not longer than a span. -/
  | park (span : Micros)
  -- tuning
  /-- The pacing the tuning wants instead of the configured one. -/
  | intensityOverride
  /-- Tells the tuning about checks made. -/
  | tune (checks : UInt64)
  /-- The share of results that failed verification. -/
  | errorRate
  /-- The stage of the tuning; zero when none is going on. -/
  | tuningStage
  /-- Starts tuning at a clock. -/
  | startTune (clock : ν)
  /-- Loads a saved tune; answers whether there was one. -/
  | loadTune (file key : String)
  /-- Whether a file exists. -/
  | fileExists (file : String)
  -- work
  /-- The number of the feed's last publication. -/
  | subscribe
  /-- The latest work, if there is any. -/
  | latestWork
  /-- Waits for a publication other than the one with number `seen`; answers its number, or nothing
  once no more will come. -/
  | nextChange (seen : Nat)
  /-- Puts other work, or none, into the feed. -/
  | publish (work : Option Work)
  /-- No more work will come. -/
  | closeFeed
  /-- What is needed to build the dataset of an epoch. -/
  | epochContext (epoch : Word)
  /-- Hands a nonce over; answers whether somebody takes it. -/
  | submit (solution : Solution)
  /-- The serial number of the next synthetic work. -/
  | nextSerial
  /-- Waits for a point of time or for shutdown; answers whether it was the time. -/
  | tick (due : Micros)
  -- other tasks
  /-- Starts passing publications after the one with number `seen` on to the board. -/
  | startKicker (seen : Nat)
  /-- Stops passing publications on. -/
  | stopKicker
  /-- Says that a worker gave up, and why. -/
  | giveUp (reason : String)
  /-- Waits for a point of time, for a worker to give up, or until no worker is left. -/
  | outlast (due : Micros)
  /-- Waits until no other task is left. -/
  | settle
  -- the rest
  /-- Mentions an event. -/
  | note (event : Event ν)
  /-- Something outside happens: the change of the surroundings prepared under a number. -/
  | outside (n : Nat)

/-- What a request is answered with. -/
abbrev Reply {ν : Type} : Request ν → Type
  | .connect _ => Except LinkFault Unit
  | .call c => c.Answer
  | .memory => Memory ν
  | .now => Micros
  | .isCancelled => Bool
  | .intensityOverride => Option Intensity
  | .errorRate => ν
  | .tuningStage => UInt8
  | .loadTune .. => Bool
  | .fileExists _ => Bool
  | .subscribe => Nat
  | .latestWork => Option Work
  | .nextChange _ => Option Nat
  | .epochContext _ => Option EpochContext
  | .submit _ => Bool
  | .nextSerial => UInt64
  | .tick _ => Bool
  | .outlast _ => Verdict
  | .acquire | .release | .revise _ | .sleep _ | .sleepUntil _ | .cancel | .wake | .park _ | .tune _
  | .startTune _ | .publish _ | .closeFeed | .startKicker _ | .stopKicker | .giveUp _ | .settle
  | .note _ | .outside _ => Unit

end HashBoard
