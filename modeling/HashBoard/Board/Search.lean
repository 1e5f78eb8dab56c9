import HashBoard.Board.Watch
import HashBoard.Checks
import HashBoard.Work

/-!
# Searching

A search programs one unit of work and then repeats: wait for nonces with the access lock given
back, look at the stall counter and the check counter, hand over what was found, keep the averages,
and now and then sample telemetry. It ends when there is a reason to look for other work, at
shutdown, when the stall counter stopped moving, or at a fault that the settings make fatal. However
it ends, the core is stopped before the lock is given back.

A reason to look for other work that is already there ends the search at its first round. It is left
for the worker to clear before it reads the next work.
-/

namespace HashBoard.Board

open Routine

variable {ν : Type} [Quantity ν]

/-! ## Programming the work -/

/-- Tells the core's pacing: what the tuning wants, or else what is configured. -/
def pacing (b : Board) : Routine ν Intensity := do
  let wanted ← request .intensityOverride
  pure (wanted.getD b.settings.intensity)

/-- The word that runs the core. -/
def runWord (b : Board) : Word :=
  match b.settings.nonceReporting with
  | .interrupt => Reg.coreRunInterrupt
  | .polled => Reg.coreRunPolled

/-- Programs header, boundary and first nonce. -/
def programJob (work : Work) : Routine ν Unit := do
  match ← writeHash work.header.bytes Reg.header with
  | .ok () => pure ()
  | .error fault => note (.headerFailed fault)
  let boundary := Hash.effective work.boundary
  if boundary ≠ work.boundary then note (.boundaryRaised work.boundary boundary)
  match ← writeHash boundary.bytes Reg.target with
  | .ok () => pure ()
  | .error fault => note (.boundaryFailed fault)
  tryWrite (work.startNonce >>> 32).toUInt32 Reg.startNonceHi "start nonce"
  tryWrite work.startNonce.toUInt32 Reg.startNonceLo "start nonce"

/-- Programs the pacing. -/
def programPacing (b : Board) (intensity : Intensity) : Routine ν (Except BoardError Unit) := do
  revise fun m ↦ { m with applied := intensity }
  match ← write intensity.controlWord Reg.coreFlags with
  | .ok () => pure (.ok ())
  | .error fault => do
    note (.flagsFailed fault)
    b.escalate "core flags write" fault.message

/-- Programs the work and lets the core run. -/
def programWork (b : Board) (work : Work) : Routine ν (Except BoardError Unit) := do
  programJob work
  let intensity ← b.pacing
  match ← b.programPacing intensity with
  | .error e => pure (.error e)
  | .ok () => do
    tryWrite b.runWord Reg.coreEnable "core enable"
    note (.workProgrammed work.header work.startNonce intensity)
    pure (.ok ())

/-! ## One round -/

/-- What a search remembers from round to round. -/
structure Round where
  /-- The check counter. -/
  checks : CheckCounter := {}
  /-- The last sample of the stall counter. -/
  stall : Option Word := none
  /-- When the counters were last sampled. -/
  sampled : Micros
  /-- When telemetry was last sampled. -/
  watched : Micros

/-- Waits for an interrupt with the access lock given back. -/
def awaitInterrupt (b : Board) : Routine ν (Except BoardError (List UInt64)) := do
  release
  let answer ← call (.awaitInterrupt Reg.nonceInterrupt b.settings.workDelay)
  acquire
  match answer with
  | .ok (some nonce) => pure (.ok [nonce])
  | .ok none => pure (.ok [])
  | .error fault => do
    note (.interruptFailed fault)
    match ← b.escalate "interrupt wait" fault.message with
    | .error e => pure (.error e)
    | .ok () => pure (.ok [])

/-- Reads the nonces of the slots that are full, from slot `i` on, `n` of them. -/
def readSlots (flags : Word) : (n : Nat) → (i : Word) → Routine ν (List UInt64)
  | 0, _ => pure []
  | n + 1, i => do
    if flags &&& Reg.polledReady i = 0 then readSlots flags n (i + 1)
    else
      let hi ← readOr (Reg.polledNonceHi i) 0 "nonce"
      let lo ← readOr (Reg.polledNonceLo i) 0 "nonce"
      let rest ← readSlots flags n (i + 1)
      pure (CheckCounter.compose lo hi :: rest)

/-- Reads the nonces the core keeps in slots, and empties the slots if there are any. -/
def pollNonces : Routine ν (List UInt64) := do
  let flags ← readOr Reg.coreEnable 0 "nonce flags"
  let nonces ← readSlots flags Reg.polledSlots 0
  if !nonces.isEmpty then tryWrite Reg.coreClearNonces Reg.coreEnable "nonce clear"
  pure nonces

/-- The nonces of a round. -/
def gatherNonces (b : Board) : Routine ν (Except BoardError (List UInt64)) := do
  match b.settings.nonceReporting with
  | .interrupt => b.awaitInterrupt
  | .polled => do
    suspend b.settings.workDelay
    let nonces ← pollNonces
    pure (.ok nonces)

/-- Samples the stall counter, and tells whether it stands where it stood at the last sample. A
counter that cannot be read counts as zero; without stall detection it is not looked at. -/
def checkStall (b : Board) (last : Option Word) : Routine ν (Bool × Option Word) := do
  if b.settings.skipStallDetection then pure (false, last)
  else
    let count ← (do
      match ← read Reg.stallCount with
      | .ok count => pure count
      | .error fault => do
        note (.stallUnread fault)
        pure 0)
    pure (last = some count, some count)

/-- Samples the check counter. -/
def countChecks (c : CheckCounter) : Routine ν (CheckCounter × UInt64) := do
  let lo ← readOr Reg.checksLo 0 "target check counter"
  let hi ← readOr Reg.checksHi 0 "target check counter"
  pure (c.advance lo hi)

/-- Hands a nonce over. -/
def report (b : Board) (work : Work) (nonce : UInt64) : Routine ν Unit := do
  note (.solution work.header nonce)
  let foundAt ← now
  if ← request (.submit { nonce, work, foundAt, board := b.index }) then pure ()
  else note (.solutionDropped nonce)

/-- Tells tuning, averages and onlookers about a round. -/
def keepAccount (delta : UInt64) (found : Nat) (elapsed : Micros) (t : Micros) :
    Routine ν Unit := do
  request (.tune delta)
  let errorRate ← request .errorRate
  let m ← memory
  let (averager, flushed) := m.averager.record delta t errorRate
  let secs : ν := Quantity.seconds elapsed
  revise fun m ↦
    { m with
      averager
      status :=
        { m.status with
          solutions := m.status.solutions + found
          hashRate :=
            if Quantity.lt (Quantity.ofNat 0) secs then HashRate.ofCount delta secs
            else m.status.hashRate
          averages := flushed.getD m.status.averages } }

/-- Samples telemetry if it is time to, and gives the time of the last sample. -/
def watchIfDue (b : Board) (watched t : Micros) : Routine ν Micros := do
  if b.settings.telemetryInterval ≤ t - watched then
    let _ ← b.checkTelemetry (ν := ν)
    pure t
  else pure watched

/-- What is done in a round once its nonces are there. -/
def finishRound (b : Board) (work : Work) (r : Round) (nonces : List UInt64) :
    Routine ν (Round ⊕ Except BoardError SearchExit) := do
  let (stalled, stall) ← b.checkStall r.stall
  let (checks, delta) ← countChecks r.checks
  forEach (b.report work) nonces
  let t ← now
  keepAccount delta nonces.length (t - r.sampled) t
  let watched ← b.watchIfDue r.watched t
  if stalled then
    note .coreStalled
    pure (.inr (.ok .stalled))
  else pure (.inl { checks, stall, sampled := t, watched })

/-- One round of a search, or the reason to end it. -/
def searchRound (b : Board) (work : Work) (r : Round) :
    Routine ν (Round ⊕ Except BoardError SearchExit) := do
  if (← memory).newWork then pure (.inr (.ok .newWork))
  else if ← isCancelled then pure (.inr (.ok .shutdown))
  else
    match ← b.gatherNonces with
    | .error e => pure (.inr (.error e))
    | .ok nonces => b.finishRound work r nonces

/-! ## The whole search -/

/-- Programs the work and searches until there is a reason to end. -/
def runSearch (b : Board) (work : Work) : Routine ν (Except BoardError SearchExit) := do
  match ← b.programWork work with
  | .error e => pure (.error e)
  | .ok () => do
    reviseStatus fun s ↦ { s with searching := true }
    let t ← now
    repeating ({ sampled := t, watched := t } : Round) (b.searchRound work)

/-- Searches for nonces of a unit of work. -/
def search (b : Board) (work : Work) : Routine ν (Except BoardError SearchExit) := do
  acquire
  let result ← b.runSearch work
  stopCore
  release
  reviseStatus fun s ↦ { s with searching := false }
  match result with
  | .ok exit => note (.searchEnded exit)
  | .error e => note (.searchFailed e)
  pure result

end HashBoard.Board
