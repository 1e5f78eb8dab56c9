import HashBoard.Board.Basic
import HashBoard.Board.Clock
import HashBoard.Dag.Layout

/-!
# Changing the epoch

The dataset is generated at the stock clock only, so the clock is reset first and the configured
clock is restored at the end. A word left on the board says which epoch the dataset there belongs
to; it is written once the dataset is generated and spread, and a board that has the right one is
ready at once.

An epoch change keeps the access lock except while it waits for the board. Shutdown, a light cache
that is missing or cannot be uploaded, and a fault that the settings make fatal end it early; all
other faults are absorbed.
-/

namespace HashBoard.Board

open Routine

variable {ν : Type} [Quantity ν]

/-- Enters a phase. -/
def enter (phase : EpochPhase) : Routine ν Unit := do
  note (.phase phase)
  reviseStatus fun s ↦ { s with phase }

/-! ## Waiting for the board -/

/-- What is waited for: a bit of a status register, looked at every now and then. -/
structure Awaited (ν : Type) where
  /-- The status register. -/
  addr : Word
  /-- The bit that shows the end. -/
  ready : Word
  /-- Time between looks. -/
  pause : Micros
  /-- What it is called when it does not come. -/
  name : String
  /-- What doing it is called. -/
  activity : String
  /-- What looking at it is called. -/
  look : String
  /-- The register could not be read. -/
  unread : LinkFault → Event ν

/-- Looks at the status at most `n` times until the bit is set, giving the lock back between looks.
After every look `watch` is done with the number of looks that are left. What does not come in time
is no longer waited for, or fatal if the settings say so. -/
def await (b : Board) (a : Awaited ν) (watch : Nat → Routine ν Unit) :
    (n : Nat) → (status : Word) → Routine ν (Except BoardError Word)
  | n, status => do
    if status &&& a.ready ≠ 0 then pure (.ok status)
    else if ← isCancelled then pure (.error .cancelled)
    else match n with
      | 0 => do
        let overdue : BoardError := .overdue a.name
        match ← b.escalate a.activity overdue.message with
        | .error e => pure (.error e)
        | .ok () => do
          note (.notWaitingAnyLonger overdue)
          pure (.ok status)
      | n + 1 => do
        suspend a.pause
        match ← read a.addr with
        | .ok status => do
          watch n
          b.await a watch n status
        | .error fault =>
          match ← b.escalate a.look fault.message with
          | .error e => pure (.error e)
          | .ok () => do
            note (a.unread fault)
            watch n
            b.await a watch n status

/-! ## The light cache -/

/-- The end of deriving the light cache. -/
def cacheAwaited : Awaited ν where
  addr := Reg.cacheControl
  ready := Reg.cacheDone
  pause := 100_000
  name := "light cache"
  activity := "light cache generation"
  look := "light cache status read"
  unread := .cacheUnread

/-- How often the end of deriving the light cache is looked for. -/
def cachePolls : Nat := 600

/-- Lets the board derive the light cache from the seed. -/
def deriveCache (b : Board) (ctx : EpochContext) (parents : Word) :
    Routine ν (Except BoardError Unit) := do
  note .cacheStarted
  let started ← now
  tryWrite Reg.cacheReset Reg.cacheControl "cache reset"
  tryWrite parents Reg.dagParentNodes "parent nodes"
  match ← writeHash ctx.seed.reversed Reg.cacheSeed with
  | .ok () => pure ()
  | .error fault => note (.seedFailed fault)
  tryWrite Reg.cacheStart Reg.cacheControl "cache start"
  match ← b.await cacheAwaited (fun _ ↦ pure ()) cachePolls 0 with
  | .error e => pure (.error e)
  | .ok status => do
    let finished ← now
    note (.cacheFinished status (finished - started))
    pure (.ok ())

/-- Uploads a piece, and once more if that fails. -/
def uploadPiece (piece : ByteArray) (offset : Nat) : Routine ν (Except BoardError Unit) := do
  match ← call (.upload piece (UInt64.ofNat offset)) with
  | .ok () => pure (.ok ())
  | .error fault => do
    note (.pieceRetried offset fault)
    match ← call (.upload piece (UInt64.ofNat offset)) with
    | .ok () => pure (.ok ())
    | .error fault => do
      note (.pieceFailed offset fault)
      pure (.error (.uploadFailed (UInt64.ofNat offset)))

/-- How many pieces are uploaded for each mention of the progress. -/
def piecesPerMention : Nat := 100

/-- Uploads the pieces of a cache from piece `i` on, `n` of them. -/
def uploadPieces (cache : ByteArray) : (n i : Nat) → Routine ν (Except BoardError Unit)
  | 0, _ => pure (.ok ())
  | n + 1, i => do
    if ← isCancelled then pure (.error .cancelled)
    else
      let offset := i * Reg.uploadPiece
      let piece := cache.extract offset (offset + Reg.uploadPiece)
      match ← uploadPiece piece offset with
      | .error e => pure (.error e)
      | .ok () => do
        if i % piecesPerMention = 0 then note (.uploadProgress offset piece.size cache.size)
        uploadPieces cache n (i + 1)

/-- Uploads the light cache that came with the epoch. -/
def uploadCache (ctx : EpochContext) : Routine ν (Except BoardError Unit) := do
  match ctx.lightCache with
  | none => pure (.error (.missingCache ctx.epoch))
  | some cache => do
    note (.uploadStarted cache.size)
    let started ← now
    let pieces := (cache.size + Reg.uploadPiece - 1) / Reg.uploadPiece
    match ← uploadPieces cache pieces 0 with
    | .error e => pure (.error e)
    | .ok () => do
      let finished ← now
      note (.uploadFinished cache.size (finished - started))
      pure (.ok ())

/-- Gets the light cache onto the board. -/
def provideCache (b : Board) (ctx : EpochContext) (parents : Word) :
    Routine ν (Except BoardError Unit) := do
  match b.settings.cacheStrategy with
  | .onChip => do
    enter .onChipCache
    b.deriveCache ctx parents
  | .upload => do
    enter .cacheUpload
    uploadCache ctx

/-! ## The dataset -/

/-- Programs the range of each mixer, from mixer `i` on. -/
def programRanges : (i : Word) → List (Nat × Nat) → Routine ν Unit
  | _, [] => pure ()
  | i, (start, stop) :: rest => do
    tryWrite (UInt32.ofNat start) (Reg.mixerStart i) "mixer start"
    tryWrite (UInt32.ofNat stop) (Reg.mixerEnd i) "mixer end"
    programRanges (i + 1) rest

/-- The ranges the nodes of a dataset are generated in. -/
def mixerRanges (b : Board) (ctx : EpochContext) : List (Nat × Nat) :=
  Dag.partition (ctx.dagSize / Dag.nodeBytes).toNat (min b.settings.mixers Reg.maxMixers).toNat

/-- Divides the dataset among the mixers. -/
def divideItems (b : Board) (ctx : EpochContext) (parents : Word) : Routine ν Unit := do
  enter .itemsPartitioned
  let nodes := (ctx.dagSize / Dag.nodeBytes).toNat
  let ranges := b.mixerRanges ctx
  note (.generatorSetup parents ranges.length (nodes / ranges.length) (nodes % ranges.length))
  tryWrite parents Reg.dagParentNodes "parent nodes"
  programRanges 0 ranges

/-- The end of generating the dataset. -/
def dagAwaited : Awaited ν where
  addr := Reg.dagControl
  ready := Reg.dagDone
  pause := 1_000_000
  name := "DAG generation"
  activity := "DAG generation"
  look := "DAG status read"
  unread := .generatorUnread

/-- How often the end of generating the dataset is looked for. -/
def dagPolls : Nat := 1800

/-- How many looks there are for each mention of the progress. -/
def looksPerMention : Nat := 5

/-- Mentions how far the generator is, after every fifth look, measured against the range of the
first mixer. -/
def mentionProgress (range left : Nat) : Routine ν Unit := do
  if (dagPolls - left) % looksPerMention = 0 ∧ 0 < range then
    let made ← readOr Reg.dagParentNodes 0 "DAG progress"
    note (.generatorProgress made range)

/-- The status of the generator right after the start. -/
def firstStatus : Routine ν Word := do
  match ← read Reg.dagControl with
  | .ok status => pure status
  | .error fault => do
    note (.generatorUnchecked fault)
    pure 0

/-- Waits for the generator unless the settings say not to. -/
def awaitDag (b : Board) (range : Nat) (status : Word) : Routine ν (Except BoardError Word) := do
  if b.settings.skipDagWait then
    note .generatorNotAwaited
    pure (.ok status)
  else b.await dagAwaited (mentionProgress range) dagPolls status

/-- Generates the dataset. -/
def generate (b : Board) (ctx : EpochContext) : Routine ν (Except BoardError Unit) := do
  enter .generating
  note .generatorStarted
  let started ← now
  tryWrite Reg.dagStart Reg.dagControl "generator start"
  let status ← firstStatus
  let range := match b.mixerRanges ctx with
    | (start, stop) :: _ => stop - start
    | [] => 0
  match ← b.awaitDag range status with
  | .error e => pure (.error e)
  | .ok status => do
    let finished ← now
    note (.generatorFinished status ctx.dagSize (finished - started))
    pure (.ok ())

/-- Copies the pieces of the staged dataset from piece `i` on, `n` of them; answers whether all
could be copied. -/
def spreadPieces : (n i : Nat) → Routine ν (Except BoardError Bool)
  | 0, _ => pure (.ok true)
  | n + 1, i => do
    if ← isCancelled then pure (.error .cancelled)
    else
      let piece := UInt64.ofNat i
      match ← move (Reg.staging + piece * Reg.chunkSize) (Dag.pieceTarget piece) Reg.chunkSize with
      | .ok () => spreadPieces n (i + 1)
      | .error fault => do
        note (.duplicationFailed i fault)
        pure (.ok false)

/-- Spreads the staged dataset over both stacks and copies the image back. The first copy that fails
abandons the rest. -/
def spread : Routine ν (Except BoardError Unit) := do
  enter .duplicating
  note .duplicating
  let started ← now
  match ← spreadPieces Reg.chunkCount 0 with
  | .error e => pure (.error e)
  | .ok false => pure (.ok ())
  | .ok true => do
    match ← move 0 Reg.imageTarget Reg.imageLength with
    | .error fault => do
      note (.imageFailed fault)
      pure (.ok ())
    | .ok () => do
      let finished ← now
      note (.duplicated (finished - started))
      pure (.ok ())

/-- Builds the dataset from nothing and leaves the word that says which epoch it belongs to. -/
def buildDataset (b : Board) (ctx : EpochContext) : Routine ν (Except BoardError Unit) := do
  tryWrite Reg.dagPowerReset Reg.dagPower "generator reset"
  tryWrite Reg.dagPowerOn Reg.dagPower "generator power"
  let parents := (ctx.lightSize / Dag.nodeBytes).toUInt32
  match ← b.provideCache ctx parents with
  | .error e => pure (.error e)
  | .ok () => do
    b.divideItems ctx parents
    match ← b.generate ctx with
    | .error e => pure (.error e)
    | .ok () => do
      match ← spread with
      | .error e => pure (.error e)
      | .ok () => do
        tryWrite (Reg.dagStatusValid ||| (ctx.epoch &&& (0xffff : Word))) Reg.dagStatus "DAG status"
        note .generatorOff
        pure (.ok ())

/-! ## The whole change -/

/-- Resets the clock, stops core and generator, and programs the item count. A core may have been
reset even when the dataset survived, so the item count is always programmed. -/
def prepareCore (ctx : EpochContext) : Routine ν Unit := do
  enter .preparing
  note (.changingEpoch ctx.epoch)
  let _ ← setClock (ν := ν) .stock
  stopCore
  tryWrite Reg.dagPowerOn Reg.dagPower "generator power"
  tryWrite Reg.dagStop Reg.dagControl "generator stop"
  let items := (ctx.dagSize / Dag.itemBytes).toUInt32
  tryWrite items Reg.itemCount "item count"
  tryWrite (Dag.itemReciprocal items).toUInt32 Reg.itemReciprocal "item reciprocal"

/-- Whether the board holds the dataset of an epoch, by the word left on it. -/
def holdsDataset (b : Board) (epoch : Word) : Routine ν Bool := do
  let status ← readOr Reg.dagStatus 0 "DAG status"
  if status &&& Reg.dagStatusValid ≠ 0 ∧ !b.settings.forceDag then
    let resident := status &&& (0xffff : Word)
    note (.residentDag resident)
    if resident = epoch &&& (0xffff : Word) then
      note .residentSuffices
      pure true
    else pure false
  else pure false

/-- Powers the generator down, restores the configured clock, and gives the lock back. Tuning starts
again at the clock there is then. -/
def finishEpoch (epoch : Word) : Routine ν Unit := do
  tryWrite Reg.dagPowerOff Reg.dagPower "generator power"
  let target := (← memory).clock.target
  if !Quantity.same target (Quantity.ofNat 0) then
    note (.restoringClock target)
    let _ ← setClock (.target target)
  let clock := (← memory).clock.current
  revise fun m ↦ { m with lastEpoch := some epoch }
  release
  reviseStatus fun s ↦ { s with clock }
  request (.startTune clock)

/-- Takes the lock and makes the board ready for an epoch. -/
def changeEpoch (b : Board) (ctx : EpochContext) : Routine ν (Except BoardError EpochOutcome) := do
  acquire
  prepareCore ctx
  if ← b.holdsDataset ctx.epoch then
    finishEpoch ctx.epoch
    pure (.ok .resident)
  else
    match ← b.buildDataset ctx with
    | .error e => do
      release
      pure (.error e)
    | .ok () => do
      finishEpoch ctx.epoch
      pure (.ok .generated)

/-- Whether an epoch is the one the last successful change was for. -/
def isLastEpoch (epoch : Word) : Routine ν Bool := do
  acquire
  let m ← memory
  release
  pure (m.lastEpoch = some epoch)

/-- Marks the board busy during a change of the epoch, and tells onlookers how it ended. A halt that
comes meanwhile keeps the board busy. -/
def trackedChange (b : Board) (ctx : EpochContext) :
    Routine ν (Except BoardError EpochOutcome) := do
  revise fun m ↦ { m with busy := true }
  let result ← b.changeEpoch ctx
  revise fun m ↦ { m with busy := m.halted }
  match result with
  | .ok outcome => do
    note (.epochReady ctx.epoch outcome)
    reviseStatus fun s ↦ { s with epoch := some ctx.epoch, phase := .done }
  | .error e => do
    note (.epochFailed ctx.epoch e)
    enter .idle
  pure result

/-- Makes the board's dataset that of an epoch. A halted board refuses; a board that was prepared
for the epoch last is left alone. -/
def prepareEpoch (b : Board) (ctx : EpochContext) : Routine ν (Except BoardError EpochOutcome) := do
  if (← memory).halted then
    note (.haltedEpoch ctx.epoch)
    pure (.error .halted)
  else if ← isLastEpoch ctx.epoch then pure (.ok .skipped)
  else b.trackedChange ctx

end HashBoard.Board
