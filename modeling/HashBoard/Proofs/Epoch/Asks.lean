import HashBoard.Proofs.Board.Asks
import HashBoard.Proofs.Dag.Ranges

/-!
# What an epoch change asks

The parts of an epoch change write the registers of the generator and of the clock, and the item
count with its reciprocal. The range registers of the mixers all lie in front of the status word,
because there are never more mixers than fit there.
-/

namespace HashBoard

/-- The registers in front of the status word that hold the parent count and the ranges. -/
def Reg.isRange (addr : Word) : Bool := Reg.dagParentNodes ≤ addr && addr < Reg.dagStatus

/-- The registers that are written to prepare the core, but for the control of the generator. -/
def Reg.setup : List Word := Reg.coreFlags :: Reg.coreEnable :: Reg.clockChange

theorem Reg.mem_setup {addr : Word} (h : addr ∈ Reg.clockGenerator) : addr ∈ Reg.setup :=
  .tail _ (.tail _ (Reg.mem_clockChange h))

/-- The registers of the generators and of their power. -/
def Reg.isGenerator (addr : Word) : Bool :=
  addr = Reg.dagPower || addr = Reg.dagControl || addr = Reg.dagStatus || addr = Reg.cacheControl ||
    Reg.isRange addr

theorem Reg.isGenerator_of_isRange {addr : Word} (h : Reg.isRange addr) : Reg.isGenerator addr := by
  simp [Reg.isGenerator, h]

theorem Reg.isRange_mixer {k : Nat} (h : k < Reg.maxMixers.toNat) :
    Reg.isRange (Reg.mixerStart (UInt32.ofNat k)) ∧
      Reg.isRange (Reg.mixerEnd (UInt32.ofNat k)) := by
  have all : ∀ k < Reg.maxMixers.toNat, Reg.isRange (Reg.mixerStart (UInt32.ofNat k)) ∧
      Reg.isRange (Reg.mixerEnd (UInt32.ofNat k)) := by decide
  exact all k h

namespace Board

open Routine

theorem length_mixerRanges_le (b : Board) (ctx : EpochContext) :
    (b.mixerRanges ctx).length ≤ Reg.maxMixers.toNat := by
  have hmax : 1 ≤ Reg.maxMixers.toNat := by decide
  have hmin : (min b.settings.mixers Reg.maxMixers).toNat ≤ Reg.maxMixers.toNat :=
    UInt32.le_iff_toNat_le.mp (Std.min_le_right ..)
  rw [mixerRanges, Dag.length_partition]
  omega

variable {ν : Type} {P : Request ν → Prop} (quiet : ∀ r : Request ν, r.isQuiet → P r)
include quiet

section Parts

theorem only_escalate (b : Board) (what cause : String) :
    (b.escalate what cause : Routine ν _).Only P := by
  rw [escalate]
  split
  · exact (only_note quiet rfl).bind fun _ ↦ trivial
  · trivial

omit quiet in
theorem only_enter {phase : EpochPhase}
    (enters : P (.revise fun m ↦ m.withStatus fun s ↦ { s with phase }))
    (h : P (.note (.phase phase))) : (enter phase : Routine ν _).Only P :=
  (only_request h).bind fun _ ↦ only_request enters

/-! ## Waiting -/

/-- Room for giving the lock back for a while, and for looking for a shutdown. -/
structure RoomToPause (P : Request ν → Prop) : Prop where
  quiet : ∀ r, r.isQuiet → P r
  looks : P .isCancelled
  acquire : P .acquire
  release : P .release

omit quiet in
theorem only_await (room : RoomToPause P) (b : Board) (a : Awaited ν)
    {watch : Nat → Routine ν Unit} (overdue : P (.note (.notWaitingAnyLonger (.overdue a.name))))
    (read : P (.call (.read a.addr))) (unread : ∀ fault, P (.note (a.unread fault)))
    (hw : ∀ n, (watch n).Only P) (n : Nat) (status : Word) :
    (b.await a watch n status).Only P := by
  have quiet := room.quiet
  induction n generalizing status with
  | zero =>
    rw [await]
    split
    · trivial
    · refine ⟨room.looks, fun cancelled ↦ ?_⟩
      cases cancelled with
      | true => trivial
      | false =>
        refine (only_escalate quiet b _ _).bind fun e ↦ ?_
        cases e with
        | error e => trivial
        | ok => exact ⟨overdue, fun _ ↦ trivial⟩
  | succ n ih =>
    rw [await]
    split
    · trivial
    · refine ⟨room.looks, fun cancelled ↦ ?_⟩
      cases cancelled with
      | true => trivial
      | false =>
        refine (only_suspend quiet room.acquire room.release).bind fun _ ↦ ?_
        refine (only_read quiet read).bind fun x ↦ ?_
        cases x with
        | ok status => exact (hw n).bind fun _ ↦ ih status
        | error fault =>
          refine (only_escalate quiet b _ _).bind fun e ↦ ?_
          cases e with
          | error e => trivial
          | ok => exact ⟨unread fault, fun _ ↦ (hw n).bind fun _ ↦ ih status⟩

/-! ## The light cache -/

theorem only_uploadPiece (piece : ByteArray) (offset : Nat)
    (uploads : ∀ bytes addr, P (.call (.upload bytes addr))) :
    (uploadPiece piece offset : Routine ν _).Only P := by
  refine ⟨uploads _ _, fun x ↦ ?_⟩
  cases x with
  | ok => trivial
  | error fault =>
    refine (only_note quiet rfl).bind fun _ ↦ ⟨uploads _ _, fun y ↦ ?_⟩
    cases y with
    | ok => trivial
    | error fault => exact (only_note quiet rfl).bind fun _ ↦ trivial

theorem only_uploadPieces (cache : ByteArray) (n i : Nat) (looks : P .isCancelled)
    (uploads : ∀ bytes addr, P (.call (.upload bytes addr))) :
    (uploadPieces cache n i : Routine ν _).Only P := by
  induction n generalizing i with
  | zero => trivial
  | succ n ih =>
    refine ⟨looks, fun cancelled ↦ ?_⟩
    cases cancelled with
    | true => trivial
    | false =>
      refine (only_uploadPiece quiet _ _ uploads).bind fun x ↦ ?_
      cases x with
      | error e => trivial
      | ok =>
        dsimp only
        split
        · exact (only_note quiet rfl).bind fun _ ↦ ih (i + 1)
        · exact ih (i + 1)

theorem only_uploadCache (ctx : EpochContext) (looks : P .isCancelled)
    (uploads : ∀ bytes addr, P (.call (.upload bytes addr))) :
    (uploadCache ctx : Routine ν _).Only P := by
  rw [uploadCache]
  cases ctx.lightCache with
  | none => trivial
  | some cache =>
    refine (only_note quiet rfl).bind fun _ ↦ ?_
    refine (only_request (quiet .now rfl)).bind fun started ↦ ?_
    refine (only_uploadPieces quiet cache _ _ looks uploads).bind fun x ↦ ?_
    cases x with
    | error e => trivial
    | ok =>
      refine (only_request (quiet .now rfl)).bind fun finished ↦ ?_
      exact (only_note quiet rfl).bind fun _ ↦ trivial

/-! ## The dataset -/

theorem only_programRanges (writes : ∀ value addr, Reg.isRange addr → P (.call (.write value addr)))
    {ranges : List (Nat × Nat)} {k : Nat} (h : k + ranges.length ≤ Reg.maxMixers.toNat) :
    (programRanges (UInt32.ofNat k) ranges : Routine ν _).Only P := by
  induction ranges generalizing k with
  | nil => trivial
  | cons range rest ih =>
    have hk : k < Reg.maxMixers.toNat := by
      rw [List.length_cons] at h
      omega
    have hrest : k + 1 + rest.length ≤ Reg.maxMixers.toNat := by
      rw [List.length_cons] at h
      omega
    obtain ⟨hstart, hend⟩ := Reg.isRange_mixer hk
    refine (only_tryWrite quiet (writes _ _ hstart)).bind fun _ ↦ ?_
    refine (only_tryWrite quiet (writes _ _ hend)).bind fun _ ↦ ?_
    have hnext : UInt32.ofNat k + 1 = UInt32.ofNat (k + 1) := (UInt32.ofNat_add k 1).symm
    rw [hnext]
    exact ih hrest

theorem only_divideItems (b : Board) (ctx : EpochContext) (parents : Word)
    (enters : P (.revise fun m ↦ m.withStatus fun s ↦ { s with phase := .itemsPartitioned }))
    (writes : ∀ value addr, Reg.isRange addr → P (.call (.write value addr))) :
    (b.divideItems ctx parents : Routine ν _).Only P := by
  refine (only_enter enters (quiet _ rfl)).bind fun _ ↦ ?_
  refine (only_note quiet rfl).bind fun _ ↦ ?_
  refine (only_tryWrite quiet (writes _ _ (by decide))).bind fun _ ↦ ?_
  refine only_programRanges quiet writes (k := 0) ?_
  rw [Nat.zero_add]
  exact length_mixerRanges_le b ctx

theorem only_mentionProgress (range left : Nat) :
    (mentionProgress range left : Routine ν _).Only P := by
  rw [mentionProgress]
  split
  · exact (only_readOr quiet (quiet _ rfl)).bind fun made ↦ only_note quiet rfl
  · trivial

theorem only_firstStatus (status : P (.call (.read Reg.dagControl))) :
    (firstStatus : Routine ν _).Only P := by
  refine (only_read quiet status).bind fun x ↦ ?_
  cases x with
  | ok status => trivial
  | error fault => exact (only_note quiet rfl).bind fun _ ↦ trivial

theorem only_spreadPieces (n i : Nat) (looks : P .isCancelled)
    (moves : ∀ src dst length, P (.call (.move src dst length))) :
    (spreadPieces n i : Routine ν _).Only P := by
  induction n generalizing i with
  | zero => trivial
  | succ n ih =>
    refine ⟨looks, fun cancelled ↦ ?_⟩
    cases cancelled with
    | true => trivial
    | false =>
      refine (only_move quiet (moves _ _ _)).bind fun x ↦ ?_
      cases x with
      | ok => exact ih (i + 1)
      | error fault => exact (only_note quiet rfl).bind fun _ ↦ trivial

theorem only_spread (looks : P .isCancelled)
    (enters : P (.revise fun m ↦ m.withStatus fun s ↦ { s with phase := .duplicating }))
    (moves : ∀ src dst length, P (.call (.move src dst length))) :
    (spread : Routine ν _).Only P := by
  refine (only_enter enters (quiet _ rfl)).bind fun _ ↦ ?_
  refine (only_note quiet rfl).bind fun _ ↦ ⟨quiet _ rfl, fun started ↦ ?_⟩
  refine (only_spreadPieces quiet _ _ looks moves).bind fun x ↦ ?_
  rcases x with e | all
  · trivial
  · cases all with
    | false => trivial
    | true =>
      refine (only_move quiet (moves _ _ _)).bind fun y ↦ ?_
      cases y with
      | error fault => exact (only_note quiet rfl).bind fun _ ↦ trivial
      | ok => exact ⟨quiet _ rfl, fun finished ↦ (only_note quiet rfl).bind fun _ ↦ trivial⟩

theorem only_holdsDataset (b : Board) (epoch : Word) (resident : P (.call (.read Reg.dagStatus))) :
    (b.holdsDataset epoch : Routine ν _).Only P := by
  refine (only_readOr quiet resident).bind fun status ↦ ?_
  dsimp only
  split
  · refine (only_note quiet rfl).bind fun _ ↦ ?_
    split
    · exact (only_note quiet rfl).bind fun _ ↦ trivial
    · trivial
  · trivial

end Parts

/-! ## A change in parts -/

section Cut

/-- Starts the generator and looks at it once; gives the time and the status. -/
def startGenerator : Routine ν (Micros × Word) := do
  enter .generating
  note .generatorStarted
  let started ← now
  tryWrite Reg.dagStart Reg.dagControl "generator start"
  let status ← firstStatus
  pure (started, status)

omit quiet in
theorem startGenerator_bind {α : Type} (f : Micros × Word → Routine ν α) :
    startGenerator.bind f = (do
      enter .generating
      note .generatorStarted
      let started ← now
      tryWrite Reg.dagStart Reg.dagControl "generator start"
      let status ← firstStatus
      f (started, status)) := by
  simp only [startGenerator, bind_eq, bind_assoc, pure_eq, done_bind]

/-- Waits for the generator, which was started at some time, and tells how long it took. -/
def awaitGenerator (b : Board) (ctx : EpochContext) :
    Micros × Word → Routine ν (Except BoardError Unit)
  | (started, status) => do
    let range := match b.mixerRanges ctx with
      | (start, stop) :: _ => stop - start
      | [] => 0
    match ← b.awaitDag range status with
    | .error e => pure (.error e)
    | .ok status => do
      let finished ← now
      note (.generatorFinished status ctx.dagSize (finished - started))
      pure (.ok ())

omit quiet in
theorem generate_eq (b : Board) (ctx : EpochContext) :
    (b.generate ctx : Routine ν _) = startGenerator.bind (awaitGenerator b ctx) :=
  (startGenerator_bind (awaitGenerator b ctx)).symm

/-- Starts deriving the light cache, and waits for it; tells how long it took since some time. -/
def awaitCache (b : Board) (started : Micros) : Routine ν (Except BoardError Unit) := do
  tryWrite Reg.cacheStart Reg.cacheControl "cache start"
  match ← b.await cacheAwaited (fun _ ↦ pure ()) cachePolls 0 with
  | .error e => pure (.error e)
  | .ok status => do
    let finished ← now
    note (.cacheFinished status (finished - started))
    pure (.ok ())

variable [Quantity ν]

/-- Restores the configured clock, if there is one. -/
def restoreClock (target : ν) : Routine ν Unit := do
  if !Quantity.same target (Quantity.ofNat 0) then
    note (.restoringClock target)
    let _ ← setClock (.target target)

/-- Remembers the epoch, gives the lock back and lets tuning start. -/
def concludeEpoch (epoch : Word) : Routine ν Unit := do
  let clock := (← memory).clock.current
  revise fun m ↦ { m with lastEpoch := some epoch }
  release
  reviseStatus fun s ↦ { s with clock }
  request (.startTune clock)

omit quiet in
theorem finishEpoch_eq (epoch : Word) :
    (finishEpoch epoch : Routine ν Unit) = (do
      tryWrite Reg.dagPowerOff Reg.dagPower "generator power"
      let m ← memory
      restoreClock m.clock.target
      concludeEpoch epoch) := by
  have h (m : Memory ν) : (do
      restoreClock m.clock.target
      concludeEpoch epoch) = if !Quantity.same m.clock.target (Quantity.ofNat 0) then do
        note (.restoringClock m.clock.target)
        let _ ← setClock (.target m.clock.target)
        concludeEpoch epoch
      else concludeEpoch epoch := by
    rw [restoreClock]
    split
    · simp only [bind_eq, bind_assoc, pure_eq, done_bind]
    · rfl
  simp only [h]
  rfl

end Cut

/-! ## The whole change -/

omit quiet

/-- Room for everything that letting the board derive the light cache asks. -/
structure RoomToDerive (P : Request ν → Prop) : Prop extends RoomToPause P where
  overdue : P (.note (.notWaitingAnyLonger (.overdue (cacheAwaited : Awaited ν).name)))
  writes : ∀ value, ∀ addr ∈ [Reg.cacheControl, Reg.dagParentNodes], P (.call (.write value addr))
  seed : ∀ seed : Hash, P (.call (.writeBulk seed.reversed Reg.cacheSeed true))

/-- Room for everything that getting the light cache onto the board asks. -/
structure RoomToCache (P : Request ν → Prop) : Prop extends RoomToDerive P where
  phases : ∀ phase, P (.note (.phase phase))
  enters : ∀ phase, P (.revise fun m ↦ m.withStatus fun s ↦ { s with phase })
  uploads : ∀ bytes addr, P (.call (.upload bytes addr))

/-- Room for everything that waiting for the generator asks. -/
structure RoomToAwait (P : Request ν → Prop) : Prop extends RoomToPause P where
  overdue : P (.note (.notWaitingAnyLonger (.overdue (dagAwaited : Awaited ν).name)))
  status : P (.call (.read Reg.dagControl))

/-- Room for everything that generating a dataset asks. -/
structure RoomToGenerate (P : Request ν → Prop) : Prop extends RoomToAwait P where
  generating : P (.note (.phase .generating))
  enter : P (.revise fun m ↦ m.withStatus fun s ↦ { s with phase := .generating })
  start : P (.call (.write Reg.dagStart Reg.dagControl))

/-- Room for everything that building a dataset asks. -/
structure RoomToBuild (P : Request ν → Prop) : Prop where
  quiet : ∀ r, r.isQuiet → P r
  phases : ∀ phase, P (.note (.phase phase))
  overdue : ∀ what, P (.note (.notWaitingAnyLonger (.overdue what)))
  enters : ∀ phase, P (.revise fun m ↦ m.withStatus fun s ↦ { s with phase })
  looks : P .isCancelled
  acquire : P .acquire
  release : P .release
  status : P (.call (.read Reg.dagControl))
  writes : ∀ value addr, Reg.isGenerator addr → P (.call (.write value addr))
  seed : ∀ seed : Hash, P (.call (.writeBulk seed.reversed Reg.cacheSeed true))
  uploads : ∀ bytes addr, P (.call (.upload bytes addr))
  moves : ∀ src dst length, P (.call (.move src dst length))

theorem RoomToBuild.toCache (room : RoomToBuild P) : RoomToCache P where
  quiet := room.quiet
  phases := room.phases
  overdue := room.overdue _
  enters := room.enters
  looks := room.looks
  acquire := room.acquire
  release := room.release
  writes value addr h := by
    simp only [List.mem_cons, List.not_mem_nil, or_false] at h
    rcases h with rfl | rfl <;> exact room.writes _ _ (by decide)
  seed := room.seed
  uploads := room.uploads

theorem RoomToBuild.toGenerate (room : RoomToBuild P) : RoomToGenerate P where
  quiet := room.quiet
  overdue := room.overdue _
  looks := room.looks
  acquire := room.acquire
  release := room.release
  status := room.status
  generating := room.phases _
  enter := room.enters _
  start := room.writes _ _ (by decide)

theorem only_deriveCache (room : RoomToDerive P) (b : Board) (ctx : EpochContext) (parents : Word) :
    (b.deriveCache ctx parents : Routine ν _).Only P := by
  have quiet := room.quiet
  refine (only_note quiet rfl).bind fun _ ↦ ⟨quiet _ rfl, fun started ↦ ?_⟩
  refine (only_tryWrite quiet (room.writes _ _ (by decide))).bind fun _ ↦ ?_
  refine (only_tryWrite quiet (room.writes _ _ (by decide))).bind fun _ ↦ ?_
  refine ⟨room.seed _, fun x ↦ ?_⟩
  have rest : (awaitCache b started).Only P := by
    refine (only_tryWrite quiet (room.writes _ _ (by decide))).bind fun _ ↦ ?_
    refine (only_await room.toRoomToPause b _ room.overdue (quiet _ rfl)
      (fun _ ↦ quiet _ rfl) (fun _ ↦ only_done ()) _ _).bind fun x ↦ ?_
    cases x with
    | error e => trivial
    | ok status => exact ⟨quiet _ rfl, fun finished ↦ (only_note quiet rfl).bind fun _ ↦ trivial⟩
  cases x with
  | ok => exact rest
  | error fault => exact (only_note quiet rfl).bind fun _ ↦ rest

theorem only_provideCache (room : RoomToCache P) (b : Board) (ctx : EpochContext) (parents : Word) :
    (b.provideCache ctx parents : Routine ν _).Only P := by
  rw [provideCache]
  cases b.settings.cacheStrategy with
  | onChip =>
    refine (only_enter (room.enters _) (room.phases _)).bind fun _ ↦ ?_
    exact only_deriveCache room.toRoomToDerive b ctx parents
  | upload =>
    refine (only_enter (room.enters _) (room.phases _)).bind fun _ ↦ ?_
    exact only_uploadCache room.quiet ctx room.looks room.uploads

theorem only_awaitDag (room : RoomToAwait P) (b : Board) (range : Nat) (status : Word) :
    (b.awaitDag range status : Routine ν _).Only P := by
  rw [awaitDag]
  split
  · exact (only_note room.quiet rfl).bind fun _ ↦ trivial
  · exact only_await room.toRoomToPause b _ room.overdue room.status (fun _ ↦ room.quiet _ rfl)
      (only_mentionProgress room.quiet range) _ _

theorem only_awaitGenerator (room : RoomToAwait P) (b : Board) (ctx : EpochContext)
    (begun : Micros × Word) : (awaitGenerator b ctx begun : Routine ν _).Only P := by
  have quiet := room.quiet
  refine (only_awaitDag room b _ begun.2).bind fun x ↦ ?_
  cases x with
  | error e => trivial
  | ok status => exact ⟨quiet _ rfl, fun finished ↦ (only_note quiet rfl).bind fun _ ↦ trivial⟩

theorem only_generate (room : RoomToGenerate P) (b : Board) (ctx : EpochContext) :
    (b.generate ctx : Routine ν _).Only P := by
  have quiet := room.quiet
  rw [generate_eq]
  refine Only.bind ?_ (only_awaitGenerator room.toRoomToAwait b ctx)
  refine (only_enter room.enter room.generating).bind fun _ ↦ ?_
  refine (only_note quiet rfl).bind fun _ ↦ ⟨quiet _ rfl, fun started ↦ ?_⟩
  refine (only_tryWrite quiet room.start).bind fun _ ↦ ?_
  exact (only_firstStatus quiet room.status).bind fun status ↦ trivial

section Whole

variable (room : RoomToBuild P)
include room

theorem only_buildDataset (b : Board) (ctx : EpochContext) :
    (b.buildDataset ctx : Routine ν _).Only P := by
  have quiet := room.quiet
  refine (only_tryWrite quiet (room.writes _ _ (by decide))).bind fun _ ↦ ?_
  refine (only_tryWrite quiet (room.writes _ _ (by decide))).bind fun _ ↦ ?_
  refine (only_provideCache room.toCache b ctx _).bind fun x ↦ ?_
  cases x with
  | error e => trivial
  | ok =>
    refine (only_divideItems quiet b ctx _ (room.enters _) fun value addr h ↦
      room.writes value addr (Reg.isGenerator_of_isRange h)).bind fun _ ↦ ?_
    refine (only_generate room.toGenerate b ctx).bind fun y ↦ ?_
    cases y with
    | error e => trivial
    | ok =>
      refine (only_spread quiet room.looks (room.enters _) room.moves).bind fun z ↦ ?_
      cases z with
      | error e => trivial
      | ok =>
        refine (only_tryWrite quiet (room.writes _ _ (by decide))).bind fun _ ↦ ?_
        exact (only_note quiet rfl).bind fun _ ↦ trivial

end Whole

/-- Room for everything that setting the clock asks, and for writing the other registers that are
set up while it is the stock clock. -/
structure RoomToClock (P : Request ν → Prop) : Prop where
  quiet : ∀ r, r.isQuiet → P r
  clocks : ∀ event, event.isClock → P (.note event)
  clock : ∀ f : ClockState ν → ClockState ν, P (.revise fun m ↦ m.withClock f)
  writes : ∀ value, ∀ addr ∈ Reg.setup, P (.call (.write value addr))

/-- Room for everything that preparing the core and restoring the clock asks. -/
structure RoomToDrive (P : Request ν → Prop) : Prop extends RoomToClock P where
  preparing : P (.note (.phase .preparing))
  enter : P (.revise fun m ↦ m.withStatus fun s ↦ { s with phase := .preparing })
  changing : ∀ epoch, P (.note (.changingEpoch epoch))
  books : ∀ f, Bookkeeping f → P (.revise f)
  stop : P (.call (.write Reg.dagStop Reg.dagControl))

theorem RoomToDrive.mono {P' : Request ν → Prop} (room : RoomToDrive P) (h : ∀ r, P r → P' r) :
    RoomToDrive P' where
  quiet r hr := h r (room.quiet r hr)
  preparing := h _ room.preparing
  enter := h _ room.enter
  changing epoch := h _ (room.changing epoch)
  clocks event hevent := h _ (room.clocks event hevent)
  clock f := h _ (room.clock f)
  books f hf := h _ (room.books f hf)
  writes value addr haddr := h _ (room.writes value addr haddr)
  stop := h _ room.stop

/-- Room for everything that the end of an epoch change asks. -/
structure RoomToConclude (P : Request ν → Prop) : Prop extends RoomToDrive P where
  release : P .release
  epoch : ∀ epoch, P (.revise fun m ↦ { m with lastEpoch := epoch })
  startTune : ∀ clock, P (.startTune clock)

/-- Room for everything that making a board ready for an epoch asks. -/
structure RoomToChange (P : Request ν → Prop) : Prop extends RoomToConclude P where
  build : RoomToBuild P
  resident : P (.call (.read Reg.dagStatus))

/-- Room for everything that preparing a board for an epoch asks. -/
structure RoomToPrepare (P : Request ν → Prop) : Prop extends RoomToChange P where
  busy : ∀ f : Memory ν → Bool, P (.revise fun m ↦ { m with busy := f m })
  ready : ∀ epoch, P (.revise fun m ↦ m.withStatus fun s ↦ { s with epoch, phase := .done })

section Drive

variable [Quantity ν] (room : RoomToDrive P)
include room

theorem only_prepareCore (ctx : EpochContext) : (prepareCore ctx : Routine ν _).Only P := by
  have quiet := room.quiet
  have writes : ∀ value, ∀ addr ∈ Reg.clockChange, P (.call (.write value addr)) :=
    fun value addr h ↦ room.writes value addr (.tail _ (.tail _ h))
  refine (only_enter room.enter room.preparing).bind fun _ ↦ ?_
  refine (only_request (room.changing _)).bind fun _ ↦ ?_
  refine (only_setClock_stock quiet room.clock writes).bind fun _ ↦ ?_
  refine (only_stopCore quiet (fun value ↦ room.writes value _ (by decide))
    (room.writes _ _ (by decide))).bind fun _ ↦ ?_
  refine (only_tryWrite quiet (room.writes _ _ (by decide))).bind fun _ ↦ ?_
  refine (only_tryWrite quiet room.stop).bind fun _ ↦ ?_
  refine (only_tryWrite quiet (room.writes _ _ (by decide))).bind fun _ ↦ ?_
  exact only_tryWrite quiet (room.writes _ _ (by decide))

omit room in
theorem only_restoreClock (room : RoomToClock P) (target : ν) : (restoreClock target).Only P := by
  have writes : ∀ value, ∀ addr ∈ Reg.clockChange, P (.call (.write value addr)) :=
    fun value addr h ↦ room.writes value addr (.tail _ (.tail _ h))
  rw [restoreClock]
  split
  · refine (only_note room.quiet rfl).bind fun _ ↦ ?_
    exact (only_setClock_target room.quiet room.clock writes room.clocks target).bind
      fun _ ↦ trivial
  · trivial

end Drive

/-- An epoch change asks first whether the board is halted. -/
theorem prepareEpoch_eq [Quantity ν] (b : Board) (ctx : EpochContext) :
    (b.prepareEpoch ctx : Routine ν _) = .ask .memory fun m ↦
      if m.halted then .ask (.note (.haltedEpoch ctx.epoch)) fun _ ↦ .done (.error .halted)
      else (isLastEpoch ctx.epoch).bind fun last ↦
        if last then .done (.ok .skipped) else b.trackedChange ctx := rfl

theorem only_finishEpoch [Quantity ν] (room : RoomToConclude P) (epoch : Word) :
    (finishEpoch epoch : Routine ν _).Only P := by
  have quiet := room.quiet
  rw [finishEpoch_eq]
  refine (only_tryWrite quiet (room.writes _ _ (by decide))).bind fun _ ↦ ⟨quiet _ rfl, fun m ↦ ?_⟩
  refine (only_restoreClock room.toRoomToClock m.clock.target).bind fun _ ↦ ?_
  exact ⟨quiet _ rfl, fun m ↦ ⟨room.epoch _, fun _ ↦ ⟨room.release, fun _ ↦
    ⟨room.books _ fun _ ↦ ⟨rfl, rfl, rfl, rfl, rfl, rfl, ⟨rfl, rfl⟩, ⟨rfl, rfl, rfl, rfl⟩⟩, fun _ ↦
      only_request (room.startTune _)⟩⟩⟩⟩

section Change

variable [Quantity ν] (room : RoomToChange P)
include room

theorem only_changeEpoch (b : Board) (ctx : EpochContext) :
    (b.changeEpoch ctx : Routine ν _).Only P := by
  refine ⟨room.build.acquire, fun _ ↦ ?_⟩
  refine (only_prepareCore room.toRoomToDrive ctx).bind fun _ ↦ ?_
  refine (only_holdsDataset room.quiet b ctx.epoch room.resident).bind fun holds ↦ ?_
  cases holds with
  | true => exact (only_finishEpoch room.toRoomToConclude ctx.epoch).bind fun _ ↦ trivial
  | false =>
    refine (only_buildDataset room.build b ctx).bind fun x ↦ ?_
    cases x with
    | error e => exact ⟨room.build.release, fun _ ↦ trivial⟩
    | ok => exact (only_finishEpoch room.toRoomToConclude ctx.epoch).bind fun _ ↦ trivial

omit room in
theorem only_prepareEpoch (room : RoomToPrepare P) (b : Board) (ctx : EpochContext) :
    (b.prepareEpoch ctx : Routine ν _).Only P := by
  have quiet := room.quiet
  refine ⟨quiet _ rfl, fun m ↦ ?_⟩
  dsimp only [done_bind, pure_eq]
  split
  · exact (only_note quiet rfl).bind fun _ ↦ trivial
  · refine ⟨room.build.acquire, fun _ ↦ ⟨quiet _ rfl, fun m ↦ ⟨room.build.release, fun _ ↦ ?_⟩⟩⟩
    dsimp only [done_bind, pure_eq]
    split
    · trivial
    · refine ⟨room.busy _, fun _ ↦ (only_changeEpoch room.toRoomToChange b ctx).bind fun x ↦
        ⟨room.busy _, fun _ ↦ ?_⟩⟩
      cases x with
      | ok outcome =>
        refine (only_note quiet rfl).bind fun _ ↦ ?_
        exact Only.bind (only_request (room.ready _)) fun _ ↦ trivial
      | error e =>
        refine (only_note quiet rfl).bind fun _ ↦ ?_
        exact (only_enter (room.build.enters _) (room.build.phases _)).bind fun _ ↦ trivial

end Change

end Board

end HashBoard
