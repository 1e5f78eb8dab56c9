import HashBoard.Proofs.Epoch.Asks

/-!
# What a search asks

A search writes the job, the pacing and the switch of the core, and nothing of the generator but its
power, when a telemetry sample makes it halt the board. The nonce slots are read only where the
switch shows them full.
-/

namespace HashBoard

theorem Reg.mem_slots {k : Nat} (h : k < Reg.polledSlots) :
    Reg.polledNonceHi (UInt32.ofNat k) ∈ Reg.slots ∧
      Reg.polledNonceLo (UInt32.ofNat k) ∈ Reg.slots := by
  have all : ∀ k < Reg.polledSlots, Reg.polledNonceHi (UInt32.ofNat k) ∈ Reg.slots ∧
      Reg.polledNonceLo (UInt32.ofNat k) ∈ Reg.slots := by decide
  exact all k h

namespace Board

open Routine

variable {ν : Type} {P : Request ν → Prop} (quiet : ∀ r : Request ν, r.isQuiet → P r)
include quiet

section Parts

/-! ## Programming the work -/

/-- Programs the target and the nonce to start from. -/
def programTarget (work : Work) (boundary : Hash) : Routine ν Unit := do
  match ← writeHash boundary.bytes Reg.target with
  | .ok () => pure ()
  | .error fault => note (.boundaryFailed fault)
  tryWrite (work.startNonce >>> 32).toUInt32 Reg.startNonceHi "start nonce"
  tryWrite work.startNonce.toUInt32 Reg.startNonceLo "start nonce"

theorem only_programTarget (work : Work) (boundary : Hash)
    (writes : ∀ value, ∀ addr ∈ [Reg.startNonceHi, Reg.startNonceLo], P (.call (.write value addr)))
    (target : ∀ hash : Hash, P (.call (.writeBulk hash.bytes Reg.target true))) :
    (programTarget work boundary : Routine ν _).Only P := by
  have nonce : (do
      tryWrite (work.startNonce >>> 32).toUInt32 Reg.startNonceHi "start nonce"
      tryWrite work.startNonce.toUInt32 Reg.startNonceLo "start nonce" : Routine ν Unit).Only P :=
    (only_tryWrite quiet (writes _ _ (by decide))).bind fun _ ↦
      only_tryWrite quiet (writes _ _ (by decide))
  refine ⟨target _, fun x ↦ ?_⟩
  cases x with
  | ok => exact nonce
  | error fault => exact (only_note quiet rfl).bind fun _ ↦ nonce

/-- Programs what comes after the header, for a target that the core can do. -/
def programBoundary (work : Work) (boundary : Hash) : Routine ν Unit := do
  if boundary ≠ work.boundary then note (.boundaryRaised work.boundary boundary)
  programTarget work boundary

omit quiet in
theorem programJob_eq (work : Work) :
    (programJob work : Routine ν Unit) =
      .ask (.call (.writeBulk work.header.bytes Reg.header true)) fun
        | .ok () => programBoundary work (Hash.effective work.boundary)
        | .error fault => .ask (.note (.headerFailed fault)) fun _ ↦
          programBoundary work (Hash.effective work.boundary) := by
  rw [programJob]
  generalize Hash.effective work.boundary = boundary
  refine congrArg (Routine.ask _) (funext fun x ↦ ?_)
  cases x <;> rfl

theorem only_programBoundary (work : Work) (boundary : Hash)
    (writes : ∀ value, ∀ addr ∈ [Reg.startNonceHi, Reg.startNonceLo], P (.call (.write value addr)))
    (target : ∀ hash : Hash, P (.call (.writeBulk hash.bytes Reg.target true))) :
    (programBoundary work boundary : Routine ν _).Only P := by
  have rest := only_programTarget quiet work boundary writes target
  rw [programBoundary]
  dsimp only
  split
  · exact (only_note quiet rfl).bind fun _ ↦ rest
  · exact rest

theorem only_programJob (work : Work)
    (writes : ∀ value, ∀ addr ∈ [Reg.startNonceHi, Reg.startNonceLo], P (.call (.write value addr)))
    (header : P (.call (.writeBulk work.header.bytes Reg.header true)))
    (target : ∀ hash : Hash, P (.call (.writeBulk hash.bytes Reg.target true))) :
    (programJob work : Routine ν _).Only P := by
  rw [programJob_eq]
  generalize Hash.effective work.boundary = boundary
  have rest := only_programBoundary quiet work boundary writes target
  refine ⟨header, fun x ↦ ?_⟩
  cases x with
  | ok => exact rest
  | error fault => exact ⟨quiet _ rfl, fun _ ↦ rest⟩

theorem only_pacing (b : Board) : (b.pacing : Routine ν _).Only P := ⟨quiet _ rfl, fun _ ↦ trivial⟩

theorem only_programPacing (b : Board) (intensity : Intensity)
    (books : ∀ f, Bookkeeping f → P (.revise f))
    (flags : ∀ value, P (.call (.write value Reg.coreFlags))) :
    (b.programPacing intensity : Routine ν _).Only P := by
  refine ⟨books _ fun _ ↦ ⟨rfl, rfl, rfl, rfl, rfl, rfl, ⟨rfl, rfl⟩, .refl _⟩, fun _ ↦ ?_⟩
  refine (only_write quiet (flags _)).bind fun x ↦ ?_
  cases x with
  | ok => trivial
  | error fault => exact (only_note quiet rfl).bind fun _ ↦ only_escalate quiet b _ _

/-! ## One round -/

theorem only_readSlots (slots : ∀ addr ∈ Reg.slots, P (.call (.read addr))) (flags : Word)
    {n k : Nat} (h : k + n ≤ Reg.polledSlots) :
    (readSlots flags n (UInt32.ofNat k) : Routine ν _).Only P := by
  induction n generalizing k with
  | zero => trivial
  | succ n ih =>
    obtain ⟨hhi, hlo⟩ := Reg.mem_slots (show k < Reg.polledSlots by omega)
    have hnext : UInt32.ofNat k + 1 = UInt32.ofNat (k + 1) := (UInt32.ofNat_add k 1).symm
    have rest := ih (k := k + 1) (by omega)
    rw [readSlots, hnext]
    split
    · exact rest
    · refine (only_readOr quiet (slots _ hhi)).bind fun hi ↦ ?_
      refine (only_readOr quiet (slots _ hlo)).bind fun lo ↦ ?_
      exact rest.bind fun _ ↦ trivial

theorem only_pollNonces (slots : ∀ addr ∈ Reg.slots, P (.call (.read addr)))
    (clears : P (.call (.write Reg.coreClearNonces Reg.coreEnable))) :
    (pollNonces : Routine ν _).Only P := by
  refine (only_readOr quiet (quiet _ rfl)).bind fun flags ↦ ?_
  refine (only_readSlots quiet slots flags (k := 0) (by decide)).bind fun nonces ↦ ?_
  split
  · exact (only_tryWrite quiet clears).bind fun _ ↦ trivial
  · trivial

theorem only_checkStall (stall : P (.call (.read Reg.stallCount))) (b : Board)
    (last : Option Word) : (b.checkStall last : Routine ν _).Only P := by
  rw [checkStall]
  split
  · trivial
  · refine Only.bind (?_ : (_ : Routine ν Word).Only P) fun count ↦ only_done _
    refine (only_read quiet stall).bind fun x ↦ ?_
    cases x with
    | ok count => trivial
    | error fault => exact (only_note quiet rfl).bind fun _ ↦ trivial

theorem only_countChecks (c : CheckCounter)
    (checks : ∀ addr ∈ Reg.checks, P (.call (.read addr))) :
    (countChecks c : Routine ν _).Only P := by
  refine (only_readOr quiet (checks _ (by decide))).bind fun lo ↦ ?_
  exact (only_readOr quiet (checks _ (by decide))).bind fun hi ↦ trivial

theorem only_report (b : Board) (work : Work) (nonce : UInt64)
    (submits : ∀ solution : Solution, solution.work = work → P (.submit solution)) :
    (b.report work nonce : Routine ν _).Only P := by
  refine (only_note quiet rfl).bind fun _ ↦ ⟨quiet _ rfl, fun foundAt ↦ ?_⟩
  refine ⟨submits _ rfl, fun taken ↦ ?_⟩
  cases taken with
  | true => trivial
  | false => exact only_note quiet rfl

theorem only_keepAccount [Quantity ν] (tunes : ∀ checks, P (.tune checks))
    (averages : ∀ f, Averaging f → P (.revise f))
    (delta : UInt64) (found : Nat) (elapsed t : Micros) :
    (keepAccount delta found elapsed t : Routine ν _).Only P :=
  ⟨tunes _, fun _ ↦ ⟨quiet _ rfl, fun _ ↦ ⟨quiet _ rfl, fun _ ↦
    only_request (averages _ fun _ ↦
      ⟨rfl, rfl, rfl, rfl, rfl, rfl, ⟨rfl, rfl⟩, ⟨rfl, rfl, rfl, rfl⟩⟩)⟩⟩⟩

end Parts

/-! ## The whole search -/

omit quiet

section Finish

variable [Quantity ν]

theorem only_watchIfDue (room : RoomToWatch P) (b : Board) (watched t : Micros) :
    (b.watchIfDue watched t : Routine ν _).Only P := by
  rw [watchIfDue]
  split
  · exact (only_checkTelemetry room b).bind fun _ ↦ trivial
  · trivial

/-- Room for everything that is asked in a round, once its nonces are there. -/
structure RoomToFinish (P : Request ν → Prop) (work : Work) : Prop extends RoomToWatch P where
  stall : P (.call (.read Reg.stallCount))
  checks : ∀ addr ∈ Reg.checks, P (.call (.read addr))
  tunes : ∀ checks, P (.tune checks)
  averages : ∀ f, Averaging f → P (.revise f)
  submits : ∀ solution : Solution, solution.work = work → P (.submit solution)

theorem only_finishRound {work : Work} (room : RoomToFinish P work) (b : Board) (r : Round)
    (nonces : List UInt64) : (b.finishRound work r nonces : Routine ν _).Only P := by
  have quiet := room.quiet
  refine (only_checkStall quiet room.stall b r.stall).bind fun stall ↦ ?_
  refine (only_countChecks quiet r.checks room.checks).bind fun checks ↦ ?_
  refine (only_forEach fun nonce _ ↦ only_report quiet b work nonce room.submits).bind fun _ ↦ ?_
  refine (only_request (quiet .now rfl)).bind fun t ↦ ?_
  refine (only_keepAccount quiet room.tunes room.averages _ _ _ _).bind fun _ ↦ ?_
  refine (only_watchIfDue room.toRoomToWatch b r.watched t).bind fun watched ↦ ?_
  split
  · exact (only_note quiet rfl).bind fun _ ↦ trivial
  · trivial

end Finish

/-- Room for everything that gathering the nonces of a round asks. -/
structure RoomToGather (P : Request ν → Prop) : Prop where
  quiet : ∀ r, r.isQuiet → P r
  slots : ∀ addr ∈ Reg.slots, P (.call (.read addr))
  interrupts : ∀ mask timeout, P (.call (.awaitInterrupt mask timeout))
  acquire : P .acquire
  release : P .release
  clears : P (.call (.write Reg.coreClearNonces Reg.coreEnable))

/-- Room for everything that the rounds of a search for nonces of some work ask. -/
structure RoomToRounds (P : Request ν → Prop) (work : Work) : Prop extends RoomToFinish P work where
  slots : ∀ addr ∈ Reg.slots, P (.call (.read addr))
  interrupts : ∀ mask timeout, P (.call (.awaitInterrupt mask timeout))
  looks : P .isCancelled
  acquire : P .acquire
  release : P .release
  clears : P (.call (.write Reg.coreClearNonces Reg.coreEnable))

theorem RoomToRounds.toGather {work : Work} (room : RoomToRounds P work) : RoomToGather P where
  quiet := room.quiet
  slots := room.slots
  interrupts := room.interrupts
  acquire := room.acquire
  release := room.release
  clears := room.clears

section Gather

variable (room : RoomToGather P)
include room

theorem only_awaitInterrupt (b : Board) : (b.awaitInterrupt : Routine ν _).Only P := by
  refine (only_request room.release).bind fun _ ↦ ?_
  refine (only_request (room.interrupts _ _)).bind fun answer ↦ ?_
  refine (only_request room.acquire).bind fun _ ↦ ?_
  rcases answer with fault | nonce
  · refine (only_note room.quiet rfl).bind fun _ ↦ ?_
    refine (only_escalate room.quiet b _ _).bind fun x ↦ ?_
    cases x <;> trivial
  · cases nonce <;> trivial

theorem only_gatherNonces (b : Board) : (b.gatherNonces : Routine ν _).Only P := by
  rw [gatherNonces]
  cases b.settings.nonceReporting with
  | interrupt => exact only_awaitInterrupt room b
  | polled =>
    refine (only_suspend room.quiet room.acquire room.release).bind fun _ ↦ ?_
    exact (only_pollNonces room.quiet room.slots room.clears).bind fun nonces ↦ trivial

end Gather

theorem only_searchRound [Quantity ν] {work : Work} (room : RoomToRounds P work) (b : Board)
    (r : Round) : (b.searchRound work r : Routine ν _).Only P := by
  refine (only_request (room.quiet .memory rfl)).bind fun m ↦ ?_
  split
  · trivial
  · refine (only_request room.looks).bind fun cancelled ↦ ?_
    split
    · trivial
    · refine (only_gatherNonces room.toGather b).bind fun x ↦ ?_
      cases x with
      | error e => trivial
      | ok nonces => exact only_finishRound room.toRoomToFinish b r nonces

/-- Room for everything that programming some work asks. -/
structure RoomToProgram (P : Request ν → Prop) (work : Work) : Prop where
  quiet : ∀ r, r.isQuiet → P r
  programmed : ∀ header nonce intensity, P (.note (.workProgrammed header nonce intensity))
  books : ∀ f, Bookkeeping f → P (.revise f)
  writes : ∀ value, ∀ addr ∈ [Reg.startNonceHi, Reg.startNonceLo, Reg.coreFlags, Reg.coreEnable],
    P (.call (.write value addr))
  header : P (.call (.writeBulk work.header.bytes Reg.header true))
  target : ∀ hash : Hash, P (.call (.writeBulk hash.bytes Reg.target true))

/-- Room for everything that a search for nonces of some work asks, but for what has to do with
counting, and with gathering nonces and handing them over. -/
structure RoomToRun (P : Request ν → Prop) (work : Work) : Prop where
  quiet : ∀ r, r.isQuiet → P r
  programmed : ∀ header nonce intensity, P (.note (.workProgrammed header nonce intensity))
  looks : P .isCancelled
  books : ∀ f, Bookkeeping f → P (.revise f)
  searching : ∀ on, P (.revise fun m ↦ m.withStatus fun s ↦ { s with searching := on })
  halt : P (.revise Memory.halt)
  acquire : P .acquire
  release : P .release
  writes : ∀ value, ∀ addr ∈ [Reg.startNonceHi, Reg.startNonceLo, Reg.coreFlags, Reg.coreEnable,
    Reg.dagPower], P (.call (.write value addr))
  header : P (.call (.writeBulk work.header.bytes Reg.header true))
  target : ∀ hash : Hash, P (.call (.writeBulk hash.bytes Reg.target true))

/-- Room for everything that a search for nonces of some work asks, but for what has to do with
counting. -/
structure RoomToSeek (P : Request ν → Prop) (work : Work) : Prop extends RoomToRun P work where
  stall : P (.call (.read Reg.stallCount))
  slots : ∀ addr ∈ Reg.slots, P (.call (.read addr))
  interrupts : ∀ mask timeout, P (.call (.awaitInterrupt mask timeout))
  submits : ∀ solution : Solution, solution.work = work → P (.submit solution)

/-- Room for everything that a search for nonces of some work asks. -/
structure RoomToSearch (P : Request ν → Prop) (work : Work) : Prop extends RoomToSeek P work where
  checks : ∀ addr ∈ Reg.checks, P (.call (.read addr))
  tunes : ∀ checks, P (.tune checks)
  averages : ∀ f, Averaging f → P (.revise f)

section Seek

variable {work : Work}

theorem RoomToRun.toWatch (room : RoomToRun P work) : RoomToWatch P where
  quiet := room.quiet
  books := room.books
  halt := room.halt
  coreFlags value := room.writes value _ (by decide)
  coreOff := room.writes _ _ (by decide)
  powerOff := room.writes _ _ (by decide)

theorem RoomToRun.toProgram (room : RoomToRun P work) : RoomToProgram P work where
  quiet := room.quiet
  programmed := room.programmed
  books := room.books
  writes value addr h := room.writes value addr (List.mem_append_left [Reg.dagPower] h)
  header := room.header
  target := room.target

theorem RoomToSeek.toGather (room : RoomToSeek P work) : RoomToGather P where
  quiet := room.quiet
  slots := room.slots
  interrupts := room.interrupts
  acquire := room.acquire
  release := room.release
  clears := room.writes _ _ (by decide)

end Seek

theorem RoomToSearch.toRounds {work : Work} (room : RoomToSearch P work) :
    RoomToRounds P work where
  toRoomToWatch := room.toWatch
  stall := room.stall
  slots := room.slots
  checks := room.checks
  interrupts := room.interrupts
  looks := room.looks
  tunes := room.tunes
  averages := room.averages
  acquire := room.acquire
  release := room.release
  clears := room.writes _ _ (by decide)
  submits := room.submits

theorem only_programWork {work : Work} (room : RoomToProgram P work) (b : Board) :
    (b.programWork work : Routine ν _).Only P := by
  have quiet := room.quiet
  refine (only_programJob quiet work (fun value addr h ↦ room.writes value addr ?_) room.header
    room.target).bind fun _ ↦ ?_
  · simp only [List.mem_cons, List.not_mem_nil, or_false] at h ⊢
    rcases h with h | h <;> simp [h]
  · refine (only_pacing quiet b).bind fun intensity ↦ ?_
    refine (only_programPacing quiet b intensity room.books fun value ↦
      room.writes value _ (by decide)).bind fun x ↦ ?_
    cases x with
    | error e => trivial
    | ok =>
      refine (only_tryWrite quiet (room.writes _ _ (by decide))).bind fun _ ↦ ?_
      exact (only_request (room.programmed ..)).bind fun _ ↦ trivial

section Whole

variable {work : Work} (room : RoomToSearch P work)
include room

variable [Quantity ν]

theorem only_runSearch (b : Board) : (b.runSearch work : Routine ν _).Only P := by
  refine (only_programWork room.toProgram b).bind fun x ↦ ?_
  cases x with
  | error e => trivial
  | ok =>
    refine (only_request (room.searching _)).bind fun _ ↦ ?_
    refine (only_request (room.quiet .now rfl)).bind fun t ↦ ?_
    exact only_repeating fun r ↦ only_searchRound room.toRounds b r

theorem only_search (b : Board) : (b.search work : Routine ν _).Only P := by
  have quiet := room.quiet
  refine (only_request room.acquire).bind fun _ ↦ ?_
  refine (only_runSearch room b).bind fun result ↦ ?_
  refine (only_stopCore quiet (fun value ↦ room.writes value _ (by decide))
    (room.writes _ _ (by decide))).bind fun _ ↦ ?_
  refine (only_request room.release).bind fun _ ↦ ?_
  refine (only_request (room.searching _)).bind fun _ ↦ ?_
  cases result with
  | ok exit => exact (only_note quiet rfl).bind fun _ ↦ trivial
  | error e => exact (only_note quiet rfl).bind fun _ ↦ trivial

end Whole

end Board

end HashBoard
