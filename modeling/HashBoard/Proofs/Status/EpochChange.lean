import HashBoard.Proofs.Status.Account

/-!
# How an epoch change gets to the word

Up to the start of the generator nothing counts. From there on each part leaves the account such
that what was to be done by then was done if and only if nothing was swallowed: after the wait the
dataset is generated or not, after the copies it is complete or not. The write of the word comes
right after the copies.
-/

namespace HashBoard.Status

open Routine Board Progress

variable {ν : Type} {b : Board} {s t : Progress} {epoch : Word}

/-! ## What counts for nothing -/

theorem idles_revise (f : Memory ν → Memory ν) : Idles (.revise f) := ⟨rfl, fun _ _ ↦ rfl⟩

theorem idles_acquire : Idles (.acquire : Request ν) := ⟨rfl, fun _ _ ↦ rfl⟩

theorem idles_release : Idles (.release : Request ν) := ⟨rfl, fun _ _ ↦ rfl⟩

theorem idles_range (value addr : Word) (h : Reg.isRange addr) :
    Idles (.call (.write value addr) : Request ν) := by
  refine idles_write ?_ ?_
  · rintro rfl
    exact absurd h (by decide)
  · rintro ⟨rfl, -⟩
    exact absurd h (by decide)

theorem idles_setup (value : Word) (addr : Word) (h : addr ∈ Reg.setup) :
    Idles (.call (.write value addr) : Request ν) := by
  refine idles_write ?_ ?_
  · rintro rfl
    exact absurd h (by decide)
  · rintro ⟨rfl, -⟩
    exact absurd h (by decide)

theorem idles_look : Idles (.isCancelled : Request ν) := ⟨rfl, fun _ _ ↦ rfl⟩

theorem idles_clock (event : Event ν) (h : event.isClock) : Idles (.note event) := by
  refine ⟨rfl, fun s x ↦ ?_⟩
  cases event with
  | notWaitingAnyLonger e => cases h
  | _ => rfl

theorem roomToDrive_idles : RoomToDrive (Idles : Request ν → Prop) where
  quiet _ := idles_of_isQuiet
  preparing := ⟨rfl, fun _ _ ↦ rfl⟩
  enter := idles_revise _
  changing _ := ⟨rfl, fun _ _ ↦ rfl⟩
  clocks := idles_clock
  clock _ := idles_revise _
  books f _ := idles_revise f
  writes := idles_setup
  stop := idles_write (by decide) (by decide)

theorem roomToCache_idles : RoomToCache (Idles : Request ν → Prop) where
  quiet _ := idles_of_isQuiet
  phases _ := ⟨rfl, fun _ _ ↦ rfl⟩
  overdue := ⟨rfl, fun _ _ ↦ by simp [after, cacheAwaited]⟩
  enters _ := idles_revise _
  looks := idles_look
  acquire := idles_acquire
  release := idles_release
  writes value addr h := by
    simp only [List.mem_cons, List.not_mem_nil, or_false] at h
    rcases h with rfl | rfl <;>
    exact idles_write (by decide) fun hstart ↦ absurd hstart.1 (by decide)
  seed _ := ⟨rfl, fun _ _ ↦ rfl⟩
  uploads _ _ := ⟨rfl, fun _ _ ↦ rfl⟩

theorem only_enter_idles (phase : EpochPhase) : (enter phase : Routine ν _).Only Idles :=
  only_enter (idles_revise _) ⟨rfl, fun _ _ ↦ rfl⟩

/-! ## Generating -/

/-- The generator was started unless that was swallowed, and the status says whether it was seen to
have finished. -/
def Waiting (status : Word) (s : Progress) : Prop :=
  s.started = !s.swallowed ∧ s.finished = decide (status &&& Reg.dagDone ≠ 0) ∧ s.copies = []

/-- Whether the dataset was generated is whether nothing was swallowed. -/
def Generated (b : Board) (s : Progress) : Prop :=
  (s.IsGenerated b ↔ s.swallowed = false) ∧ s.copies = []

/-- The generator is started, or the failure to do so is swallowed. -/
theorem ensures_tryStart (hs : s.Fresh epoch) :
    (tryWrite Reg.dagStart Reg.dagControl "generator start" : Routine ν _).Ensures (watch ν b)
      (fun _ ↦ Waiting 0) s := by
  obtain ⟨-, hstarted, hfinished, hcopies, hswallowed⟩ := hs
  have quiet : ∀ r : Request ν, r.isQuiet → Idles r := fun _ ↦ idles_of_isQuiet
  have attempt : (Routine.write Reg.dagStart Reg.dagControl : Routine ν _).Ensures (watch ν b)
      (fun _ ↦ Waiting 0) s := by
    refine (ensures_idle (only_note quiet rfl) s).seq fun _ t ht ↦ ?_
    subst ht
    refine ⟨trivial, allows_of_unmarked (unmarked_write (by decide)), fun x u hm ↦ ?_⟩
    rw [eq_of_moves hm]
    cases x with
    | ok => exact ⟨by simp [after, hswallowed], by simp [after], hcopies⟩
    | error fault => exact ⟨by simp [after, hstarted], by simp [after, hfinished], hcopies⟩
  refine attempt.seq fun x t ht ↦ ?_
  cases x with
  | ok => exact ht
  | error fault => exact ensures_keep ht (only_note quiet rfl)

/-- A look at the status of the generator that succeeds replaces what was known of it, as long as
that was that it had not finished. -/
theorem ensures_look {status : Word} (hstatus : status &&& Reg.dagDone = 0)
    (hs : Waiting status s) :
    (Routine.read Reg.dagControl : Routine ν _).Ensures (watch ν b)
      (fun
        | .ok status' => Waiting status'
        | .error _ => Waiting status) s := by
  obtain ⟨hstarted, hfinished, hcopies⟩ := hs
  refine ⟨trivial, nofun, fun x t hm ↦ ?_⟩
  rw [eq_of_moves hm]
  cases x with
  | error fault => exact ⟨hstarted, hfinished, hcopies⟩
  | ok status' =>
    have ht : Waiting status'
        (s.after (⟨.call (.read Reg.dagControl), .ok status'⟩ : Answered ν)) := by
      refine ⟨hstarted, ?_, hcopies⟩
      simp [after, hfinished, hstatus]
    exact (ensures_keep ht (only_note (fun _ ↦ idles_of_isQuiet) rfl)).seq fun _ t ht ↦ ht

theorem ensures_startGenerator (hs : s.Fresh epoch) :
    (startGenerator : Routine ν _).Ensures (watch ν b) (fun begun ↦ Waiting begun.2) s := by
  have quiet : ∀ r : Request ν, r.isQuiet → Idles r := fun _ ↦ idles_of_isQuiet
  refine (ensures_keep hs (only_enter_idles _)).seq fun _ t ht ↦ ?_
  refine (ensures_keep ht (only_note quiet rfl)).seq fun _ t ht ↦ ?_
  refine (ensures_keep ht (only_request (quiet .now rfl))).seq fun started t ht ↦ ?_
  refine (ensures_tryStart ht).seq fun _ t ht ↦ ?_
  have first : (firstStatus : Routine ν _).Ensures (watch ν b) Waiting t := by
    refine (ensures_look rfl ht).seq fun x t ht ↦ ?_
    cases x with
    | ok status => exact ht
    | error fault => exact (ensures_keep ht (only_note quiet rfl)).seq fun _ t ht ↦ ht
  exact first.seq fun status t ht ↦ ht

/-- The wait ends when the end of the generator is seen, or is given up and that is swallowed. -/
theorem ensures_await (hwait : b.settings.skipDagWait = false) {watch' : Nat → Routine ν Unit}
    (hw : ∀ n, (watch' n).Only Idles) (n : Nat) (status : Word) (hs : Waiting status s) :
    (b.await dagAwaited watch' n status).Ensures (watch ν b)
      (fun
        | .ok _ => Generated b
        | .error _ => fun _ ↦ True) s := by
  have quiet : ∀ r : Request ν, r.isQuiet → Idles r := fun _ ↦ idles_of_isQuiet
  have seen {t : Progress} {status : Word} (hstatus : status &&& Reg.dagDone ≠ 0)
      (ht : Waiting status t) : Generated b t := by
    obtain ⟨hstarted, hfinished, hcopies⟩ := ht
    refine ⟨?_, hcopies⟩
    simp [IsGenerated, hwait, hstarted, hfinished, hstatus]
  induction n generalizing status s with
  | zero =>
    rw [await]
    split
    · rename_i hstatus
      exact seen hstatus hs
    · rename_i hstatus
      refine (ensures_keep hs (only_request idles_look)).seq fun cancelled t ht ↦ ?_
      cases cancelled with
      | true => exact trivial
      | false =>
        refine (ensures_keep ht (only_escalate quiet b _ _)).seq fun e t ht ↦ ?_
        cases e with
        | error e => exact trivial
        | ok =>
          obtain ⟨-, hfinished, hcopies⟩ := ht
          have hnot : t.finished = false := by simpa [hfinished, dagAwaited] using hstatus
          refine ⟨trivial, allows_of_unmarked rfl, fun x u hm ↦ ?_⟩
          rw [eq_of_moves hm]
          refine ⟨?_, hcopies⟩
          simp [after, dagAwaited, IsGenerated, hwait, hnot]
  | succ n ih =>
    rw [await]
    split
    · rename_i hstatus
      exact seen hstatus hs
    · rename_i hstatus
      refine (ensures_keep hs (only_request idles_look)).seq fun cancelled t ht ↦ ?_
      cases cancelled with
      | true => exact trivial
      | false =>
        have pause {span : Micros} : (suspend span : Routine ν Unit).Only Idles :=
          only_suspend quiet idles_acquire idles_release
        refine (ensures_keep ht pause).seq fun _ t ht ↦ ?_
        refine (ensures_look (not_not.mp hstatus) ht).seq fun x t ht ↦ ?_
        cases x with
        | ok status => exact (ensures_keep ht (hw n)).seq fun _ t ht ↦ ih status ht
        | error fault =>
          refine (ensures_keep ht (only_escalate quiet b _ _)).seq fun e t ht ↦ ?_
          cases e with
          | error e => exact trivial
          | ok =>
            refine (ensures_keep ht (only_note quiet rfl)).seq fun _ t ht ↦ ?_
            exact (ensures_keep ht (hw n)).seq fun _ t ht ↦ ih status ht

theorem ensures_awaitDag (range : Nat) (status : Word) (hs : Waiting status s) :
    (b.awaitDag range status : Routine ν _).Ensures (watch ν b)
      (fun
        | .ok _ => Generated b
        | .error _ => fun _ ↦ True) s := by
  have quiet : ∀ r : Request ν, r.isQuiet → Idles r := fun _ ↦ idles_of_isQuiet
  rw [awaitDag]
  split
  · rename_i hskip
    obtain ⟨hstarted, -, hcopies⟩ := hs
    have generated : Generated b s := ⟨by simp [IsGenerated, hskip, hstarted], hcopies⟩
    exact (ensures_keep generated (only_note quiet rfl)).seq fun _ t ht ↦ ht
  · rename_i hwait
    exact ensures_await (by simpa using hwait) (only_mentionProgress quiet range) dagPolls status hs

theorem ensures_generate (ctx : EpochContext) (hs : s.Fresh epoch) :
    (b.generate ctx : Routine ν _).Ensures (watch ν b)
      (fun
        | .ok _ => Generated b
        | .error _ => fun _ ↦ True) s := by
  have quiet : ∀ r : Request ν, r.isQuiet → Idles r := fun _ ↦ idles_of_isQuiet
  rw [generate_eq]
  refine (ensures_startGenerator hs).seq fun begun t ht ↦ ?_
  refine (ensures_awaitDag _ begun.2 ht).seq fun x t ht ↦ ?_
  cases x with
  | error e => exact trivial
  | ok status =>
    refine (ensures_keep ht (only_request (quiet .now rfl))).seq fun finished t ht ↦ ?_
    exact (ensures_keep ht (only_note quiet rfl)).seq fun _ t ht ↦ ht

/-! ## Spreading -/

/-- Some pieces were copied, and whether the dataset was generated is whether nothing was
swallowed. -/
def Spreading (b : Board) (i : Nat) (s : Progress) : Prop :=
  (s.IsGenerated b ↔ s.swallowed = false) ∧ s.copies = Dag.pieceCopies i

/-- Whether the dataset is complete is whether nothing was swallowed. -/
def Settled (b : Board) (s : Progress) : Prop := s.IsComplete b ↔ s.swallowed = false

/-- A copy that fails leaves the dataset incomplete, and is swallowed. -/
theorem settled_of_failed {src dst length : UInt64} {fault : LinkFault} {i : Nat}
    (hi : i ≤ Reg.chunkCount) (hs : s.copies = Dag.pieceCopies i) :
    Settled b (s.after (⟨.call (.move src dst length), .error fault⟩ : Answered ν)) := by
  refine iff_of_false ?_ nofun
  rintro ⟨-, hcopies⟩
  have hlength : i = 257 := by
    rw [← Dag.length_copies, ← hcopies]
    simp [after, hs]
  rw [Reg.chunkCount] at hi
  omega

theorem spreading_of_copied {i : Nat} {src dst length : UInt64} (hs : Spreading b i s)
    (hcopy : (src, dst, length) = Dag.pieceCopy i) :
    Spreading b (i + 1) (s.after (⟨.call (.move src dst length), .ok ()⟩ : Answered ν)) := by
  refine ⟨hs.1, ?_⟩
  rw [Dag.pieceCopies_succ, ← hcopy, ← hs.2]
  rfl

theorem ensures_spreadPieces (n i : Nat) (hi : i + n ≤ Reg.chunkCount) (hs : Spreading b i s) :
    (spreadPieces n i : Routine ν _).Ensures (watch ν b)
      (fun
        | .ok true => Spreading b (i + n)
        | .ok false => Settled b
        | .error _ => fun _ ↦ True) s := by
  have quiet : ∀ r : Request ν, r.isQuiet → Idles r := fun _ ↦ idles_of_isQuiet
  induction n generalizing i s with
  | zero => exact hs
  | succ n ih =>
    refine (ensures_keep hs (only_request idles_look)).seq fun cancelled t ht ↦ ?_
    cases cancelled with
    | true => exact trivial
    | false =>
      -- a copy that fails ends the spreading, and settles it
      have copy : (move (Reg.staging + UInt64.ofNat i * Reg.chunkSize)
          (Dag.pieceTarget (UInt64.ofNat i)) Reg.chunkSize : Routine ν _).Ensures (watch ν b)
          (fun
            | .ok _ => Spreading b (i + 1)
            | .error _ => Settled b) t := by
        refine (ensures_keep ht (only_note quiet rfl)).seq fun _ t ht ↦ ?_
        refine ⟨trivial, nofun, fun x u hm ↦ ?_⟩
        rw [eq_of_moves hm]
        cases x with
        | ok => exact spreading_of_copied ht rfl
        | error fault => exact settled_of_failed (by omega) ht.2
      refine copy.seq fun x t ht ↦ ?_
      cases x with
      | ok =>
        have hnext : i + 1 + n = i + (n + 1) := by omega
        rw [← hnext]
        exact ih (i + 1) (by omega) ht
      | error fault => exact (ensures_keep ht (only_note quiet rfl)).seq fun _ t ht ↦ ht

/-- The last of the copies completes the dataset if it was generated. -/
theorem ensures_copyImage (hs : Spreading b Reg.chunkCount s) :
    (move 0 Reg.imageTarget Reg.imageLength : Routine ν _).Ensures (watch ν b)
      (fun _ ↦ Settled b) s := by
  refine (ensures_keep hs (only_note (fun _ ↦ idles_of_isQuiet) rfl)).seq fun _ t ht ↦ ?_
  refine ⟨trivial, nofun, fun x u hm ↦ ?_⟩
  rw [eq_of_moves hm]
  cases x with
  | error fault => exact settled_of_failed (Nat.le_refl _) ht.2
  | ok =>
    have hcopies : (t.after (⟨.call (.move 0 Reg.imageTarget Reg.imageLength), .ok ()⟩ :
        Answered ν)).copies = Dag.copies := by rw [Dag.copies, ← ht.2]; rfl
    have hcomplete : (t.after (⟨.call (.move 0 Reg.imageTarget Reg.imageLength), .ok ()⟩ :
        Answered ν)).IsComplete b ↔ t.IsGenerated b := and_iff_left hcopies
    exact hcomplete.trans ht.1

theorem ensures_spread (hs : Generated b s) :
    (spread : Routine ν _).Ensures (watch ν b)
      (fun
        | .ok _ => Settled b
        | .error _ => fun _ ↦ True) s := by
  have quiet : ∀ r : Request ν, r.isQuiet → Idles r := fun _ ↦ idles_of_isQuiet
  refine (ensures_keep hs (only_enter_idles _)).seq fun _ t ht ↦ ?_
  refine (ensures_keep ht (only_note quiet rfl)).seq fun _ t ht ↦ ?_
  refine (ensures_keep ht (only_request (quiet .now rfl))).seq fun started t ht ↦ ?_
  refine (ensures_spreadPieces Reg.chunkCount 0 (by omega) ht).seq fun x t ht ↦ ?_
  rcases x with e | all
  · exact trivial
  · cases all with
    | false => exact ht
    | true =>
      rw [Nat.zero_add] at ht
      refine (ensures_copyImage ht).seq fun y t ht ↦ ?_
      cases y with
      | error fault => exact (ensures_keep ht (only_note quiet rfl)).seq fun _ t ht ↦ ht
      | ok =>
        refine (ensures_keep ht (only_request (quiet .now rfl))).seq fun finished t ht ↦ ?_
        exact (ensures_keep ht (only_note quiet rfl)).seq fun _ t ht ↦ ht

/-! ## The whole change -/

/-- The word is written where it says what it should. -/
theorem ensures_mark (hepoch : s.epoch = some epoch) (hs : Settled b s) :
    (tryWrite (Reg.dagStatusValid ||| (epoch &&& (0xffff : Word))) Reg.dagStatus "DAG status" :
      Routine ν _).Ensures (watch ν b) (fun _ _ ↦ True) s := by
  have quiet : ∀ r : Request ν, r.isQuiet → Idles r := fun _ ↦ idles_of_isQuiet
  let R : Progress → Prop := fun t ↦ t.epoch = some epoch ∧ Settled b t
  have hs : R s := ⟨hepoch, hs⟩
  refine Ensures.seq (R := fun _ _ ↦ True) ?_ fun x u _ ↦ ?_
  · refine (ensures_keep hs (only_note quiet rfl)).seq fun _ u hu ↦ ?_
    -- the only place where the word is written
    refine ⟨trivial, fun value hmarks ↦ ?_, fun _ _ _ ↦ trivial⟩
    rw [Request.marks] at hmarks
    split at hmarks
    · exact ⟨⟨epoch, hu.1, (Option.some.inj hmarks).symm⟩, hu.2⟩
    · cases hmarks
  · cases x with
    | ok => exact trivial
    | error fault => exact ensures_true (only_note quiet rfl) u

theorem ensures_buildDataset (ctx : EpochContext) (hs : s.Fresh ctx.epoch) :
    (b.buildDataset ctx : Routine ν _).Ensures (watch ν b) (fun _ _ ↦ True) s := by
  have quiet : ∀ r : Request ν, r.isQuiet → Idles r := fun _ ↦ idles_of_isQuiet
  have power (value : Word) (what : String) :
      (tryWrite value Reg.dagPower what : Routine ν _).Only Idles :=
    only_tryWrite quiet (idles_setup _ _ (by decide))
  refine (ensures_keep hs (power ..)).seq fun _ t ht ↦ ?_
  refine (ensures_keep ht (power ..)).seq fun _ t ht ↦ ?_
  refine (ensures_keep ht (only_provideCache roomToCache_idles b ctx _)).seq fun x t ht ↦ ?_
  cases x with
  | error e => exact trivial
  | ok =>
    refine (ensures_keep ht (only_divideItems quiet b ctx _ (idles_revise _)
      idles_range)).seq fun _ t ht ↦ ?_
    have same (s t : Progress) (r : Request ν) (x : Reply r) (hs : s.epoch = some ctx.epoch)
        (hm : (watch ν b).moves s r x t) : t.epoch = some ctx.epoch := by
      rw [eq_of_moves hm, epoch_after, hs]
    refine ((ensures_generate ctx ht).keep ht.1 same).seq fun y t ht ↦ ?_
    cases y with
    | error e => exact trivial
    | ok =>
      refine ((ensures_spread ht.1).keep ht.2 same).seq fun z t ht ↦ ?_
      cases z with
      | error e => exact trivial
      | ok =>
        refine (ensures_mark ht.2 ht.1).seq fun _ u _ ↦ ?_
        exact (ensures_true (only_note quiet rfl) u).seq fun _ _ _ ↦ trivial

/-- A dataset that is found resident is one that the word on the board shows. -/
theorem ensures_holdsDataset (hs : s.Fresh epoch) :
    (b.holdsDataset epoch : Routine ν _).Ensures (watch ν b)
      (fun holds t ↦ t.Fresh epoch ∧ (holds → t.Shows epoch)) s := by
  have quiet : ∀ r : Request ν, r.isQuiet → Idles r := fun _ ↦ idles_of_isQuiet
  have look : (readOr Reg.dagStatus 0 "DAG status" : Routine ν _).Ensures (watch ν b)
      (fun value t ↦ t.Fresh epoch ∧
        (value &&& Reg.dagStatusValid ≠ 0 → t.shown = some value)) s := by
    have attempt : (Routine.read Reg.dagStatus : Routine ν _).Ensures (watch ν b)
        (fun x t ↦ t.Fresh epoch ∧ ∀ value, x = .ok value → t.shown = some value) s := by
      refine ⟨trivial, nofun, fun x t hm ↦ ?_⟩
      rw [eq_of_moves hm]
      cases x with
      | error fault => exact ⟨hs, nofun⟩
      | ok value =>
        let R : Progress → Prop := fun t ↦ t.Fresh epoch ∧ t.shown = some value
        have ht : R (s.after (⟨.call (.read Reg.dagStatus), .ok value⟩ : Answered ν)) := ⟨hs, rfl⟩
        refine (ensures_keep ht (only_note quiet rfl)).seq fun _ t ht ↦ ⟨ht.1, fun value' h ↦ ?_⟩
        cases h
        exact ht.2
    refine attempt.seq fun x t ht ↦ ?_
    cases x with
    | ok value => exact ⟨ht.1, fun _ ↦ ht.2 value rfl⟩
    | error fault =>
      refine (ensures_keep ht.1 (only_note quiet rfl)).seq fun _ t ht ↦ ⟨ht, fun h ↦ ?_⟩
      exact absurd rfl h
  refine look.seq fun value t ht ↦ ?_
  split
  · rename_i hvalid
    have ht : t.Fresh epoch ∧ t.shown = some value := ⟨ht.1, ht.2 hvalid.1⟩
    refine (ensures_keep (R := fun t ↦ t.Fresh epoch ∧ t.shown = some value) ht
      (only_note quiet rfl)).seq fun _ t ht ↦ ?_
    split
    · rename_i hepoch
      refine (ensures_keep (R := fun t ↦ t.Fresh epoch ∧ t.shown = some value) ht
        (only_note quiet rfl)).seq fun _ t ht ↦ ⟨ht.1, fun _ ↦ ?_⟩
      exact ⟨value, ht.2, hvalid.1, hepoch⟩
    · exact ⟨ht.1, nofun⟩
  · exact ⟨ht.1, nofun⟩

variable [Quantity ν]

theorem only_finishEpoch_idles (epoch : Word) : (finishEpoch epoch : Routine ν _).Only Idles :=
  only_finishEpoch
    { toRoomToDrive := roomToDrive_idles
      release := idles_release
      epoch := fun _ ↦ idles_revise _
      startTune := fun _ ↦ ⟨rfl, fun _ _ ↦ rfl⟩ } epoch

theorem ensures_changeEpoch (ctx : EpochContext) (hs : s.Fresh ctx.epoch) :
    (b.changeEpoch ctx : Routine ν _).Ensures (watch ν b)
      (fun a t ↦ a = .ok .resident → t.Shows ctx.epoch) s := by
  refine (ensures_keep hs (only_request idles_acquire)).seq fun _ t ht ↦ ?_
  refine (ensures_keep ht (only_prepareCore roomToDrive_idles ctx)).seq fun _ t ht ↦ ?_
  refine (ensures_holdsDataset ht).seq fun holds t ht ↦ ?_
  cases holds with
  | true =>
    have shows := ht.2 rfl
    exact (ensures_keep shows (only_finishEpoch_idles ctx.epoch)).seq fun _ t ht _ ↦ ht
  | false =>
    refine (ensures_buildDataset ctx ht.1).seq fun x t _ ↦ ?_
    cases x with
    | error e =>
      exact (ensures_true (only_request idles_release) t).seq fun _ _ _ ↦ nofun
    | ok =>
      exact (ensures_true (only_finishEpoch_idles ctx.epoch) t).seq fun _ _ _ ↦ nofun

theorem ensures_prepareEpoch (ctx : EpochContext) (hs : s.Fresh ctx.epoch) :
    (b.prepareEpoch ctx : Routine ν _).Ensures (watch ν b)
      (fun a t ↦ a = .ok .resident → t.Shows ctx.epoch) s := by
  have quiet : ∀ r : Request ν, r.isQuiet → Idles r := fun _ ↦ idles_of_isQuiet
  refine (ensures_keep hs (only_request (quiet .memory rfl))).seq fun m t ht ↦ ?_
  split
  · exact (ensures_keep ht (only_note quiet rfl)).seq fun _ _ _ ↦ nofun
  · have last : (isLastEpoch ctx.epoch : Routine ν _).Only Idles := by
      refine (only_request idles_acquire).bind fun _ ↦ ?_
      refine (only_request (quiet .memory rfl)).bind fun m ↦ ?_
      exact (only_request idles_release).bind fun _ ↦ trivial
    refine (ensures_keep ht last).seq fun isLast t ht ↦ ?_
    split
    · exact nofun
    · refine (ensures_keep ht (only_request (idles_revise _))).seq fun _ t ht ↦ ?_
      refine (ensures_changeEpoch ctx ht).seq fun x t ht ↦ ?_
      let R : Progress → Prop := fun t ↦ x = .ok .resident → t.Shows ctx.epoch
      have ht : R t := ht
      refine (ensures_keep ht (only_request (idles_revise _))).seq fun _ t ht ↦ ?_
      cases x with
      | ok outcome =>
        refine (ensures_keep ht (only_note quiet rfl)).seq fun _ t ht ↦ ?_
        exact (ensures_keep ht (only_request (idles_revise _))).seq fun _ t ht ↦ ht
      | error e =>
        refine (ensures_keep ht (only_note quiet rfl)).seq fun _ t ht ↦ ?_
        exact (ensures_keep ht (only_enter_idles _)).seq fun _ t ht ↦ ht

end HashBoard.Status
