import HashBoard.Proofs.Board.Registers
import HashBoard.Proofs.Epoch.Asks
import HashBoard.Proofs.Routine.Transcript
import HashBoard.Proofs.Scene.Memory

/-!
# What a failing epoch change leaves behind

An epoch change commits four things: the word on the board that says which epoch the resident
dataset belongs to, the epoch it remembers, the epoch that onlookers are told of, and the start of
the tuning. All of them come after the last place where it can fail, so it is enough to follow the
transcript up to there.

The same pass settles what a look for a shutdown leads to. An epoch change that is told of a
shutdown goes on nowhere, so one that succeeds was told every time that there is none.
-/

namespace HashBoard

variable {ν : Type}

/-- A request that commits nothing of an epoch change. -/
structure Request.Withholds (r : Request ν) : Prop where
  status : ¬r.Writes Reg.dagStatus
  tuning : ∀ clock, r ≠ .startTune clock
  lastEpoch : ∀ m, (remembered m r).lastEpoch = m.lastEpoch
  epoch : ∀ m, (remembered m r).status.epoch = m.status.epoch

namespace Commit

open Routine Board

/-- Nothing was committed. -/
def Withheld (talk : List (Answered ν)) : Prop := ∀ said ∈ talk, said.request.Withholds

/-- Whoever looked for a shutdown was told that there is none. -/
def Unaware (talk : List (Answered ν)) : Prop := ⟨.isCancelled, true⟩ ∉ talk

/-- Nothing was committed, and no shutdown was noticed. -/
def Pending (talk : List (Answered ν)) : Prop := Withheld talk ∧ Unaware talk

/-- A part of a change that commits nothing has ended. Success means that no shutdown was noticed.
-/
def Decides {α : Type} : Except BoardError α → List (Answered ν) → Prop
  | .error e, talk => e ≠ .halted ∧ Withheld talk
  | .ok _, talk => Pending talk

/-- There was a look for a shutdown after the dataset began to be spread. -/
def Checked (talk : List (Answered ν)) : Prop :=
  ∃ earlier told later, talk = earlier ++ ⟨.isCancelled, told⟩ :: later ∧
    ⟨.note .duplicating, ()⟩ ∈ earlier

/-- A request that commits nothing and does not look for a shutdown. -/
def Aside (r : Request ν) : Prop := r.Withholds ∧ r ≠ .isCancelled

variable {α : Type} {s t : List (Answered ν)} {r : Request ν} {p : Routine ν α}

theorem Checked.mono (h : Checked s) (hst : s <+: t) : Checked t := by
  obtain ⟨earlier, told, later, rfl, hnote⟩ := h
  obtain ⟨more, rfl⟩ := hst
  exact ⟨earlier, told, later ++ more, by rw [List.append_assoc, List.cons_append], hnote⟩

theorem Withheld.snoc (h : Withheld s) (hr : r.Withholds) (x : Reply r) :
    Withheld (s ++ [⟨r, x⟩]) :=
  List.forall_mem_append.mpr ⟨h, List.forall_mem_singleton.mpr hr⟩

theorem Unaware.snoc (h : Unaware s) (said : Answered ν) (hsaid : said ≠ ⟨.isCancelled, true⟩) :
    Unaware (s ++ [said]) := by
  rw [Unaware, List.mem_append, List.mem_singleton, not_or]
  exact ⟨h, hsaid.symm⟩

/-! ## What is done besides -/

theorem ensures_unaware (h : p.Only (· ≠ .isCancelled)) (hs : Unaware s) :
    p.Ensures (transcript ν) (fun _ ↦ Unaware) s := by
  refine h.keeps hs fun t r x ht hr ↦ ht.snoc _ fun heq ↦ hr ?_
  cases heq
  rfl

theorem ensures_withheld (h : p.Only Request.Withholds) (hs : Withheld s) :
    p.Ensures (transcript ν) (fun _ ↦ Withheld) s := h.keeps hs fun _ _ x ht hr ↦ ht.snoc hr x

theorem ensures_pending (h : p.Only Aside) (hs : Pending s) :
    p.Ensures (transcript ν) (fun _ ↦ Pending) s :=
  (ensures_withheld (h.mono fun _ hr ↦ hr.1) hs.1).and
    (ensures_unaware (h.mono fun _ hr ↦ hr.2) hs.2)

/-! ### Requests by kind -/

theorem aside_of_isQuiet (h : r.isQuiet) : Aside r := by
  refine ⟨⟨r.not_writes_of_isQuiet h _, ?_, fun m ↦ ?_, fun m ↦ ?_⟩, ?_⟩
  · rintro clock rfl
    cases h
  · rw [remembered_of_isQuiet h]
  · rw [remembered_of_isQuiet h]
  · rintro rfl
    cases h

theorem aside_write {value addr : Word} (h : addr ≠ Reg.dagStatus) :
    Aside (.call (.write value addr) : Request ν) :=
  ⟨⟨h, nofun, fun _ ↦ rfl, fun _ ↦ rfl⟩, nofun⟩

theorem aside_note (event : Event ν) : Aside (.note event) :=
  ⟨⟨id, nofun, fun _ ↦ rfl, fun _ ↦ rfl⟩, nofun⟩

theorem aside_books {f : Memory ν → Memory ν} (h : Bookkeeping f) : Aside (.revise f) :=
  ⟨⟨id, nofun, fun m ↦ (h m).lastEpoch, fun m ↦ (h m).status.epoch⟩, nofun⟩

theorem aside_enter (phase : EpochPhase) :
    Aside (.revise fun m : Memory ν ↦ m.withStatus fun s ↦ { s with phase }) :=
  ⟨⟨id, nofun, fun _ ↦ rfl, fun _ ↦ rfl⟩, nofun⟩

theorem withholds_look : (.isCancelled : Request ν).Withholds :=
  ⟨id, nofun, fun _ ↦ rfl, fun _ ↦ rfl⟩

/-- Taking and giving back the lock, pausing, and the accesses that write no register. -/
def isPassive : Request ν → Bool
  | .acquire | .release | .sleep _ | .call (.read _) | .call (.upload ..) | .call (.move ..) => true
  | _ => false

theorem aside_of_isPassive (h : isPassive r) : Aside r := by
  cases r with
  | acquire | release | sleep => exact ⟨⟨id, nofun, fun _ ↦ rfl, fun _ ↦ rfl⟩, nofun⟩
  | call c =>
    cases c with
    | read | upload | move => exact ⟨⟨id, nofun, fun _ ↦ rfl, fun _ ↦ rfl⟩, nofun⟩
    | _ => cases h
  | _ => cases h

theorem roomToDrive_aside : RoomToDrive (Aside : Request ν → Prop) where
  quiet _ := aside_of_isQuiet
  preparing := aside_note _
  enter := aside_enter _
  changing _ := aside_note _
  clocks _ _ := aside_note _
  clock _ := ⟨⟨id, nofun, fun _ ↦ rfl, fun _ ↦ rfl⟩, nofun⟩
  books _ := aside_books
  writes value addr h := by
    refine aside_write ?_
    rintro rfl
    exact absurd h (by decide)
  stop := aside_write (by decide)

theorem ensures_note (event : Event ν) (hs : Pending s) :
    (note event).Ensures (transcript ν) (fun _ ↦ Pending) s :=
  ensures_pending (only_request (aside_note event)) hs

theorem ensures_enter (phase : EpochPhase) (hs : Pending s) :
    (enter phase).Ensures (transcript ν) (fun _ ↦ Pending) s :=
  ensures_pending (only_enter (aside_enter phase) (aside_note _)) hs

theorem ensures_quiet (h : r.isQuiet) (hs : Pending s) :
    (request r).Ensures (transcript ν) (fun _ ↦ Pending) s :=
  ensures_pending (only_request (aside_of_isQuiet h)) hs

theorem ensures_tryWrite {value addr : Word} {what : String} (h : addr ≠ Reg.dagStatus)
    (hs : Pending s) :
    (tryWrite value addr what).Ensures (transcript ν) (fun _ ↦ Pending) s :=
  ensures_pending (only_tryWrite (fun _ ↦ aside_of_isQuiet) (aside_write h)) hs

/-! ## Where a change can fail -/

/-- A look for a shutdown, where being told of one ends the change. -/
theorem ensures_look {f : Bool → Routine ν (Except BoardError α)}
    (told : f true = .done (.error .cancelled))
    (goesOn : ∀ t, Pending t → (f false).Ensures (transcript ν) Decides t) (hs : Pending s) :
    (isCancelled.bind f).Ensures (transcript ν) Decides s := by
  refine (ensures_request .isCancelled s).seq ?_
  rintro (- | -) t rfl
  · exact goesOn _ ⟨hs.1.snoc withholds_look _, hs.2.snoc _ (by simp)⟩
  · rw [told]
    exact ⟨nofun, hs.1.snoc withholds_look _⟩

variable (b : Board) (ctx : EpochContext)

/-- A fault that is fatal only if the settings say so. -/
theorem ensures_unlessFatal {what cause : String}
    {f : Except BoardError Unit → Routine ν (Except BoardError α)}
    (fatal : ∀ e, f (.error e) = .done (.error e))
    (goesOn : ∀ t, Pending t → (f (.ok ())).Ensures (transcript ν) Decides t) (hs : Pending s) :
    ((b.escalate what cause).bind f).Ensures (transcript ν) Decides s := by
  have escalates : (b.escalate what cause).Ensures (transcript ν)
      (fun x t ↦ Pending t ∧ ∀ e, x = .error e → e ≠ .halted) s := by
    rw [escalate]
    split
    · refine (ensures_note _ hs).seq fun _ t ht ↦ ⟨ht, ?_⟩
      rintro e he rfl
      cases he
    · refine ⟨hs, ?_⟩
      rintro e he
      cases he
  refine escalates.seq ?_
  rintro (e | -) t ⟨ht, herror⟩
  · rw [fatal e]
    exact ⟨herror e rfl, ht.1⟩
  · exact goesOn t ht

theorem ensures_await (a : Awaited ν) {watch : Nat → Routine ν Unit}
    (hw : ∀ n, (watch n).Only Aside) (n : Nat) (status : Word) (hs : Pending s) :
    (b.await a watch n status).Ensures (transcript ν) Decides s := by
  have watches (n : Nat) {t : List (Answered ν)} (ht : Pending t) := ensures_pending (hw n) ht
  have pauses {t : List (Answered ν)} (ht : Pending t) :
      (suspend a.pause).Ensures (transcript ν) (fun _ ↦ Pending) t :=
    ensures_pending (only_suspend (fun _ ↦ aside_of_isQuiet) (aside_of_isPassive rfl)
      (aside_of_isPassive rfl)) ht
  have reads {t : List (Answered ν)} (ht : Pending t) :
      (Routine.read a.addr).Ensures (transcript ν) (fun _ ↦ Pending) t :=
    ensures_pending (only_read (fun _ ↦ aside_of_isQuiet)
      (aside_of_isPassive rfl)) ht
  induction n generalizing status s with
  | zero =>
    rw [await]
    split
    · exact hs
    · refine ensures_look rfl (fun t ht ↦ ?_) hs
      refine ensures_unlessFatal b (fun _ ↦ rfl) (fun t ht ↦ ?_) ht
      exact (ensures_note _ ht).seq fun _ u hu ↦ hu
  | succ n ih =>
    rw [await]
    split
    · exact hs
    · refine ensures_look rfl (fun t ht ↦ ?_) hs
      refine (pauses ht).seq fun _ t ht ↦ (reads ht).seq ?_
      rintro (fault | status) t ht
      · refine ensures_unlessFatal b (fun _ ↦ rfl) (fun t ht ↦ ?_) ht
        refine (ensures_note _ ht).seq fun _ t ht ↦ ?_
        exact (watches n ht).seq fun _ t ht ↦ ih status ht
      · exact (watches n ht).seq fun _ t ht ↦ ih status ht

/-! ### The light cache -/

theorem ensures_deriveCache (parents : Word) (hs : Pending s) :
    (b.deriveCache ctx parents).Ensures (transcript ν) Decides s := by
  have rest (started : Micros) {t : List (Answered ν)} (ht : Pending t) :
      (awaitCache b started).Ensures (transcript ν) Decides t := by
    refine (ensures_tryWrite (by decide) ht).seq fun _ t ht ↦ ?_
    refine (ensures_await b cacheAwaited (fun _ ↦ only_done ()) _ _ ht).seq ?_
    rintro (e | status) t ht
    · exact ht
    · refine (ensures_quiet (r := .now) rfl ht).seq fun finished t ht ↦ ?_
      exact (ensures_note _ ht).seq fun _ t ht ↦ ht
  have seed : Aside (.call (.writeBulk ctx.seed.reversed Reg.cacheSeed true) : Request ν) := by
    refine ⟨⟨?_, nofun, fun _ ↦ rfl, fun _ ↦ rfl⟩, nofun⟩
    -- the seed lies behind the status word
    rw [Request.Writes, Hash.reversed, List.length_reverse, ctx.seed.length_eq]
    decide
  refine (ensures_note _ hs).seq fun _ t ht ↦ ?_
  refine (ensures_quiet (r := .now) rfl ht).seq fun started t ht ↦ ?_
  refine (ensures_tryWrite (by decide) ht).seq fun _ t ht ↦ ?_
  refine (ensures_tryWrite (by decide) ht).seq fun _ t ht ↦ ?_
  refine (ensures_pending (only_request seed) ht).seq ?_
  rintro (fault | -) t ht
  · exact (ensures_note _ ht).seq fun _ t ht ↦ rest started ht
  · exact rest started ht

theorem ensures_uploadPiece (piece : ByteArray) (offset : Nat) (hs : Pending s) :
    (uploadPiece piece offset).Ensures (transcript ν) Decides s := by
  have upload {t : List (Answered ν)} (ht : Pending t) :
      (call (.upload piece (UInt64.ofNat offset))).Ensures (transcript ν) (fun _ ↦ Pending) t :=
    ensures_pending (only_request (aside_of_isPassive rfl)) ht
  refine (upload hs).seq ?_
  rintro (fault | -) t ht
  · refine (ensures_note _ ht).seq fun _ t ht ↦ (upload ht).seq ?_
    rintro (fault' | -) t ht
    · exact (ensures_note _ ht).seq fun _ t ht ↦ ⟨nofun, ht.1⟩
    · exact ht
  · exact ht

theorem ensures_uploadPieces (cache : ByteArray) (n i : Nat) (hs : Pending s) :
    (uploadPieces cache n i).Ensures (transcript ν) Decides s := by
  induction n generalizing i s with
  | zero => exact hs
  | succ n ih =>
    rw [uploadPieces]
    refine ensures_look rfl (fun t ht ↦ ?_) hs
    refine (ensures_uploadPiece _ _ ht).seq ?_
    rintro (e | ⟨⟩) t ht
    · exact ht
    · dsimp only
      split
      · exact (ensures_note _ ht).seq fun _ t ht ↦ ih (i + 1) ht
      · exact ih (i + 1) ht

theorem ensures_uploadCache (hs : Pending s) :
    (uploadCache ctx).Ensures (transcript ν) Decides s := by
  rw [uploadCache]
  cases ctx.lightCache with
  | none =>
    refine ⟨?_, hs.1⟩
    rintro hhalted
    cases hhalted
  | some cache =>
    refine (ensures_note _ hs).seq fun _ t ht ↦ ?_
    refine (ensures_quiet (r := .now) rfl ht).seq fun started t ht ↦ ?_
    refine (ensures_uploadPieces cache _ _ ht).seq ?_
    rintro (e | ⟨⟩) t ht
    · exact ht
    · refine (ensures_quiet (r := .now) rfl ht).seq fun finished t ht ↦ ?_
      exact (ensures_note _ ht).seq fun _ t ht ↦ ht

theorem ensures_provideCache (parents : Word) (hs : Pending s) :
    (b.provideCache ctx parents).Ensures (transcript ν) Decides s := by
  rw [provideCache]
  cases b.settings.cacheStrategy with
  | onChip => exact (ensures_enter _ hs).seq fun _ t ht ↦ ensures_deriveCache b ctx parents ht
  | upload => exact (ensures_enter _ hs).seq fun _ t ht ↦ ensures_uploadCache ctx ht

/-! ### The dataset -/

theorem ensures_divideItems (parents : Word) (hs : Pending s) :
    (b.divideItems ctx parents).Ensures (transcript ν) (fun _ ↦ Pending) s := by
  refine ensures_pending (only_divideItems (fun _ ↦ aside_of_isQuiet) b ctx parents
    (aside_enter _) fun value addr h ↦ aside_write ?_) hs
  -- the ranges end in front of the status word
  rintro rfl
  exact absurd h (by decide)

theorem ensures_startGenerator (hs : Pending s) :
    startGenerator.Ensures (transcript ν) (fun _ ↦ Pending) s := by
  refine (ensures_enter _ hs).seq fun _ t ht ↦ (ensures_note _ ht).seq fun _ t ht ↦ ?_
  refine (ensures_quiet (r := .now) rfl ht).seq fun started t ht ↦ ?_
  refine (ensures_tryWrite (by decide) ht).seq fun _ t ht ↦ ?_
  have looks : (firstStatus : Routine ν _).Only Aside :=
    only_firstStatus (fun _ ↦ aside_of_isQuiet) (aside_of_isPassive rfl)
  exact (ensures_pending looks ht).seq fun status t ht ↦ ht

theorem ensures_generate (hs : Pending s) :
    (b.generate ctx).Ensures (transcript ν) Decides s := by
  rw [generate_eq]
  refine (ensures_startGenerator hs).seq fun ⟨started, status⟩ t ht ↦ ?_
  have waits (range : Nat) : (b.awaitDag range status).Ensures (transcript ν) Decides t := by
    rw [awaitDag]
    split
    · exact (ensures_note _ ht).seq fun _ t ht ↦ ht
    · exact ensures_await b dagAwaited
        (only_mentionProgress (fun _ ↦ aside_of_isQuiet) range) _ _ ht
  refine (waits _).seq ?_
  rintro (e | status) t ht
  · exact ht
  · refine (ensures_quiet (r := .now) rfl ht).seq fun finished t ht ↦ ?_
    exact (ensures_note _ ht).seq fun _ t ht ↦ ht

theorem ensures_move (src dst length : UInt64) (hs : Pending s) :
    (Routine.move src dst length).Ensures (transcript ν) (fun _ ↦ Pending) s :=
  ensures_pending (only_move (fun _ ↦ aside_of_isQuiet)
    (aside_of_isPassive rfl)) hs

theorem ensures_spreadPieces (n i : Nat) (hs : Pending s) :
    (spreadPieces n i).Ensures (transcript ν) Decides s := by
  induction n generalizing i s with
  | zero => exact hs
  | succ n ih =>
    rw [spreadPieces]
    refine ensures_look rfl (fun t ht ↦ ?_) hs
    refine (ensures_move _ _ _ ht).seq ?_
    rintro (fault | -) t ht
    · exact (ensures_note _ ht).seq fun _ t ht ↦ ht
    · exact ih (i + 1) ht

theorem ensures_spread (hs : Pending s) : spread.Ensures (transcript ν) Decides s := by
  refine (ensures_enter _ hs).seq fun _ t ht ↦ (ensures_note _ ht).seq fun _ t ht ↦ ?_
  refine (ensures_quiet (r := .now) rfl ht).seq fun started t ht ↦ ?_
  refine (ensures_spreadPieces _ _ ht).seq ?_
  rintro (e | all) t ht
  · exact ht
  · cases all with
    | false => exact ht
    | true =>
      refine (ensures_move _ _ _ ht).seq ?_
      rintro (fault | -) t ht
      · exact (ensures_note _ ht).seq fun _ t ht ↦ ht
      · refine (ensures_quiet (r := .now) rfl ht).seq fun finished t ht ↦ ?_
        exact (ensures_note _ ht).seq fun _ t ht ↦ ht

theorem ensures_spreadPieces_looks (n i : Nat) (s : List (Answered ν)) :
    (spreadPieces (n + 1) i).Ensures (transcript ν)
      (fun _ t ↦ ∃ told, s ++ [⟨.isCancelled, told⟩] <+: t) s := by
  rw [spreadPieces]
  refine (ensures_request .isCancelled s).seq ?_
  rintro told _ rfl
  exact (ensures_grows _ _).mono fun _ t ht ↦ ⟨told, ht⟩

/-- There are pieces to spread, so there is a look for a shutdown. -/
theorem ensures_spread_checked (s : List (Answered ν)) :
    spread.Ensures (transcript ν) (fun _ ↦ Checked) s := by
  refine Ensures.after fun _ t _ ↦ (ensures_request (.note .duplicating) t).seq ?_
  rintro - _ rfl
  refine (ensures_request .now _).seq ?_
  rintro started _ rfl
  refine (ensures_spreadPieces_looks 255 0 _).seq fun all u ⟨told, hu⟩ ↦ ?_
  refine (ensures_grows _ u).mono fun _ v hv ↦ Checked.mono ?_ (hu.trans hv)
  exact ⟨_, told, [], rfl, by simp⟩

/-! ## The whole change -/

/-- A part of a change that may commit has ended. -/
def Settles : Except BoardError Unit → List (Answered ν) → Prop
  | .error e, talk => e ≠ .halted ∧ Withheld talk
  | .ok _, talk => Unaware talk ∧ Checked talk

/-- What is committed on the board comes after the last place where the change can fail. -/
theorem ensures_mark (value : Word) (hs : Unaware s) (hchecked : Checked s) :
    (do
      tryWrite value Reg.dagStatus "DAG status"
      note .generatorOff
      pure (.ok ()) : Routine ν _).Ensures (transcript ν) Settles s := by
  have writes : (tryWrite value Reg.dagStatus "DAG status" : Routine ν _).Only (· ≠ .isCancelled) :=
    only_tryWrite (fun _ h ↦ (aside_of_isQuiet h).2) nofun
  refine ((ensures_unaware writes hs).and (ensures_grows _ s)).seq fun _ t ht ↦ ?_
  refine (ensures_request (.note .generatorOff) t).seq ?_
  rintro - _ rfl
  exact ⟨ht.1.snoc _ (by simp), hchecked.mono (ht.2.trans (List.prefix_append _ _))⟩

theorem ensures_buildDataset (hs : Pending s) :
    (b.buildDataset ctx).Ensures (transcript ν) Settles s := by
  refine (ensures_tryWrite (by decide) hs).seq fun _ t ht ↦ ?_
  refine (ensures_tryWrite (by decide) ht).seq fun _ t ht ↦ ?_
  refine (ensures_provideCache b ctx _ ht).seq ?_
  rintro (e | ⟨⟩) t ht
  · exact ht
  · refine (ensures_divideItems b ctx _ ht).seq fun _ t ht ↦ ?_
    refine (ensures_generate b ctx ht).seq ?_
    rintro (e | ⟨⟩) t ht
    · exact ht
    · refine ((ensures_spread ht).and (ensures_spread_checked t)).seq ?_
      rintro (e | ⟨⟩) t ⟨ht, hchecked⟩
      · exact ht
      · exact ensures_mark _ ht.2 hchecked

variable [Quantity ν]

/-- A change under the lock has ended. -/
def Finishes : Except BoardError EpochOutcome → List (Answered ν) → Prop
  | .error e, talk => e ≠ .halted ∧ Withheld talk
  | .ok outcome, talk => Unaware talk ∧ (outcome = .generated → Checked talk)

theorem ensures_finishEpoch (epoch : Word) (hs : Unaware s) :
    (finishEpoch epoch).Ensures (transcript ν) (fun _ ↦ Unaware) s := by
  have room : RoomToConclude (ν := ν) (· ≠ .isCancelled) :=
    { toRoomToDrive := roomToDrive_aside.mono fun _ hr ↦ hr.2
      release := nofun
      epoch := nofun
      startTune := nofun }
  exact ensures_unaware (only_finishEpoch room epoch) hs

theorem ensures_changeEpoch (hs : Pending s) :
    (b.changeEpoch ctx).Ensures (transcript ν) Finishes s := by
  refine (ensures_pending (only_request (aside_of_isPassive rfl)) hs).seq fun _ t ht ↦ ?_
  refine (ensures_pending (only_prepareCore roomToDrive_aside ctx) ht).seq fun _ t ht ↦ ?_
  have holds : (b.holdsDataset ctx.epoch : Routine ν _).Only Aside :=
    only_holdsDataset (fun _ ↦ aside_of_isQuiet) b ctx.epoch
      (aside_of_isPassive rfl)
  refine (ensures_pending holds ht).seq fun resident t ht ↦ ?_
  cases resident with
  | true => exact (ensures_finishEpoch ctx.epoch ht.2).seq fun _ t ht ↦ ⟨ht, nofun⟩
  | false =>
    refine (ensures_buildDataset b ctx ht).seq ?_
    rintro (e | ⟨⟩) t ht
    · refine (ensures_request .release t).seq ?_
      rintro - _ rfl
      exact ⟨ht.1, ht.2.snoc (aside_of_isPassive (r := .release) rfl).1 _⟩
    · refine ((ensures_finishEpoch ctx.epoch ht.1).and (ensures_grows _ t)).seq fun _ u hu ↦ ?_
      exact ⟨hu.1, fun _ ↦ ht.2.mono hu.2⟩

/-- An epoch change says that nothing is going on. -/
def rests : Answered ν := ⟨.revise fun m ↦ m.withStatus fun s ↦ { s with phase := .idle }, ()⟩

/-- An epoch change has ended. A halted board refuses it without more; any other failure commits
nothing, and the last thing that is done about it is to say that nothing is going on. -/
def Concludes : Except BoardError EpochOutcome → List (Answered ν) → Prop
  | .error e, talk => Withheld talk ∧
    (e = .halted ∧ (∀ said ∈ talk, ∀ m, remembered m said.request = m) ∨
      e ≠ .halted ∧ ∃ earlier, talk = earlier ++ [rests])
  | .ok outcome, talk => Unaware talk ∧ (outcome = .generated → Checked talk)

theorem ensures_trackedChange (hs : Pending s) :
    (b.trackedChange ctx).Ensures (transcript ν) Concludes s := by
  have busy (f : Memory ν → Bool) : (Request.revise fun m ↦ { m with busy := f m }).Withholds :=
    ⟨id, nofun, fun _ ↦ rfl, fun _ ↦ rfl⟩
  refine (ensures_pending (only_request ⟨busy _, nofun⟩) hs).seq fun _ t ht ↦ ?_
  refine (ensures_changeEpoch b ctx ht).seq fun x t ht ↦ (ensures_request _ t).seq ?_
  rintro - _ rfl
  cases x with
  | error e =>
    refine (ensures_request (.note (.epochFailed ctx.epoch e)) _).seq ?_
    rintro - _ rfl
    refine Ensures.bind ((ensures_request (.note (.phase .idle)) _).seq ?_)
    rintro - _ rfl
    refine (ensures_request rests.request _).mono ?_
    rintro - _ rfl
    have hbusy := (ht.2.snoc (busy fun m ↦ m.halted) ()).snoc
      (aside_note (.epochFailed ctx.epoch e)).1 ()
    exact ⟨(hbusy.snoc (aside_note _).1 ()).snoc (aside_enter .idle).1 (), .inr ⟨ht.1, _, rfl⟩⟩
  | ok outcome =>
    refine (ensures_request (.note (.epochReady ctx.epoch outcome)) _).seq ?_
    rintro - _ rfl
    refine Ensures.bind ((ensures_request (.revise _) _).mono ?_)
    rintro - _ rfl
    have hrevised := ht.1.snoc ⟨.revise fun m ↦ { m with busy := m.halted }, ()⟩ (by simp)
    have hready := hrevised.snoc ⟨.note (.epochReady ctx.epoch outcome), ()⟩ (by simp)
    refine ⟨hready.snoc _ (by simp), fun h ↦ (ht.2 h).mono ?_⟩
    simp only [List.append_assoc]
    exact List.prefix_append _ _

/-- Whatever an epoch change is answered, it ends like this. -/
theorem concludes_of_run {talk : List (Answered ν)} {a : Except BoardError EpochOutcome}
    (h : Run (b.prepareEpoch ctx) talk a) : Concludes a talk := by
  have start : Pending ([] : List (Answered ν)) := ⟨List.forall_mem_nil _, List.not_mem_nil⟩
  refine Ensures.of_run (s := []) ?_ h
  rw [prepareEpoch_eq]
  refine ⟨trivial, trivial, fun m t hm ↦ ?_⟩
  obtain rfl := moves_transcript hm
  dsimp only
  split
  · refine ⟨trivial, trivial, fun x u hm ↦ ?_⟩
    obtain rfl := moves_transcript hm
    refine ⟨?_, .inl ⟨rfl, ?_⟩⟩
    · exact (start.1.snoc (aside_of_isQuiet (r := .memory) rfl).1 m).snoc (aside_note _).1 ()
    · simp [remembered]
  · have asks : (isLastEpoch ctx.epoch : Routine ν _).Only Aside := by
      refine ⟨aside_of_isPassive rfl, fun _ ↦ ⟨aside_of_isQuiet rfl, fun _ ↦ ?_⟩⟩
      exact ⟨aside_of_isPassive rfl, fun _ ↦ trivial⟩
    have pending : Pending [(⟨.memory, m⟩ : Answered ν)] :=
      ⟨start.1.snoc (aside_of_isQuiet (r := .memory) rfl).1 m, start.2.snoc _ nofun⟩
    refine (ensures_pending asks pending).seq fun last t ht ↦ ?_
    cases last with
    | true => exact ⟨ht.2, nofun⟩
    | false => exact ensures_trackedChange b ctx ht

end Commit

end HashBoard
