import HashBoard.Proofs.Halt.Account

/-!
# Halts during an epoch change

Part by part, an epoch change that starts even ends even. The parts that wait give the lock back, so
a halt may come there; it is noticed by nobody, and the parts after them find an exposed board.
-/

namespace HashBoard.Revival

open Routine Board

variable {ν : Type} {s : Account}

/-! ## What is calm and what is steady -/

theorem roomToDrive_steady : RoomToDrive (Steady : Request ν → Prop) where
  quiet _ h := steady_of_isQuiet h
  preparing := steady_note _
  enter := steady_reviseStatus _
  changing _ := steady_note _
  clocks _ _ := steady_note _
  clock _ := steady_reviseClock _
  books _ h := steady_books h
  writes _ _ _ := steady_call _
  stop := steady_call _

theorem calm_books (f : Memory ν → Memory ν) (_ : Bookkeeping f) : Calm (.revise f) := calm_revise f

theorem calm_range (value addr : Word) (h : Reg.isRange addr) :
    Calm (.call (.write value addr) : Request ν) := by
  refine calm_write ?_
  rintro (⟨rfl, -⟩ | ⟨rfl, -⟩ | ⟨rfl, -⟩) <;> exact absurd h (by decide)

theorem calm_of_addr {value addr : Word} (hp : addr ≠ Reg.dagPower) (hc : addr ≠ Reg.dagControl)
    (he : addr ≠ Reg.coreEnable) : Calm (.call (.write value addr) : Request ν) := by
  refine calm_write ?_
  rintro (⟨rfl, -⟩ | ⟨rfl, -⟩ | ⟨rfl, -⟩)
  · exact hp rfl
  · exact hc rfl
  · exact he rfl

theorem calm_powerOff : Calm (.call (.write Reg.dagPowerOff Reg.dagPower) : Request ν) :=
  calm_write (by simp [Request.Revives, Reg.dagPower, Reg.dagControl, Reg.coreEnable])

theorem calm_coreOff : Calm (.call (.write Reg.coreOff Reg.coreEnable) : Request ν) :=
  calm_write (by simp [Request.Revives, Reg.dagPower, Reg.dagControl, Reg.coreEnable, Reg.coreOff,
    Reg.coreRunInterrupt, Reg.coreRunPolled])

theorem even_tryWrite {value addr : Word} {what : String} (hs : Even s)
    (h : Calm (.call (.write value addr) : Request ν)) :
    (tryWrite value addr what : Routine ν _).Ensures (watch ν) (fun _ ↦ Even) s :=
  hs.ensures (only_tryWrite (fun _ ↦ calm_of_isQuiet) h)

/-! ## The lock -/

theorem ensures_acquire (hs : s.Sync) :
    (acquire : Routine ν _).Ensures (watch ν) (fun _ ↦ Even) s := by
  refine ⟨.inr hs, trivial, fun x t hm ↦ ⟨?_, sync_of_moves hs hm id id⟩⟩
  obtain ⟨u, -, hlock, -⟩ := hm
  rw [hlock]
  exact trivial

theorem ensures_release (hs : Even s) :
    (release : Routine ν _).Ensures (watch ν) (fun _ ↦ Account.Sync) s :=
  ⟨.inl hs.1, trivial, fun _ _ hm ↦ sync_of_moves hs.2 hm id id⟩

/-- Outside the lock, nothing that is asked may revive or advance. -/
theorem Account.Sync.ensures {α : Type} {p : Routine ν α} (hs : s.Sync)
    (h : p.Only fun r ↦ ¬r.Revives ∧ ¬r.Advances) :
    p.Ensures (watch ν) (fun _ ↦ Account.Sync) s :=
  h.ensures hs (fun _ ↦ .inr) (fun _ _ _ _ ↦ trivial)
    fun _ _ _ _ ht hr hm ↦ sync_of_moves ht hm hr.1 hr.2

theorem ensures_suspend (span : Micros) (hs : Even s) :
    (suspend span : Routine ν _).Ensures (watch ν) (fun _ ↦ Even) s := by
  refine (ensures_release hs).seq fun _ t ht ↦ ?_
  have pause : (sleep span : Routine ν _).Ensures (watch ν) (fun _ ↦ Account.Sync) t :=
    ht.ensures (only_request ⟨id, id⟩)
  exact pause.seq fun _ t ht ↦ ensures_acquire ht

theorem ensures_await (b : Board) (a : Awaited ν) {watch' : Nat → Routine ν Unit}
    (read : Calm (.call (.read a.addr) : Request ν))
    (unread : ∀ fault, Calm (.note (a.unread fault))) (hw : ∀ n, (watch' n).Only Calm)
    (n : Nat) (status : Word) (hs : Even s) :
    (b.await a watch' n status).Ensures (watch ν) (fun _ ↦ Even) s := by
  have quiet : ∀ r : Request ν, r.isQuiet → Calm r := fun _ ↦ calm_of_isQuiet
  have escalate {t : Account} (ht : Even t) (what cause : String) :=
    ht.ensures (only_escalate quiet b what cause)
  have cancelled {t : Account} (ht : Even t) :
      (isCancelled : Routine ν _).Ensures (watch ν) (fun _ ↦ Even) t :=
    ht.ensures (only_request calm_look)
  -- on the polls that are left; a halt can come in the pause of each, where the lock is not held
  induction n generalizing status s with
  | zero =>
    rw [await]
    split
    · exact hs
    · refine (cancelled hs).seq fun c t ht ↦ ?_
      cases c with
      | true => exact ht
      | false =>
        refine (escalate ht _ _).seq fun x t ht ↦ ?_
        cases x with
        | error e => exact ht
        | ok =>
          have calm : Calm (.note (.notWaitingAnyLonger (.overdue a.name)) : Request ν) :=
            calm_note id
          exact (ht.ensures (only_request calm)).seq fun _ t ht ↦ ht
  | succ n ih =>
    rw [await]
    split
    · exact hs
    · refine (cancelled hs).seq fun c t ht ↦ ?_
      cases c with
      | true => exact ht
      | false =>
        refine (ensures_suspend a.pause ht).seq fun _ t ht ↦ ?_
        refine (ht.ensures (only_read quiet read)).seq fun x t ht ↦ ?_
        cases x with
        | ok status => exact (ht.ensures (hw n)).seq fun _ t ht ↦ ih status ht
        | error fault =>
          refine (escalate ht _ _).seq fun x t ht ↦ ?_
          cases x with
          | error e => exact ht
          | ok =>
            refine (ht.ensures (only_request (unread fault))).seq fun _ t ht ↦ ?_
            exact (ht.ensures (hw n)).seq fun _ t ht ↦ ih status ht

/-! ## The light cache -/

theorem ensures_deriveCache (b : Board) (ctx : EpochContext) (parents : Word) (hs : Even s) :
    (b.deriveCache ctx parents : Routine ν _).Ensures (watch ν) (fun _ ↦ Even) s := by
  have quiet : ∀ r : Request ν, r.isQuiet → Calm r := fun _ ↦ calm_of_isQuiet
  have cache {value addr : Word} (h : addr ∈ [Reg.cacheControl, Reg.dagParentNodes]) :
      Calm (.call (.write value addr) : Request ν) := by
    simp only [List.mem_cons, List.not_mem_nil, or_false] at h
    rcases h with rfl | rfl <;> exact calm_of_addr (by decide) (by decide) (by decide)
  have clock {t : Account} (ht : Even t) : (now : Routine ν _).Ensures (watch ν) (fun _ ↦ Even) t :=
    ht.ensures (only_request (quiet _ rfl))
  refine (hs.ensures (only_note quiet rfl)).seq fun _ t ht ↦ ?_
  refine (clock ht).seq fun started t ht ↦ ?_
  refine (even_tryWrite ht (cache (by decide))).seq fun _ t ht ↦ ?_
  refine (even_tryWrite ht (cache (by decide))).seq fun _ t ht ↦ ?_
  have seed : (writeHash ctx.seed.reversed Reg.cacheSeed : Routine ν _).Only Calm :=
    only_request (calm_call id id)
  refine (ht.ensures seed).seq fun x t ht ↦ ?_
  -- it goes on in the same way whether the seed was written or not
  have rest {t : Account} (ht : Even t) :
      (awaitCache b started).Ensures (watch ν) (fun _ ↦ Even) t := by
    refine (even_tryWrite ht (cache (by decide))).seq fun _ t ht ↦ ?_
    refine (ensures_await b cacheAwaited (quiet _ rfl) (fun _ ↦ quiet _ rfl) (fun _ ↦ only_done ())
      cachePolls 0 ht).seq fun x t ht ↦ ?_
    cases x with
    | error e => exact ht
    | ok status =>
      refine (clock ht).seq fun finished t ht ↦ ?_
      exact (ht.ensures (only_note quiet rfl)).seq fun _ t ht ↦ ht
  cases x with
  | ok => exact rest ht
  | error fault => exact (ht.ensures (only_note quiet rfl)).seq fun _ t ht ↦ rest ht

theorem ensures_provideCache (b : Board) (ctx : EpochContext) (parents : Word) (hs : Even s) :
    (b.provideCache ctx parents : Routine ν _).Ensures (watch ν) (fun _ ↦ Even) s := by
  have quiet : ∀ r : Request ν, r.isQuiet → Calm r := fun _ ↦ calm_of_isQuiet
  rw [provideCache]
  cases b.settings.cacheStrategy with
  | onChip =>
    refine (hs.ensures (only_enter (calm_revise _) (quiet _ rfl))).seq fun _ t ht ↦ ?_
    exact ensures_deriveCache b ctx parents ht
  | upload =>
    refine (hs.ensures (only_enter (calm_revise _) (quiet _ rfl))).seq fun _ t ht ↦ ?_
    exact ht.ensures (only_uploadCache quiet ctx calm_look fun _ _ ↦ calm_call id id)

/-! ## Preparing the core -/

/-- An exposed board is advanced on first and revived then, when the generator is powered. -/
theorem ensures_prepareCore [Quantity ν] (ctx : EpochContext) (hs : Even s) :
    (prepareCore ctx : Routine ν _).Ensures (watch ν) (fun _ ↦ Braced) s := by
  have room := roomToDrive_steady (ν := ν)
  have quiet := room.quiet
  refine hs.ensures_braced (only_prepareCore room ctx) fun he ↦ ?_
  have advances : (Request.note (.phase .preparing) : Request ν).Advances := trivial
  have advance : (enter .preparing : Routine ν _).Ensures (watch ν) (fun _ ↦ Ahead) s :=
    (he.ensures_advance advances).seq fun _ t ht ↦ ht.ensures (only_request room.enter)
  refine advance.seq fun _ t ht ↦ ?_
  refine (ht.ensures (only_request (steady_note _))).seq fun _ t ht ↦ ?_
  have stock := only_setClock_stock quiet room.clock fun _ _ _ ↦ steady_call _
  refine (ht.ensures stock).seq fun _ t ht ↦ ?_
  refine (ht.ensures (only_stopCore quiet (fun _ ↦ steady_call _) (steady_call _))).seq
    fun _ t ht ↦ ?_
  have revives : (Request.call (.write Reg.dagPowerOn Reg.dagPower) : Request ν).Revives :=
    .inl ⟨rfl, by decide⟩
  refine (ht.ensures_revive revives).seq fun _ t ht ↦ ?_
  have write (value addr : Word) (what : String) :
      (tryWrite value addr what : Routine ν _).Only Steady := only_tryWrite quiet (steady_call _)
  refine (ht.ensures (write ..)).seq fun _ t ht ↦ ?_
  refine (ht.ensures (write ..)).seq fun _ t ht ↦ ?_
  exact ht.ensures (write ..)

/-! ## The dataset -/

/-- Up to the wait for it, the generator is dealt with as the core is: advance first, then
revive. -/
theorem ensures_startGenerator (hs : Even s) :
    (startGenerator : Routine ν _).Ensures (watch ν) (fun _ ↦ Braced) s := by
  have room := roomToDrive_steady (ν := ν)
  have quiet := room.quiet
  have rest : (firstStatus : Routine ν _).Only Steady := only_firstStatus quiet (steady_call _)
  refine hs.ensures_braced ?_ fun he ↦ ?_
  · refine (only_enter (steady_reviseStatus _) (steady_note _)).bind fun _ ↦ ?_
    refine (only_note quiet rfl).bind fun _ ↦ ?_
    refine (only_request (quiet .now rfl)).bind fun started ↦ ?_
    refine (only_tryWrite quiet (steady_call _)).bind fun _ ↦ ?_
    exact rest.bind fun status ↦ trivial
  · have advances : (Request.note (.phase .generating) : Request ν).Advances := trivial
    have advance : (enter .generating : Routine ν _).Ensures (watch ν) (fun _ ↦ Ahead) s :=
      (he.ensures_advance advances).seq fun _ t ht ↦
        ht.ensures (only_request (steady_reviseStatus _))
    refine advance.seq fun _ t ht ↦ ?_
    refine (ht.ensures (only_note quiet rfl)).seq fun _ t ht ↦ ?_
    refine (ht.ensures (only_request (quiet .now rfl))).seq fun started t ht ↦ ?_
    have revives : (Request.call (.write Reg.dagStart Reg.dagControl) : Request ν).Revives :=
      .inr (.inl ⟨rfl, rfl⟩)
    refine (ht.ensures_revive revives).seq fun _ t ht ↦ ?_
    exact (ht.ensures rest).seq fun status t ht ↦ ht

theorem ensures_awaitDag (b : Board) (range : Nat) (status : Word) (hs : Even s) :
    (b.awaitDag range status : Routine ν _).Ensures (watch ν) (fun _ ↦ Even) s := by
  have quiet : ∀ r : Request ν, r.isQuiet → Calm r := fun _ ↦ calm_of_isQuiet
  rw [awaitDag]
  split
  · exact (hs.ensures (only_note quiet rfl)).seq fun _ t ht ↦ ht
  · have status' : Calm (.call (.read Reg.dagControl) : Request ν) := by
      refine calm_call id ?_
      rintro ⟨i, hi, h⟩
      have all : ∀ i < Reg.polledSlots, Reg.dagControl ≠ Reg.polledNonceHi (UInt32.ofNat i) := by
        decide
      exact all i hi h
    exact ensures_await b dagAwaited status' (fun _ ↦ quiet _ rfl)
      (only_mentionProgress quiet range) dagPolls status hs

theorem ensures_generate (b : Board) (ctx : EpochContext) (hs : Even s) :
    (b.generate ctx : Routine ν _).Ensures (watch ν) (fun _ ↦ Even) s := by
  have quiet : ∀ r : Request ν, r.isQuiet → Calm r := fun _ ↦ calm_of_isQuiet
  rw [generate_eq]
  refine (ensures_startGenerator hs).seq fun begun t ht ↦ ?_
  refine (ensures_awaitDag b _ _ ht.1).seq fun x t ht ↦ ?_
  cases x with
  | error e => exact ht
  | ok status =>
    refine (ht.ensures (only_request (quiet .now rfl))).seq fun finished t ht ↦ ?_
    exact (ht.ensures (only_note quiet rfl)).seq fun _ t ht ↦ ht

theorem ensures_buildDataset (b : Board) (ctx : EpochContext) (hs : Braced s) :
    (b.buildDataset ctx : Routine ν _).Ensures (watch ν) (fun _ ↦ Even) s := by
  have quiet : ∀ r : Request ν, r.isQuiet → Calm r := fun _ ↦ calm_of_isQuiet
  have power (value : Word) (what : String) :
      (tryWrite value Reg.dagPower what : Routine ν _).Only Steady :=
    only_tryWrite (fun _ ↦ steady_of_isQuiet) (steady_call _)
  -- what is written before the first wait cannot bring a braced board out of step
  refine (hs.ensures (power ..)).seq fun _ t ht ↦ ?_
  refine (ht.ensures (power ..)).seq fun _ t ht ↦ ?_
  refine (ensures_provideCache b ctx _ ht.1).seq fun x t ht ↦ ?_
  cases x with
  | error e => exact ht
  | ok =>
    refine (ht.ensures (only_divideItems quiet b ctx _ (calm_revise _) calm_range)).seq
      fun _ t ht ↦ ?_
    refine (ensures_generate b ctx ht).seq fun y t ht ↦ ?_
    cases y with
    | error e => exact ht
    | ok =>
      have moves : ∀ src dst length, Calm (.call (.move src dst length) : Request ν) :=
        fun _ _ _ ↦ calm_call id id
      refine (ht.ensures (only_spread quiet calm_look (calm_revise _) moves)).seq fun z t ht ↦ ?_
      cases z with
      | error e => exact ht
      | ok =>
        have status : ∀ value, Calm (.call (.write value Reg.dagStatus) : Request ν) :=
          fun _ ↦ calm_of_addr (by decide) (by decide) (by decide)
        refine (even_tryWrite ht (status _)).seq fun _ t ht ↦ ?_
        exact (ht.ensures (only_note quiet rfl)).seq fun _ t ht ↦ ht

/-! ## The end of the change -/

/-- Whatever comes of the divisor, it is said. -/
theorem ensures_programDivisor [Quantity ν] (pll : PllReading ν) (mhz : ν) (hs : Behind s) :
    (programDivisor pll mhz).Ensures (watch ν) (fun _ ↦ Braced) s := by
  have room := roomToDrive_steady (ν := ν)
  have write (value addr : Word) (what : String) :
      (tryWrite value addr what : Routine ν _).Only Steady :=
    only_tryWrite room.quiet (steady_call _)
  rw [programDivisor]
  cases Pll.divisorFor pll.vco mhz with
  | error e =>
    cases e with
    | tooFast divisor =>
      have advances : (Request.note (.clockTooFast mhz divisor)).Advances := trivial
      exact (hs.ensures_advance advances).seq fun _ t ht ↦ ht
    | tooSlow divisor =>
      have advances : (Request.note (.clockTooSlow mhz divisor)).Advances := trivial
      exact (hs.ensures_advance advances).seq fun _ t ht ↦ ht
  | ok divisor =>
    refine (hs.ensures (write ..)).seq fun _ t ht ↦ ?_
    refine (ht.ensures (write ..)).seq fun _ t ht ↦ ?_
    refine (ht.ensures (write ..)).seq fun _ t ht ↦ ?_
    refine (ht.ensures (write ..)).seq fun _ t ht ↦ ?_
    refine (ht.ensures (only_request (room.clock _))).seq fun _ t ht ↦ ?_
    have advances : (Request.note (.clockSet (pll.vco / divisor) divisor)).Advances := trivial
    exact (ht.ensures_advance advances).seq fun _ t ht ↦ ht

/-- A clock change on an exposed board revives it by powering the generator, and then says what came
of the divisor. Nothing is done without a reading of the clock generator. -/
theorem ensures_setClock_target [Quantity ν] (mhz : ν) (hs : Even s) :
    (setClock (.target mhz)).Ensures (watch ν) (fun _ ↦ Even) s := by
  have room := roomToDrive_steady (ν := ν)
  rcases hs.braced_or_exposed with hb | he
  · have steady := only_setClock_target room.quiet room.clock (fun _ _ _ ↦ steady_call _)
      room.clocks mhz
    exact (hb.ensures steady).mono fun _ _ ht ↦ ht.1
  · have quiet : ∀ r : Request ν, r.isQuiet → Calm r ∧ Steady r :=
      fun _ h ↦ ⟨calm_of_isQuiet h, steady_of_isQuiet h⟩
    refine (he.ensures (only_readPll quiet)).seq fun pll t ht ↦ ?_
    cases pll with
    | none => exact (ht.even.ensures (only_note (fun r h ↦ (quiet r h).1) rfl)).seq fun _ t ht ↦ ht
    | some pll =>
      have save {t : Account} (ht : Exposed t) {addr : Word} (h : addr ∉ Reg.telling) :
          (saveParameter addr : Routine ν _).Ensures (watch ν) (fun _ ↦ Exposed) t :=
        ht.ensures (only_readOr quiet (quiet _ (by simpa [Request.isQuiet] using h)))
      have write (value addr : Word) : (restoreParameter addr value : Routine ν _).Only Steady :=
        only_tryWrite room.quiet (steady_call _)
      refine (save ht (by decide)).seq fun items t ht ↦ ?_
      refine (save ht (by decide)).seq fun reciprocal t ht ↦ ?_
      refine (save ht (by decide)).seq fun power t ht ↦ ?_
      have revives : (Request.call (.write Reg.dagPowerOn Reg.dagPower) : Request ν).Revives :=
        .inl ⟨rfl, by decide⟩
      refine (ht.ensures_revive revives).seq fun _ t ht ↦ ?_
      -- the board is ahead of what was said of it, until something is said of the divisor
      have change : (do
          let clock ← programDivisor pll mhz
          settleClock
          pure clock : Routine ν ν).Ensures (watch ν) (fun _ ↦ Braced) t := by
        refine (ensures_programDivisor pll mhz ht).seq fun clock t ht ↦ ?_
        exact (ht.ensures (only_settleClock room.quiet)).seq fun _ t ht ↦ ht
      refine change.seq fun clock t ht ↦ ?_
      refine (ht.ensures (write ..)).seq fun _ t ht ↦ ?_
      refine (ht.ensures (write ..)).seq fun _ t ht ↦ ?_
      refine (ht.ensures (write ..)).seq fun _ t ht ↦ ?_
      exact (ht.ensures (only_request (room.clock _))).seq fun _ t ht ↦ ht.1

theorem ensures_restoreClock [Quantity ν] (target : ν) (hs : Even s) :
    (restoreClock target).Ensures (watch ν) (fun _ ↦ Even) s := by
  rw [restoreClock]
  split
  · refine (hs.ensures (only_note (fun _ ↦ calm_of_isQuiet) rfl)).seq fun _ t ht ↦ ?_
    exact (ensures_setClock_target target ht).seq fun _ t ht ↦ ht
  · exact hs

theorem ensures_finishEpoch [Quantity ν] (epoch : Word) (hs : Even s) :
    (finishEpoch epoch : Routine ν _).Ensures (watch ν) (fun _ ↦ Account.Sync) s := by
  have memory' {t : Account} (ht : Even t) :
      (memory : Routine ν _).Ensures (watch ν) (fun _ ↦ Even) t :=
    ht.ensures (only_request (calm_of_isQuiet rfl))
  rw [finishEpoch_eq]
  refine (even_tryWrite hs calm_powerOff).seq fun _ t ht ↦ ?_
  refine (memory' ht).seq fun m t ht ↦ ?_
  refine (ensures_restoreClock m.clock.target ht).seq fun _ t ht ↦ ?_
  refine (memory' ht).seq fun m t ht ↦ ?_
  have remember : (revise fun m ↦ { m with lastEpoch := some epoch } : Routine ν _).Only Calm :=
    only_request (calm_revise _)
  refine (ht.ensures remember).seq fun _ t ht ↦ ?_
  refine (ensures_release ht).seq fun _ t ht ↦ ?_
  refine ht.ensures ((only_request ⟨id, id⟩).bind fun _ ↦ only_request ⟨id, id⟩)

/-! ## The whole change -/

theorem ensures_changeEpoch [Quantity ν] (b : Board) (ctx : EpochContext) (hs : s.Sync) :
    (b.changeEpoch ctx : Routine ν _).Ensures (watch ν) (fun _ ↦ Account.Sync) s := by
  refine (ensures_acquire hs).seq fun _ t ht ↦ ?_
  refine (ensures_prepareCore ctx ht).seq fun _ t ht ↦ ?_
  have look := only_holdsDataset (fun (r : Request ν) h ↦ steady_of_isQuiet h) b ctx.epoch
    (steady_call _)
  refine (ht.ensures look).seq fun holds t ht ↦ ?_
  cases holds with
  | true => exact (ensures_finishEpoch ctx.epoch ht.1).seq fun _ t ht ↦ ht
  | false =>
    refine (ensures_buildDataset b ctx ht).seq fun x t ht ↦ ?_
    cases x with
    | error e => exact (ensures_release ht).seq fun _ t ht ↦ ht
    | ok => exact (ensures_finishEpoch ctx.epoch ht).seq fun _ t ht ↦ ht

theorem ensures_prepareEpoch [Quantity ν] (b : Board) (ctx : EpochContext) (hs : s.Sync) :
    (b.prepareEpoch ctx : Routine ν _).Ensures (watch ν) (fun _ ↦ Account.Sync) s := by
  have quiet : ∀ r : Request ν, r.isQuiet → ¬r.Revives ∧ ¬r.Advances :=
    fun r h ↦ ⟨(calm_of_isQuiet h).1, (calm_of_isQuiet h).2.1⟩
  have readMemory {t : Account} (ht : t.Sync) :
      (memory : Routine ν _).Ensures (watch ν) (fun _ ↦ Account.Sync) t :=
    ht.ensures (only_request (quiet _ rfl))
  refine (readMemory hs).seq fun m t ht ↦ ?_
  split
  · exact (ht.ensures (only_note quiet rfl)).seq fun _ t ht ↦ ht
  · -- the flag is not looked at again after the wait for the lock
    have last : (isLastEpoch ctx.epoch : Routine ν _).Ensures (watch ν) (fun _ ↦ Account.Sync)
        t := by
      refine (ensures_acquire ht).seq fun _ t ht ↦ ?_
      refine (ht.ensures (only_request (calm_of_isQuiet (r := .memory) rfl))).seq fun m t ht ↦ ?_
      exact (ensures_release ht).seq fun _ t ht ↦ ht
    refine last.seq fun isLast t ht ↦ ?_
    split
    · exact ht
    · have busy {t : Account} (ht : t.Sync) (f : Memory ν → Memory ν) :
          (revise f).Ensures (watch ν) (fun _ ↦ Account.Sync) t :=
        ht.ensures (only_request ⟨id, id⟩)
      refine (busy ht _).seq fun _ t ht ↦ ?_
      refine (ensures_changeEpoch b ctx ht).seq fun x t ht ↦ ?_
      refine (busy ht _).seq fun _ t ht ↦ ?_
      cases x with
      | ok outcome =>
        refine (ht.ensures (only_note quiet rfl)).seq fun _ t ht ↦ ?_
        exact (ht.ensures (only_request ⟨id, id⟩)).seq fun _ t ht ↦ ht
      | error e =>
        refine (ht.ensures (only_note quiet rfl)).seq fun _ t ht ↦ ?_
        exact (ht.ensures (only_enter ⟨id, id⟩ (quiet _ rfl))).seq fun _ t ht ↦ ht

end HashBoard.Revival
