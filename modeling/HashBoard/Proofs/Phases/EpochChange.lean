import HashBoard.Proofs.Phases.Account

/-!
# How an epoch change goes through the phases

Each part of a change enters its phase first and then stays in it (`ensures_entering`). What a part
asks after that belongs in the phase it entered, or in none. A change that fails does so somewhere
between its first phase and its last, and one that succeeds remembers its epoch before it tells
onlookers of it.
-/

namespace HashBoard.Phases

open Routine Board

variable {ν α : Type} {s t : Account} {strategy : CacheStrategy} {p q : EpochPhase} {epoch : Word}

/-- A change is under way that found the board in some phase and has not entered its first. -/
structure Found (p : EpochPhase) (s : Account) : Prop where
  phase : s.phase = p
  told : s.told = s.last
  stage : s.stage = .begun p
  rest : p.IsRest

/-- A change is in some phase of its own. -/
structure At (p : EpochPhase) (s : Account) : Prop where
  phase : s.phase = p
  told : s.told = s.last
  stage : s.stage = .entered

/-- A change is somewhere between its first phase and its last. -/
def Midway (s : Account) : Prop := ∃ p, ¬p.IsRest ∧ At p s

/-- The epoch of a change is remembered, but onlookers are not told yet. -/
structure Ready (p : EpochPhase) (epoch : Word) (s : Account) : Prop where
  phase : s.phase = p
  last : s.last = some epoch
  stage : s.stage = .entered

/-- The phase that a change is closed with. -/
def closing {ε : Type} : Except ε α → EpochPhase
  | .ok _ => .done
  | .error _ => .idle

/-- How the account stands when a change has ended. -/
inductive Ended : Except BoardError EpochOutcome → Account → Prop
  /-- It did not enter its first phase. -/
  | refused {s : Account} {p : EpochPhase} {x : Except BoardError EpochOutcome} :
    Found p s → x = .ok .skipped ∨ x = .error .halted → Ended x s
  /-- It did. -/
  | closed {s : Account} {x : Except BoardError EpochOutcome} : At (closing x) s → Ended x s

theorem safe_of_entered (h : s.stage = .entered) : (watch strategy ν).safe s := by
  intro hnone
  rw [h] at hnone
  cases hnone

theorem Found.ensures {x : Routine ν α} (hs : Found p s) (h : x.Only (Spares s)) :
    x.Ensures (watch strategy ν) (fun _ ↦ Found p) s := by
  refine ensures_kept hs (fun hnone ↦ ?_) h
  rw [hs.stage] at hnone
  cases hnone

theorem At.ensures {x : Routine ν α} (hs : At p s) (h : x.Only (Spares s)) :
    x.Ensures (watch strategy ν) (fun _ ↦ At p) s := ensures_kept hs (safe_of_entered hs.stage) h

theorem Ready.ensures {x : Routine ν α} (hs : Ready p epoch s) (h : x.Only (Spares s)) :
    x.Ensures (watch strategy ν) (fun _ ↦ Ready p epoch) s :=
  ensures_kept hs (safe_of_entered hs.stage) h

theorem At.midway (h : At p s) (hp : ¬p.IsRest) : Midway s := ⟨p, hp, h⟩

/-! ## Entering a phase -/

/-- Announcing a phase leaves a change that has entered its first phase alone. -/
theorem At.spares_announce (hs : At p s) : Spares s (.note (.phase q) : Request ν) where
  phase _ hm := hm
  told _ := rfl
  last _ := rfl
  stage := by
    rw [hs.stage]
    rfl
  own := nofun

/-- Entering the phase it is in leaves a change alone. -/
theorem At.spares_enter (hs : At p s) :
    Spares s (.revise fun m ↦ m.withStatus fun st ↦ { st with phase := p } : Request ν) where
  phase _ _ := hs.phase.symm
  told _ := rfl
  last _ := rfl
  stage := s.stage.upon_of_not_isEntry rfl
  own := nofun

/-- What may enter a phase: a change whose stage announcing that phase makes `entered`. -/
structure Enters (strategy : CacheStrategy) (ν : Type) (q : EpochPhase) (s : Account) : Prop where
  told : s.told = s.last
  stage : s.stage.upon (.note (.phase q) : Request ν) = .entered
  leads : s.phase.Leads strategy q

theorem Found.enters (hs : Found p s) : Enters strategy ν .preparing s where
  told := hs.told
  stage := by
    rw [hs.stage]
    rfl
  leads := by
    rw [hs.phase]
    exact .begins hs.rest

theorem At.enters (hs : At p s) (leads : p.Leads strategy q) : Enters strategy ν q s where
  told := hs.told
  stage := by
    rw [hs.stage]
    rfl
  leads := by
    rw [hs.phase]
    exact leads

theorem ensures_enter (hs : Enters strategy ν q s) :
    (enter q : Routine ν _).Ensures (watch strategy ν) (fun _ ↦ At q) s := by
  refine ⟨fun hnone ↦ ?_, ⟨fun _ hm ↦ .inl hm, nofun⟩, ?_⟩
  · have hentered := hs.stage
    rw [hnone] at hentered
    cases hentered
  · rintro - _ ⟨_, rfl, m, stage, rfl, rfl⟩
    have hentered : stage.upon (.note (.phase q) : Request ν) = .entered := hs.stage
    rw [hentered]
    refine ⟨safe_of_entered rfl, ⟨fun _ _ ↦ .inr hs.leads, nofun⟩, ?_⟩
    rintro - _ ⟨_, rfl, m', stage', hm', rfl⟩
    obtain ⟨-, htold, hlast, hstage⟩ := Account.mk.inj hm'
    refine ⟨rfl, ?_, ?_⟩
    · exact htold.symm.trans (hs.told.trans hlast)
    · exact (stage'.upon_of_not_isEntry rfl).trans hstage.symm

/-- What enters a phase first and then stays in it. -/
theorem ensures_entering {f : Unit → Routine ν α} (hs : Enters strategy ν q s)
    (h : ∀ t, At q t → ((enter q).bind f).Only (Spares t)) :
    ((enter q).bind f).Ensures (watch strategy ν) (fun _ ↦ At q) s :=
  (ensures_enter hs).seq fun _ t ht ↦ ht.ensures (((h t ht).2 ()).2 ())

/-! ## The parts of a change -/

theorem At.roomToDrive (hs : At .preparing s) : RoomToDrive (Spares s : Request ν → Prop) where
  toRoomToClock := roomToClock_spares
  preparing := hs.spares_announce
  enter := hs.spares_enter
  changing _ := spares_aside
  books := spares_books
  stop := spares_aside

theorem At.roomToGenerate (hs : At .generating s) :
    RoomToGenerate (Spares s : Request ν → Prop) where
  toRoomToAwait := roomToAwait_spares
  generating := hs.spares_announce
  enter := hs.spares_enter
  start := spares_call fun q hq ↦ by
    cases hq
    exact hs.phase

theorem ensures_provideCache (b : Board) (ctx : EpochContext) (parents : Word)
    (hs : At .preparing s) :
    (b.provideCache ctx parents : Routine ν _).Ensures (watch b.settings.cacheStrategy ν)
      (fun _ t ↦ ∃ p, (p = .onChipCache ∨ p = .cacheUpload) ∧ At p t) s := by
  rw [provideCache]
  cases b.settings.cacheStrategy with
  | onChip =>
    refine (ensures_enter (hs.enters (.derives rfl))).seq fun _ t ht ↦ ?_
    have derives := only_deriveCache (ν := ν) (roomToDerive_spares (s := t)) b ctx parents
    exact (ht.ensures derives).mono fun _ u hu ↦ ⟨_, .inl rfl, hu⟩
  | upload =>
    refine (ensures_enter (hs.enters (.uploads rfl))).seq fun _ t ht ↦ ?_
    have uploads : (uploadCache ctx : Routine ν _).Only (Spares t) :=
      only_uploadCache (fun _ ↦ spares_of_isQuiet) ctx spares_aside fun _ _ ↦ spares_aside
    exact (ht.ensures uploads).mono fun _ u hu ↦ ⟨_, .inr rfl, hu⟩

theorem ensures_divideItems (b : Board) (ctx : EpochContext) (parents : Word)
    (hs : Enters strategy ν .itemsPartitioned s) :
    (b.divideItems ctx parents : Routine ν _).Ensures (watch strategy ν)
      (fun _ ↦ At .itemsPartitioned) s := by
  refine ensures_entering hs fun t ht ↦ ?_
  refine only_divideItems (fun _ ↦ spares_of_isQuiet) b ctx parents ht.spares_enter ?_
  intro value addr haddr
  refine spares_call fun q hq ↦ ?_
  rw [Request.ownPhase?] at hq
  split at hq
  · rename_i hstart
    rw [hstart.2] at haddr
    exact absurd haddr (by decide)
  · split at hq
    · cases hq
      exact ht.phase
    · cases hq

theorem ensures_generate (b : Board) (ctx : EpochContext) (hs : Enters strategy ν .generating s) :
    (b.generate ctx : Routine ν _).Ensures (watch strategy ν) (fun _ ↦ At .generating) s :=
  ensures_entering hs fun _ ht ↦ only_generate ht.roomToGenerate b ctx

theorem ensures_spread (hs : Enters strategy ν .duplicating s) :
    (spread : Routine ν _).Ensures (watch strategy ν) (fun _ ↦ At .duplicating) s := by
  refine ensures_entering hs fun t ht ↦ ?_
  refine only_spread (fun _ ↦ spares_of_isQuiet) spares_aside ht.spares_enter fun _ _ _ ↦ ?_
  refine spares_call fun q hq ↦ ?_
  cases hq
  exact ht.phase

/-- Building a dataset fails midway, or comes as far as the last phase but one. -/
theorem ensures_buildDataset (b : Board) (ctx : EpochContext) (hs : At .preparing s) :
    (b.buildDataset ctx : Routine ν _).Ensures (watch b.settings.cacheStrategy ν)
      (fun
        | .error _ => Midway
        | .ok _ => At .duplicating) s := by
  have writes {u : Account} {addr : Word} (hcontrol : addr ≠ Reg.dagControl)
      (hmixers : addr ∉ Reg.mixers) (value : Word) (what : String) :
      (tryWrite value addr what : Routine ν _).Only (Spares u) :=
    only_tryWrite (fun _ ↦ spares_of_isQuiet) (spares_write hcontrol hmixers)
  refine (hs.ensures (writes (by decide) (by decide) ..)).seq fun _ t ht ↦ ?_
  refine (ht.ensures (writes (by decide) (by decide) ..)).seq fun _ t ht ↦ ?_
  refine (ensures_provideCache b ctx _ ht).seq ?_
  rintro x t ⟨p, hp, ht⟩
  cases x with
  | error e => exact ht.midway (by rcases hp with rfl | rfl <;> exact nofun)
  | ok =>
    refine (ensures_divideItems b ctx _ (ht.enters (.divides hp))).seq fun _ t ht ↦ ?_
    refine (ensures_generate b ctx (ht.enters .generates)).seq fun y t ht ↦ ?_
    cases y with
    | error e => exact ht.midway nofun
    | ok =>
      refine (ensures_spread (ht.enters .spreads)).seq fun z t ht ↦ ?_
      cases z with
      | error e => exact ht.midway nofun
      | ok =>
        refine (ht.ensures (writes (by decide) (by decide) ..)).seq fun _ t ht ↦ ?_
        exact (ht.ensures (only_note (fun _ ↦ spares_of_isQuiet) rfl)).seq fun _ t ht ↦ ht

/-! ## The whole change -/

variable [Quantity ν]

theorem ensures_prepareCore (ctx : EpochContext) (hs : Found p s) :
    (prepareCore ctx : Routine ν _).Ensures (watch strategy ν) (fun _ ↦ At .preparing) s :=
  ensures_entering hs.enters fun _ ht ↦ only_prepareCore ht.roomToDrive ctx

/-- A change concludes by remembering its epoch, still in its last phase but one. -/
theorem ensures_finishEpoch (hs : At p s) :
    (finishEpoch epoch : Routine ν _).Ensures (watch strategy ν) (fun _ ↦ Ready p epoch) s := by
  rw [finishEpoch_eq]
  refine (hs.ensures (only_tryWrite (fun _ ↦ spares_of_isQuiet)
    (spares_write (by decide) (by decide)))).seq fun _ t ht ↦ ?_
  refine (ht.ensures (only_request (spares_of_isQuiet rfl))).seq fun m t ht ↦ ?_
  refine (ht.ensures (only_restoreClock roomToClock_spares m.clock.target)).seq fun _ t ht ↦ ?_
  refine (ht.ensures (only_request (spares_of_isQuiet rfl))).seq fun m t ht ↦ ?_
  have remembers : (revise fun m ↦ { m with lastEpoch := some epoch } : Routine ν _).Ensures
      (watch strategy ν) (fun _ ↦ Ready p epoch) t := by
    refine ⟨safe_of_entered ht.stage, ⟨fun _ hm ↦ .inl hm, nofun⟩, ?_⟩
    rintro - _ ⟨_, rfl, m, stage, rfl, rfl⟩
    exact ⟨ht.phase, rfl, (stage.upon_of_not_isEntry rfl).trans ht.stage⟩
  refine remembers.seq fun _ t ht ↦ ?_
  refine (ht.ensures (only_request spares_aside)).seq fun _ t ht ↦ ?_
  have tells : (reviseStatus fun st ↦ { st with clock := m.clock.current } : Routine ν _).Only
      (Spares t) := only_request (spares_revise (fun _ ↦ rfl) (fun _ ↦ rfl) fun _ ↦ rfl)
  refine (ht.ensures tells).seq fun _ t ht ↦ ?_
  exact ht.ensures (only_request spares_aside)

/-- How the account stands when the board was made ready, or was not. -/
def Changed (strategy : CacheStrategy) (epoch : Word) :
    Except BoardError EpochOutcome → Account → Prop
  | .ok _, s => ∃ p, p.Leads strategy .done ∧ Ready p epoch s
  | .error _, s => Midway s

omit [Quantity ν] in
theorem Ready.changed {outcome : EpochOutcome} (hs : Ready p epoch s)
    (leads : p.Leads strategy .done) : Changed strategy epoch (.ok outcome) s := ⟨p, leads, hs⟩

theorem ensures_changeEpoch (b : Board) (ctx : EpochContext) (hs : Found p s) :
    (b.changeEpoch ctx : Routine ν _).Ensures (watch b.settings.cacheStrategy ν)
      (Changed b.settings.cacheStrategy ctx.epoch) s := by
  refine (hs.ensures (only_request spares_aside)).seq fun _ t ht ↦ ?_
  refine (ensures_prepareCore ctx ht).seq fun _ t ht ↦ ?_
  have holds : (b.holdsDataset ctx.epoch : Routine ν _).Only (Spares t) :=
    only_holdsDataset (fun _ ↦ spares_of_isQuiet) b ctx.epoch spares_aside
  refine (ht.ensures holds).seq fun resident t ht ↦ ?_
  cases resident with
  | true =>
    refine (ensures_finishEpoch ht).seq fun _ t ht ↦ ?_
    exact ht.changed .resides
  | false =>
    refine (ensures_buildDataset b ctx ht).seq ?_
    rintro (e | ⟨⟩) t ht
    · obtain ⟨p, hp, ht⟩ := ht
      exact (ht.ensures (only_request spares_aside)).seq fun _ t ht ↦ ht.midway hp
    · refine (ensures_finishEpoch ht).seq fun _ t ht ↦ ?_
      exact ht.changed .concludes

omit [Quantity ν] in
/-- Onlookers are told of the remembered epoch and of the last phase at once. -/
theorem ensures_tell (leads : p.Leads strategy .done) (hs : Ready p epoch s) :
    (reviseStatus fun st ↦ { st with epoch := some epoch, phase := .done } : Routine ν _).Ensures
      (watch strategy ν) (fun _ ↦ At .done) s := by
  refine ⟨safe_of_entered hs.stage, ⟨fun m hm ↦ .inr ?_, nofun⟩, ?_⟩
  · rw [hs.phase]
    exact leads
  · rintro - _ ⟨_, rfl, m, stage, rfl, rfl⟩
    exact ⟨rfl, hs.last.symm, (stage.upon_of_not_isEntry rfl).trans hs.stage⟩

theorem ensures_trackedChange (b : Board) (ctx : EpochContext) (hs : Found p s) :
    (b.trackedChange ctx : Routine ν _).Ensures (watch b.settings.cacheStrategy ν)
      (fun x ↦ At (closing x)) s := by
  have busy {u : Account} (f : Memory ν → Bool) :
      (revise fun m ↦ { m with busy := f m } : Routine ν _).Only (Spares u) :=
    only_request (spares_revise (fun _ ↦ rfl) (fun _ ↦ rfl) fun _ ↦ rfl)
  have notes {u : Account} {event : Event ν} (h : event.isMilestone = false) :
      (note event).Only (Spares u) := only_note (fun _ ↦ spares_of_isQuiet) h
  refine (hs.ensures (busy fun _ ↦ true)).seq fun _ t ht ↦ ?_
  refine (ensures_changeEpoch b ctx ht).seq ?_
  rintro (e | outcome) t ht
  · obtain ⟨p, hp, ht⟩ := ht
    refine (ht.ensures (busy fun m ↦ m.halted)).seq fun _ t ht ↦ ?_
    refine (ht.ensures (notes rfl)).seq fun _ t ht ↦ ?_
    exact (ensures_enter (ht.enters (.fails hp))).seq fun _ t ht ↦ ht
  · obtain ⟨p, leads, ht⟩ := ht
    refine (ht.ensures (busy fun m ↦ m.halted)).seq fun _ t ht ↦ ?_
    refine (ht.ensures (notes rfl)).seq fun _ t ht ↦ ?_
    exact (ensures_tell leads ht).seq fun _ t ht ↦ ht

/-- A change that is neither refused nor skipped is closed. -/
theorem ensures_prepareEpoch (b : Board) (ctx : EpochContext) (hs : Found p s) :
    (b.prepareEpoch ctx : Routine ν _).Ensures (watch b.settings.cacheStrategy ν) Ended s := by
  have remembers : (memory : Routine ν _).Only (Spares s) := only_request (spares_of_isQuiet rfl)
  refine (hs.ensures remembers).seq fun m t ht ↦ ?_
  split
  · have notes : (note (.haltedEpoch ctx.epoch) : Routine ν _).Only (Spares t) :=
      only_note (fun _ ↦ spares_of_isQuiet) rfl
    exact (ht.ensures notes).seq fun _ t ht ↦ .refused ht (.inr rfl)
  · have looks : (isLastEpoch ctx.epoch : Routine ν _).Only (Spares t) :=
      ⟨spares_aside, fun _ ↦ ⟨spares_of_isQuiet rfl, fun _ ↦ ⟨spares_aside, fun _ ↦ trivial⟩⟩⟩
    refine (ht.ensures looks).seq fun last t ht ↦ ?_
    split
    · exact .refused ht (.inl rfl)
    · exact (ensures_trackedChange b ctx ht).mono fun _ _ ht ↦ .closed ht

end HashBoard.Phases
