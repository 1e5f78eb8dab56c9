import HashBoard.Proofs.Once.Account

/-!
# Where an epoch change starts the generator

A change that is not skipped may start the generator once, in the middle of building the dataset.
Nothing it does before or after that does so again, and the remembered epoch is set where it
concludes, which cannot fail any more.
-/

namespace HashBoard.Once

open Routine Board

variable {ν α : Type} {s t : Account} {epoch : Word}

/-- A change may start the generator. -/
structure Fresh (epoch : Word) (s : Account) : Prop where
  current : s.current = some epoch
  last : s.lastEpoch = s.done
  starts : s.starts < s.allowed

/-- A change may not start the generator any more. -/
structure Spent (epoch : Word) (s : Account) : Prop where
  current : s.current = some epoch
  last : s.lastEpoch = s.done
  starts : s.starts ≤ s.allowed

/-- The epoch of a change is remembered. -/
structure Concluded (epoch : Word) (s : Account) : Prop where
  current : s.current = some epoch
  last : s.lastEpoch = some epoch
  starts : s.starts ≤ s.allowed

theorem Fresh.spent (h : Fresh epoch s) : Spent epoch s :=
  ⟨h.current, h.last, Nat.le_of_lt h.starts⟩

theorem Spent.sound (h : Spent epoch s) : s.Sound := ⟨h.starts, .inl h.last⟩

theorem Concluded.sound (h : Concluded epoch s) : s.Sound :=
  ⟨h.starts, .inr ⟨epoch, h.current, h.last⟩⟩

/-- What leaves the account alone keeps whatever holds of it. -/
theorem ensures_kept {p : Routine ν α} {R : Account → Prop} (hs : R s) (sound : R s → s.Sound)
    (h : p.Only Spares) : p.Ensures (watch ν) (fun _ ↦ R) s :=
  (ensures_spares h (sound hs)).mono fun _ _ ht ↦ ht ▸ hs

theorem Fresh.ensures {p : Routine ν α} (hs : Fresh epoch s) (h : p.Only Spares) :
    p.Ensures (watch ν) (fun _ ↦ Fresh epoch) s := ensures_kept hs (·.spent.sound) h

theorem Spent.ensures {p : Routine ν α} (hs : Spent epoch s) (h : p.Only Spares) :
    p.Ensures (watch ν) (fun _ ↦ Spent epoch) s := ensures_kept hs Spent.sound h

theorem Concluded.ensures {p : Routine ν α} (hs : Concluded epoch s) (h : p.Only Spares) :
    p.Ensures (watch ν) (fun _ ↦ Concluded epoch) s := ensures_kept hs Concluded.sound h

/-! ## The dataset -/

/-- The request that starts the generator. -/
theorem ensures_start (what : String) (hs : Fresh epoch s) :
    (tryWrite Reg.dagStart Reg.dagControl what : Routine ν _).Ensures (watch ν)
      (fun _ ↦ Spent epoch) s := by
  have quiet := (roomToDrive_spares (ν := ν)).quiet
  have attempt : (Routine.write Reg.dagStart Reg.dagControl : Routine ν _).Ensures (watch ν)
      (fun _ ↦ Spent epoch) s := by
    refine (hs.ensures (only_note quiet rfl)).seq fun _ t ht ↦ ?_
    refine ⟨ht.spent.sound, trivial, ?_⟩
    rintro x _ ⟨u, rfl, -, m, hlast, rfl⟩
    exact ⟨ht.current, hlast.trans ht.last, ht.starts⟩
  refine attempt.seq fun x t ht ↦ ?_
  cases x with
  | ok => exact ht
  | error fault => exact ht.ensures (only_note quiet rfl)

theorem ensures_startGenerator (hs : Fresh epoch s) :
    (startGenerator : Routine ν _).Ensures (watch ν) (fun _ ↦ Spent epoch) s := by
  have room := roomToDrive_spares (ν := ν)
  refine (hs.ensures (only_enter (spares_reviseStatus _) (spares_note _))).seq fun _ t ht ↦ ?_
  refine (ht.ensures (only_note room.quiet rfl)).seq fun _ t ht ↦ ?_
  refine (ht.ensures (only_request (room.quiet .now rfl))).seq fun started t ht ↦ ?_
  refine (ensures_start _ ht).seq fun _ t ht ↦ ?_
  have looks : (firstStatus : Routine ν _).Only Spares :=
    only_firstStatus room.quiet ⟨rfl, fun _ ↦ rfl⟩
  exact (ht.ensures looks).seq fun status t ht ↦ ht

theorem ensures_generate (b : Board) (ctx : EpochContext) (hs : Fresh epoch s) :
    (b.generate ctx : Routine ν _).Ensures (watch ν) (fun _ ↦ Spent epoch) s := by
  rw [generate_eq]
  refine (ensures_startGenerator hs).seq fun begun t ht ↦ ?_
  exact ht.ensures (only_awaitGenerator roomToAwait_spares b ctx begun)

theorem ensures_buildDataset (b : Board) (ctx : EpochContext) (hs : Fresh epoch s) :
    (b.buildDataset ctx : Routine ν _).Ensures (watch ν) (fun _ ↦ Spent epoch) s := by
  have quiet := (roomToDrive_spares (ν := ν)).quiet
  have writes {addr : Word} (h : addr ≠ Reg.dagControl) (value : Word) (what : String) :
      (tryWrite value addr what : Routine ν _).Only Spares := only_tryWrite quiet (spares_write h)
  refine (hs.ensures (writes (by decide) ..)).seq fun _ t ht ↦ ?_
  refine (ht.ensures (writes (by decide) ..)).seq fun _ t ht ↦ ?_
  refine (ht.ensures (only_provideCache roomToCache_spares b ctx _)).seq fun x t ht ↦ ?_
  cases x with
  | error e => exact ht.spent
  | ok =>
    have ranges (value addr : Word) (h : Reg.isRange addr) :
        Spares (.call (.write value addr) : Request ν) := by
      refine spares_write ?_
      rintro rfl
      exact absurd h (by decide)
    refine (ht.ensures (only_divideItems quiet b ctx _ (spares_reviseStatus _) ranges)).seq
      fun _ t ht ↦ ?_
    refine (ensures_generate b ctx ht).seq fun y t ht ↦ ?_
    cases y with
    | error e => exact ht
    | ok =>
      refine (ht.ensures (only_spread quiet spares_look (spares_reviseStatus _)
        fun _ _ _ ↦ ⟨rfl, fun _ ↦ rfl⟩)).seq fun z t ht ↦ ?_
      cases z with
      | error e => exact ht
      | ok =>
        refine (ht.ensures (writes (by decide) ..)).seq fun _ t ht ↦ ?_
        exact (ht.ensures (only_note quiet rfl)).seq fun _ t ht ↦ ht

/-! ## The whole change -/

variable [Quantity ν]

/-- A change concludes by remembering its epoch. -/
theorem ensures_finishEpoch (hs : Spent epoch s) :
    (finishEpoch epoch : Routine ν _).Ensures (watch ν) (fun _ ↦ Concluded epoch) s := by
  have room := roomToDrive_spares (ν := ν)
  rw [finishEpoch_eq]
  have powers : (tryWrite Reg.dagPowerOff Reg.dagPower "generator power" : Routine ν _).Only
      Spares := only_tryWrite room.quiet (spares_write (by decide))
  refine (hs.ensures powers).seq fun _ t ht ↦ ?_
  refine (ht.ensures (only_request (room.quiet .memory rfl))).seq fun m t ht ↦ ?_
  refine (ht.ensures (only_restoreClock room.toRoomToClock m.clock.target)).seq fun _ t ht ↦ ?_
  refine (ht.ensures (only_request (room.quiet .memory rfl))).seq fun m t ht ↦ ?_
  have remembers : (revise fun m ↦ { m with lastEpoch := some epoch } : Routine ν _).Ensures
      (watch ν) (fun _ ↦ Concluded epoch) t := by
    refine ⟨ht.sound, trivial, ?_⟩
    rintro - _ ⟨u, rfl, -, m, -, rfl⟩
    exact ⟨ht.current, rfl, ht.starts⟩
  refine remembers.seq fun _ t ht ↦ ?_
  refine (ht.ensures (only_request spares_release)).seq fun _ t ht ↦ ?_
  refine ht.ensures (Only.bind (only_request (spares_reviseStatus _)) fun _ ↦ ?_)
  exact only_request ⟨rfl, fun _ ↦ rfl⟩

/-- How the account stands when a change has ended. -/
def Ended (epoch : Word) : Except BoardError EpochOutcome → Account → Prop
  | .ok _ => Concluded epoch
  | .error _ => Spent epoch

omit [Quantity ν] in
theorem Ended.ensures {x : Except BoardError EpochOutcome} {p : Routine ν α} (hs : Ended epoch x s)
    (h : p.Only Spares) : p.Ensures (watch ν) (fun _ ↦ Ended epoch x) s := by
  cases x with
  | ok outcome => exact Concluded.ensures hs h
  | error e => exact Spent.ensures hs h

theorem ensures_changeEpoch (b : Board) (ctx : EpochContext) (hs : Fresh ctx.epoch s) :
    (b.changeEpoch ctx : Routine ν _).Ensures (watch ν) (Ended ctx.epoch) s := by
  have room := roomToDrive_spares (ν := ν)
  refine (hs.ensures (only_request spares_acquire)).seq fun _ t ht ↦ ?_
  refine (ht.ensures (only_prepareCore room ctx)).seq fun _ t ht ↦ ?_
  have holds : (b.holdsDataset ctx.epoch : Routine ν _).Only Spares :=
    only_holdsDataset room.quiet b ctx.epoch ⟨rfl, fun _ ↦ rfl⟩
  refine (ht.ensures holds).seq fun resident t ht ↦ ?_
  cases resident with
  | true => exact (ensures_finishEpoch ht.spent).seq fun _ t ht ↦ ht
  | false =>
    refine (ensures_buildDataset b ctx ht).seq ?_
    rintro (e | -) t ht
    · exact (ht.ensures (only_request spares_release)).seq fun _ t ht ↦ ht
    · exact (ensures_finishEpoch ht).seq fun _ t ht ↦ ht

theorem ensures_trackedChange (b : Board) (ctx : EpochContext) (hs : Fresh ctx.epoch s) :
    (b.trackedChange ctx : Routine ν _).Ensures (watch ν) (Ended ctx.epoch) s := by
  have quiet := (roomToDrive_spares (ν := ν)).quiet
  have busy (f : Memory ν → Bool) : Spares (.revise fun m ↦ { m with busy := f m }) :=
    ⟨rfl, fun _ ↦ rfl⟩
  refine (hs.ensures (only_request (busy fun _ ↦ true))).seq fun _ t ht ↦ ?_
  refine (ensures_changeEpoch b ctx ht).seq fun x t ht ↦ ?_
  refine (ht.ensures (only_request (busy fun m ↦ m.halted))).seq fun _ t ht ↦ ?_
  cases x with
  | ok outcome =>
    refine (ht.ensures (only_note quiet rfl)).seq fun _ t ht ↦ ?_
    exact (ht.ensures (only_request (spares_reviseStatus _))).seq fun _ t ht ↦ ht
  | error e =>
    refine (ht.ensures (only_note quiet rfl)).seq fun _ t ht ↦ ?_
    exact (ht.ensures (only_enter (spares_reviseStatus _) (spares_note _))).seq fun _ t ht ↦ ht

omit [Quantity ν] in
/-- The answer whether an epoch was the last is right. -/
theorem ensures_isLastEpoch (epoch : Word) (hs : s.Sound) :
    (isLastEpoch epoch : Routine ν _).Ensures (watch ν)
      (fun last t ↦ t = s ∧ (last ↔ s.lastEpoch = some epoch)) s := by
  refine (ensures_spares (only_request spares_acquire) hs).seq ?_
  rintro - _ rfl
  refine ⟨hs, trivial, fun m t hm ↦ ?_⟩
  obtain ⟨rfl, hright⟩ := eq_of_moves (spares_of_isQuiet rfl) hm
  refine (ensures_spares (only_request spares_release) hs).seq ?_
  rintro - _ rfl
  refine ⟨rfl, ?_⟩
  rw [← show m.lastEpoch = _ from hright]
  exact decide_eq_true_iff

/-- A change for another epoch than the remembered one needs room for a start. -/
theorem ensures_prepareEpoch (b : Board) (ctx : EpochContext) (hs : Spent ctx.epoch s)
    (room : s.lastEpoch ≠ some ctx.epoch → s.starts < s.allowed) :
    (b.prepareEpoch ctx : Routine ν _).Ensures (watch ν) (Ended ctx.epoch) s := by
  have quiet := (roomToDrive_spares (ν := ν)).quiet
  refine (ensures_spares (only_request (quiet .memory rfl)) hs.sound).seq ?_
  rintro m _ rfl
  split
  · exact (hs.ensures (only_note quiet rfl)).seq fun _ t ht ↦ ht
  · refine (ensures_isLastEpoch ctx.epoch hs.sound).seq ?_
    rintro last _ ⟨rfl, hlast⟩
    split
    · rename_i isLast
      exact ⟨hs.current, hlast.mp isLast, hs.starts⟩
    · rename_i other
      exact ensures_trackedChange b ctx ⟨hs.current, hs.last, room (mt hlast.mpr other)⟩

end HashBoard.Once
