import HashBoard.Proofs.Alone.Dataset
import HashBoard.Proofs.Dag.Reciprocal
import HashBoard.Proofs.Scene.Rehearsal
import HashBoard.Simulation.Session

/-!
# Where an epoch change ends when nothing goes wrong

A change programs the item count first, looks at the status word, builds the dataset unless the
board has it, and restores the clock in the end. `epoch_change_completes` says what the simulated
board looks like afterwards, whichever way the change went and whatever its registers held before:
none of the many writes in between disturbs what another one has left there.
-/

namespace HashBoard

open Routine

/-- A status word says that the dataset of an epoch is there. -/
def Reg.Names (status epoch : Word) : Prop :=
  status &&& Reg.dagStatusValid ≠ 0 ∧ status &&& 0xffff = epoch &&& 0xffff

instance (status epoch : Word) : Decidable (Reg.Names status epoch) :=
  inferInstanceAs (Decidable (_ ∧ _))

theorem Reg.names_marked (epoch : Word) :
    Reg.Names (Reg.dagStatusValid ||| (epoch &&& 0xffff)) epoch := by
  have hdistrib : ∀ mask : Word, (Reg.dagStatusValid ||| (epoch &&& 0xffff)) &&& mask =
      (Reg.dagStatusValid &&& mask) ||| (epoch &&& (0xffff &&& mask)) := fun mask ↦ by
    rw [← UInt32.and_assoc, ← UInt32.toBitVec_inj]
    exact BitVec.and_or_distrib_right
  rw [Reg.Names, hdistrib, hdistrib]
  have hvalid : Reg.dagStatusValid &&& Reg.dagStatusValid = Reg.dagStatusValid := UInt32.and_self
  have hlow : (0xffff : Word) &&& Reg.dagStatusValid = 0 := by decide
  have hhigh : Reg.dagStatusValid &&& (0xffff : Word) = 0 := by decide
  rw [hvalid, hlow, hhigh, UInt32.and_self, UInt32.and_zero, UInt32.or_zero, UInt32.zero_or]
  exact ⟨by decide, rfl⟩

/-- A register that preparing the core writes. -/
def Reg.IsSetup (addr : Word) : Prop := addr ∈ Reg.setup ∨ addr = Reg.dagControl

theorem Reg.isSetup_of_clock {addr : Word} (h : addr ∈ Reg.clockGenerator) : Reg.IsSetup addr :=
  .inl (Reg.mem_setup h)

namespace Board

variable {ν : Type} [Quantity ν] {s : View ν} {A : Word → Prop} {α : Type}

/-! ## The parts of a change -/

theorem confined_stopCore : (stopCore : Routine ν _).Confined Reg.IsSetup := by
  refine (confined_read (by decide)).bind fun x ↦ ?_
  cases x with
  | ok flags =>
    refine (confined_forEach (fun value ↦ ?_) _).bind fun _ ↦ ?_
    · exact confined_writeSetup (by decide) (.inl (by decide)) _ _
    · exact confined_writeSetup (by decide) (.inl (by decide)) _ _
  | error fault =>
    exact (confined_note _).bind fun _ ↦ confined_writeSetup (by decide) (.inl (by decide)) _ _

/-- The item count and its reciprocal are there when the core is prepared. -/
theorem completes_prepareCore (ctx : EpochContext) (held : s.held) {Q : Unit → View ν → Prop}
    (hQ : ∀ t, s.Changes Reg.IsSetup t →
      t.register Reg.itemCount = (ctx.dagSize / Dag.itemBytes).toUInt32 →
      t.register Reg.itemReciprocal =
        (Dag.itemReciprocal (ctx.dagSize / Dag.itemBytes).toUInt32).toUInt32 → Q () t) :
    (prepareCore ctx).Completes Q s := by
  refine .bind ((confined_enter (A := Reg.IsSetup) _).completes held fun _ t ht ↦ ?_)
  refine .bind (completes_note _ (.bind ?_))
  refine (confined_setClock _).completes (ht.held.trans held) fun _ u hu ↦ ?_
  have hclock := ht.trans (hu.mono fun _ h ↦ Reg.isSetup_of_clock h)
  refine .bind (confined_stopCore.completes (hclock.held.trans held) fun _ v hv ↦ ?_)
  have hstopped := hclock.trans hv
  refine .bind (completes_tryWrite (by decide) (.bind (completes_tryWrite (by decide) ?_)))
  refine .bind (completes_tryWrite (by decide) (completes_tryWrite (by decide) (hQ _ ?_ ?_ ?_)))
  · have hpower := hstopped.put Reg.dagPower Reg.dagPowerOn (.inl (by decide)) (by decide)
    have hcontrol := hpower.put Reg.dagControl Reg.dagStop (.inr rfl) (by decide)
    have hitems := hcontrol.put Reg.itemCount (ctx.dagSize / Dag.itemBytes).toUInt32
      (.inl (by decide)) (by decide)
    exact hitems.put _ _ (.inl (by decide)) (by decide)
  · rw [View.register_put, if_neg (by decide), View.register_put_self]
    exact SimulatedBoard.finished_of_ne (by decide) (by decide)
  · rw [View.register_put_self]
    exact SimulatedBoard.finished_of_ne (by decide) (by decide)

theorem completes_holdsDataset (b : Board) (epoch : Word) {Q : Bool → View ν → Prop}
    (hQ : Q (Reg.Names (s.register Reg.dagStatus) epoch ∧ ¬b.settings.forceDag) s) :
    (b.holdsDataset epoch).Completes Q s := by
  refine .bind (completes_readOr (by decide) ?_)
  split
  · next hvalid =>
    refine .bind (completes_note _ ?_)
    split
    · next hsame =>
      refine .bind (completes_note _ (completes_done ?_))
      simpa [Reg.Names, hvalid, hsame] using hQ
    · next hother => exact completes_done (by simpa [Reg.Names, hother] using hQ)
  · next hcounts =>
    have hnone : ¬(Reg.Names (s.register Reg.dagStatus) epoch ∧ ¬b.settings.forceDag) := by
      rintro ⟨⟨hvalid, -⟩, hforce⟩
      exact hcounts ⟨hvalid, by simpa using hforce⟩
    rw [decide_eq_false hnone] at hQ
    exact completes_done hQ

theorem confined_restoreClock (target : ν) :
    (restoreClock target).Confined (· ∈ Reg.clockGenerator) := by
  rw [restoreClock]
  split
  · exact (confined_note _).bind fun _ ↦ (confined_setClock _).bind fun _ ↦ confined_done _
  · exact confined_done _

/-- The power of the generator is off at the end of a change, and its epoch is remembered. -/
theorem completes_finishEpoch (epoch : Word) (held : s.held) {Q : Unit → View ν → Prop}
    (hQ : ∀ t, t.register Reg.dagPower = Reg.dagPowerOff →
      (∀ addr, addr ≠ Reg.dagPower → addr ∉ Reg.clockGenerator →
        t.register addr = s.register addr) →
      t.marks = s.marks → t.memory.lastEpoch = some epoch → Q () t) :
    (finishEpoch epoch).Completes Q s := by
  rw [finishEpoch_eq]
  refine .bind (completes_tryWrite (by decide) (.bind (completes_memory ?_)))
  refine .bind ((confined_restoreClock _).completes held fun _ t ht ↦ ?_)
  refine .bind (completes_memory (.bind (completes_revise _ (.bind (completes_release ?_)))))
  refine .bind (completes_revise _ (completes_startTune _ (hQ _ ?_ (fun addr hpower hclock ↦ ?_)
    ht.marks rfl)))
  · refine (ht.register Reg.dagPower (by decide)).trans ?_
    rw [View.register_put_self]
    exact SimulatedBoard.finished_of_ne (by decide) (by decide)
  · refine (ht.register addr hclock).trans ?_
    rw [View.register_put, if_neg hpower.symm]

/-! ## The whole change -/

/-- How a change that goes through ends, and what there is to see then. -/
structure Changed (b : Board) (ctx : EpochContext) (status : Word) (marks : List Word)
    (outcome : EpochOutcome) (t : View ν) : Prop where
  /-- The status word decides whether the dataset is built. -/
  outcome_eq : outcome =
    if Reg.Names status ctx.epoch ∧ ¬b.settings.forceDag then .resident else .generated
  items : t.register Reg.itemCount = (ctx.dagSize / Dag.itemBytes).toUInt32
  reciprocal : t.register Reg.itemReciprocal =
    (Dag.itemReciprocal (ctx.dagSize / Dag.itemBytes).toUInt32).toUInt32
  power : t.register Reg.dagPower = Reg.dagPowerOff
  status : Reg.Names (t.register Reg.dagStatus) ctx.epoch
  lastEpoch : t.memory.lastEpoch = some ctx.epoch
  /-- A dataset that was built is divided among the mixers, and its epoch was written once. -/
  generated : outcome = .generated →
    (List.range (b.mixerRanges ctx).length).map (Reg.rangeOf t.register) = b.mixerRanges ctx ∧
      t.marks = marks ++ [Reg.dagStatusValid ||| (ctx.epoch &&& 0xffff)]

section

variable (b : Board) {ctx : EpochContext}
  (small : (ctx.dagSize / Dag.nodeBytes).toNat < UInt32.size)
  (supplied : b.settings.cacheStrategy = .upload → ctx.lightCache.isSome)
  {Q : Except BoardError EpochOutcome → View ν → Prop}
  (hQ : ∀ outcome t, Changed b ctx (s.register Reg.dagStatus) s.marks outcome t →
    Q (.ok outcome) t)

include small supplied hQ

theorem completes_changeEpoch (free : s.held = false) : (b.changeEpoch ctx).Completes Q s := by
  refine .bind (completes_acquire free (.bind ?_))
  refine completes_prepareCore ctx rfl fun t ht hitems hreciprocal ↦ ?_
  have hstatus : t.register Reg.dagStatus = s.register Reg.dagStatus :=
    ht.register Reg.dagStatus (by unfold Reg.IsSetup; decide)
  refine .bind (completes_holdsDataset b ctx.epoch ?_)
  rw [hstatus]
  by_cases hholds : Reg.Names (s.register Reg.dagStatus) ctx.epoch ∧ ¬b.settings.forceDag
  · rw [decide_eq_true hholds]
    refine .bind (completes_finishEpoch ctx.epoch ht.held fun u hpower hregister hmarks hlast ↦ ?_)
    refine completes_done
      (hQ .resident u ⟨(if_pos hholds).symm, ?_, ?_, hpower, ?_, hlast, nofun⟩)
    · rw [hregister _ (by decide) (by decide), hitems]
    · rw [hregister _ (by decide) (by decide), hreciprocal]
    · rw [hregister _ (by decide) (by decide), hstatus]
      exact hholds.1
  · rw [decide_eq_false hholds]
    refine .bind (completes_buildDataset b ht.held small supplied fun u hbuilt ↦ ?_)
    refine .bind (completes_finishEpoch ctx.epoch (hbuilt.held.trans ht.held)
      fun v hpower hregister hmarks hlast ↦ ?_)
    refine completes_done
      (hQ .generated v ⟨(if_neg hholds).symm, ?_, ?_, hpower, ?_, hlast, fun _ ↦ ⟨?_, ?_⟩⟩)
    · rw [hregister _ (by decide) (by decide), hbuilt.register _ (by unfold Reg.IsDataset; decide),
        hitems]
    · rw [hregister _ (by decide) (by decide), hbuilt.register _ (by unfold Reg.IsDataset; decide),
        hreciprocal]
    · rw [hregister _ (by decide) (by decide), hbuilt.status]
      exact Reg.names_marked ctx.epoch
    · have hranges := hbuilt.ranges
      rw [List.range_eq_range'] at hranges ⊢
      refine (Reg.ranges_congr (length_mixerRanges_le b ctx) fun addr haddr ↦ ?_).trans hranges
      refine hregister addr (Reg.ne_of_isRange haddr (by decide)) fun hclock ↦ ?_
      have hnone : Reg.clockGenerator.all fun addr ↦ ¬Reg.isRange addr := by decide
      exact of_decide_eq_true (List.all_eq_true.mp hnone addr hclock) haddr
    · rw [hmarks, hbuilt.marks, ht.marks]

theorem completes_trackedChange (free : s.held = false) : (b.trackedChange ctx).Completes Q s := by
  refine .bind (completes_revise _ (.bind ?_))
  refine completes_changeEpoch b small supplied (fun outcome t ht ↦ ?_) free
  refine .bind (completes_revise _ (.bind (completes_note _ (.bind (completes_revise _ ?_)))))
  exact completes_done (hQ outcome _ ⟨ht.1, ht.2, ht.3, ht.4, ht.5, ht.6, ht.7⟩)

theorem completes_prepareEpoch (free : s.held = false) (running : s.memory.halted = false)
    (other : s.memory.lastEpoch ≠ some ctx.epoch) : (b.prepareEpoch ctx).Completes Q s := by
  refine .bind (completes_memory ?_)
  rw [running, if_neg Bool.false_ne_true]
  refine .bind (.bind (completes_acquire free (.bind (completes_memory ?_))))
  refine .bind (completes_release (completes_done ?_))
  dsimp only
  rw [decide_eq_false other, if_neg Bool.false_ne_true]
  exact completes_trackedChange b small supplied hQ rfl

end

end Board

/-! ## The simulated board -/

/-- A board is ready to search in an epoch. -/
structure SimulatedBoard.IsReady (b : SimulatedBoard) (ctx : EpochContext) : Prop where
  /-- The core knows the number of items. -/
  items : (b.register Reg.itemCount).toNat = ctx.dagSize.toNat / 128
  /-- It has the reciprocal of that number. -/
  reciprocal : (b.register Reg.itemReciprocal).toNat =
    (1 <<< 60) / (ctx.dagSize.toNat / 128) / 16 % UInt32.size
  /-- The generator is powered down. -/
  power : b.register Reg.dagPower = 0
  /-- The status word names the epoch. -/
  status : Reg.Names (b.register Reg.dagStatus) ctx.epoch

theorem Dag.toNat_itemReciprocal (items : Word) :
    (Dag.itemReciprocal items).toUInt32.toNat = (1 <<< 60) / items.toNat / 16 % UInt32.size := by
  rw [UInt64.toNat_toUInt32, toNat_itemReciprocal_eq, Nat.div_right_comm]
  rfl

theorem Board.length_mixerRanges (b : Board) (ctx : EpochContext) :
    (b.mixerRanges ctx).length = max 1 (min b.settings.mixers.toNat 21) := by
  have hmax : Reg.maxMixers.toNat = 21 := rfl
  have hmin : (min b.settings.mixers Reg.maxMixers).toNat = min b.settings.mixers.toNat 21 := by
    change (if b.settings.mixers ≤ Reg.maxMixers then b.settings.mixers else _).toNat = _
    simp only [UInt32.le_iff_toNat_le]
    split <;> omega
  rw [mixerRanges, Dag.length_partition, hmin, Nat.max_comm]

variable {ν : Type} [Quantity ν]

/-- Somebody is alone with an intact board that nobody has locked. -/
structure World.IsCalm (w : World ν) (seat : Seat) : Prop where
  present : seat.board < w.sites.size
  unplanned : (w.site seat.board).link.plan = []
  intact : (w.site seat.board).link.board.Intact
  free : (w.site seat.board).lock = {}
  running : w.cancelled = false
  lonely : w.IsLonely

/-- What somebody sees of a site who does not have its lock. -/
def Site.view (x : Site ν) : View ν where
  register := x.link.board.register
  marks := x.link.board.writesTo Reg.dagStatus
  memory := x.memory
  held := false

theorem World.IsCalm.shows {w : World ν} {seat : Seat} (h : w.IsCalm seat) :
    w.Shows seat (w.site seat.board).view :=
  ⟨h.present, h.unplanned, ⟨h.intact, rfl, rfl⟩, rfl, h.free, h.running, h.lonely⟩

/-- **An epoch change ends where it should.** Somebody is alone with a board on which nothing was
made to fail, which did not halt and was last prepared for another epoch. Then a change of the epoch
comes to its end. It finds the dataset resident exactly if the status word names the epoch and the
dataset is not to be built by force. Either way the board is ready for the epoch afterwards; and if
the dataset was built, the registers of the mixers tile it, and the status word was written once. -/
theorem epoch_change_completes {w : World ν} {seat : Seat} (b : Board) (ctx : EpochContext)
    (calm : w.IsCalm seat) (running : (w.site seat.board).memory.halted = false)
    (other : (w.site seat.board).memory.lastEpoch ≠ some ctx.epoch)
    (small : ctx.dagSize.toNat / 64 < UInt32.size)
    (supplied : b.settings.cacheStrategy = .upload → ctx.lightCache.isSome) :
    ∃ w' outcome, (Play.alone w seat (.ready (b.prepareEpoch ctx))).Ends w' (.ok outcome) ∧
      (outcome = if Reg.Names ((w.site seat.board).link.board.register Reg.dagStatus) ctx.epoch ∧
        ¬b.settings.forceDag then .resident else .generated) ∧
      (w'.site seat.board).link.board.IsReady ctx ∧
      (w'.site seat.board).memory.lastEpoch = some ctx.epoch ∧
      (outcome = .generated →
        Dag.Tiles 0 ((List.range (max 1 (min b.settings.mixers.toNat 21))).map
          (Reg.rangeOf (w'.site seat.board).link.board.register)) (ctx.dagSize.toNat / 64) ∧
        (w'.site seat.board).link.board.writesTo Reg.dagStatus =
          (w.site seat.board).link.board.writesTo Reg.dagStatus ++
            [Reg.dagStatusValid ||| (ctx.epoch &&& 0xffff)]) := by
  have hnodes : (ctx.dagSize / Dag.nodeBytes).toNat = ctx.dagSize.toNat / 64 := UInt64.toNat_div ..
  have hcompletes : (b.prepareEpoch ctx).Completes (fun x t ↦ ∃ outcome, x = .ok outcome ∧
      Board.Changed b ctx _ _ outcome t) (w.site seat.board).view :=
    Board.completes_prepareEpoch b (hnodes ▸ small) supplied
      (fun outcome t ht ↦ ⟨outcome, rfl, ht⟩) rfl running other
  obtain ⟨w', x, t, hplays, hshows, outcome, rfl, hchanged⟩ := hcompletes seat w calm.shows
  have hregister := hshows.board.register
  refine ⟨w', outcome, Play.ends_of_plays hplays calm.lonely, hchanged.outcome_eq, ?_, ?_, ?_⟩
  · have hitems : (t.register Reg.itemCount).toNat = ctx.dagSize.toNat / 128 := by
      rw [hchanged.items, UInt64.toNat_toUInt32, UInt64.toNat_div]
      exact Nat.mod_eq_of_lt (show ctx.dagSize.toNat / 128 < UInt32.size by omega)
    constructor
    · rw [hregister, hitems]
    · rw [hregister, hchanged.reciprocal, Dag.toNat_itemReciprocal, ← hchanged.items, hitems]
    · rw [hregister, hchanged.power]
      rfl
    · rw [hregister]
      exact hchanged.status
  · rw [hshows.memory, hchanged.lastEpoch]
  · intro hgenerated
    obtain ⟨hranges, hmarks⟩ := hchanged.generated hgenerated
    rw [hregister, hshows.board.marks]
    refine ⟨?_, hmarks⟩
    rw [← Board.length_mixerRanges, hranges, ← hnodes]
    exact Dag.tiles_partition ..

/-! ### A healthy board -/

namespace Alone

/-- A healthy board by itself. -/
def healthyWorld : World Rat :=
  Session.world { board := .healthy, address := "" } (.listed [])

theorem intact_healthy : SimulatedBoard.healthy.Intact where
  readable _ _ := List.not_mem_nil
  unscripted _ _ := rfl
  steady addr haddr := by
    have hsteady :
        Reg.consulted.all fun addr ↦ SimulatedBoard.healthy.steps.get? addr = none := by decide
    exact of_decide_eq_true (List.all_eq_true.mp hsteady addr haddr)
  writable _ _ := List.not_mem_nil
  uploads _ := rfl
  moves := rfl
  finishing := rfl

theorem calm_healthyWorld : healthyWorld.IsCalm Session.seat :=
  ⟨by decide, rfl, intact_healthy, rfl, rfl, ⟨rfl, rfl⟩⟩

end Alone

/-- The guarantee for a healthy board that is prepared for the first time. -/
theorem healthy_generates : ∃ w' : World Rat,
    (Play.alone Alone.healthyWorld Session.seat
      (.ready (plainBoard.prepareEpoch plainEpoch))).Ends w' (.ok .generated) ∧
    (w'.site 0).link.board.IsReady plainEpoch ∧
    Dag.Tiles 0 [Reg.rangeOf (w'.site 0).link.board.register 0] 64 := by
  obtain ⟨w', outcome, hends, houtcome, hready, -, hgenerated⟩ :=
    epoch_change_completes plainBoard plainEpoch Alone.calm_healthyWorld (by rfl) (by nofun)
      (by decide) (by nofun)
  obtain rfl : outcome = .generated := by
    rw [houtcome]
    decide
  exact ⟨w', hends, hready, (hgenerated rfl).1⟩

end HashBoard
