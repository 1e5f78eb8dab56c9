import HashBoard.Proofs.Alone.Ranges

/-!
# Building the dataset when nothing goes wrong

The board finishes what it is told to do at once, so that every wait for it ends with the first
look. Each part of the change is confined to its own registers: those of the light cache, of the
mixers, of the generator. What is left in the end are the ranges of the mixers, and one write to the
status word.
-/

namespace HashBoard

/-- A register of the light cache generator. -/
def Reg.IsCache (addr : Word) : Prop :=
  addr = Reg.cacheControl ∨ addr = Reg.dagParentNodes ∨ Reg.isSeed addr

/-- A register that building the dataset writes. -/
def Reg.IsDataset (addr : Word) : Prop := Reg.isGenerator addr ∨ Reg.isSeed addr

theorem Reg.isDataset_of_isCache {addr : Word} (h : Reg.IsCache addr) : Reg.IsDataset addr := by
  rcases h with rfl | rfl | hseed
  · exact .inl (by decide)
  · exact .inl (by decide)
  · exact .inr hseed

namespace Board

open Routine

variable {ν : Type} [Quantity ν] {s : View ν} {A : Word → Prop} {α : Type}

theorem confined_enter (phase : EpochPhase) : (enter phase : Routine ν _).Confined A :=
  (confined_note _).bind fun _ ↦ confined_revise _

/-! ## Waiting for the board -/

omit [Quantity ν] in
theorem await_of_ready (b : Board) {a : Awaited ν} {watch : Nat → Routine ν Unit} (n : Nat)
    {status : Word} (h : status &&& a.ready ≠ 0) :
    b.await a watch n status = .done (.ok status) := by
  cases n with
  | zero => rw [await, if_pos h]; rfl
  | succ n => rw [await, if_pos h]; rfl

/-- A wait for something that is there already or is found with the first look. -/
theorem completes_await (b : Board) {a : Awaited ν} {watch : Nat → Routine ν Unit}
    {Q : Except BoardError Word → View ν → Prop} {n : Nat} {status : Word} (held : s.held)
    (haddr : a.addr ∈ Reg.consulted) (hwatch : ∀ n, (watch n).Confined A)
    (ready : s.register a.addr &&& a.ready ≠ 0)
    (hQ : ∀ status t, s.Changes A t → Q (.ok status) t) :
    (b.await a watch (n + 1) status).Completes Q s := by
  rw [await]
  split
  · exact completes_done (hQ status s (.refl s))
  · refine .bind (completes_isCancelled ?_)
    have hsuspend := confined_suspend (A := fun _ ↦ False) (ν := ν) a.pause
    refine .bind (hsuspend.completes held fun _ t ht ↦ ?_)
    refine .bind (completes_read haddr ?_)
    rw [ht.register a.addr id]
    refine .bind ((hwatch n).completes (ht.held.trans held) fun _ u hu ↦ ?_)
    rw [await_of_ready b n ready]
    exact completes_done (hQ _ u ((ht.mono fun _ h ↦ h.elim).trans hu))

/-! ## The light cache -/

theorem completes_deriveCache (b : Board) (ctx : EpochContext) (parents : Word) (held : s.held)
    {Q : Except BoardError Unit → View ν → Prop}
    (hQ : ∀ t, s.Changes Reg.IsCache t → Q (.ok ()) t) :
    (b.deriveCache ctx parents).Completes Q s := by
  have hcontrol : Reg.IsCache Reg.cacheControl := .inl rfl
  have hparents : Reg.IsCache Reg.dagParentNodes := .inr (.inl rfl)
  refine .bind (completes_note _ (.bind (completes_now fun started ↦ ?_)))
  refine .bind (completes_tryWrite (by decide) (.bind (completes_tryWrite (by decide) ?_)))
  refine .bind (completes_writeHash ?_ fun t ht ↦ ?_)
  · rw [Hash.reversed, List.length_reverse, ctx.seed.length_eq]
  refine .bind (completes_tryWrite (by decide) ?_)
  have hreset := (View.Changes.refl s).put Reg.cacheControl Reg.cacheReset hcontrol (by decide)
  have hprogrammed := hreset.put Reg.dagParentNodes parents hparents (by decide)
  have hseed := hprogrammed.trans (ht.mono fun addr h ↦ .inr (.inr h))
  have hstarted := hseed.put Reg.cacheControl Reg.cacheStart hcontrol (by decide)
  have haddr : (cacheAwaited : Awaited ν).addr ∈ Reg.consulted :=
    show Reg.cacheControl ∈ Reg.consulted by decide
  refine .bind (completes_await b (A := Reg.IsCache) ?_ haddr (fun _ ↦ confined_done ()) ?_
    fun status u hu ↦ ?_)
  · exact hstarted.held.trans held
  · change (t.put Reg.cacheControl Reg.cacheStart).register Reg.cacheControl &&& Reg.cacheDone ≠ 0
    rw [View.register_put_self]
    decide
  · refine .bind (completes_now fun finished ↦ .bind (completes_note _ (completes_done ?_)))
    exact hQ u (hstarted.trans hu)

theorem completes_uploadPiece (piece : ByteArray) (offset : Nat)
    {Q : Except BoardError Unit → View ν → Prop} (hQ : Q (.ok ()) s) :
    (uploadPiece piece offset : Routine ν _).Completes Q s :=
  .bind (completes_upload piece _ (completes_done hQ))

theorem completes_uploadPieces (cache : ByteArray) (n i : Nat)
    {Q : Except BoardError Unit → View ν → Prop} (hQ : Q (.ok ()) s) :
    (uploadPieces cache n i : Routine ν _).Completes Q s := by
  induction n generalizing i with
  | zero => exact completes_done hQ
  | succ n ih =>
    refine .bind (completes_isCancelled (.bind (completes_uploadPiece _ _ ?_)))
    dsimp only
    split
    · exact .bind (completes_note _ (ih (i + 1)))
    · exact ih (i + 1)

theorem completes_uploadCache {ctx : EpochContext} (supplied : ctx.lightCache.isSome)
    {Q : Except BoardError Unit → View ν → Prop} (hQ : Q (.ok ()) s) :
    (uploadCache ctx : Routine ν _).Completes Q s := by
  obtain ⟨cache, hcache⟩ := Option.isSome_iff_exists.mp supplied
  rw [uploadCache, hcache]
  refine .bind (completes_note _ (.bind (completes_now fun started ↦ ?_)))
  refine .bind (completes_uploadPieces cache _ _ ?_)
  exact .bind (completes_now fun finished ↦ .bind (completes_note _ (completes_done hQ)))

/-- Either way the light cache is there afterwards, if one came with the epoch that is to be
uploaded. -/
theorem completes_provideCache (b : Board) {ctx : EpochContext} (parents : Word) (held : s.held)
    (supplied : b.settings.cacheStrategy = .upload → ctx.lightCache.isSome)
    {Q : Except BoardError Unit → View ν → Prop}
    (hQ : ∀ t, s.Changes Reg.IsCache t → Q (.ok ()) t) :
    (b.provideCache ctx parents).Completes Q s := by
  rw [provideCache]
  cases hstrategy : b.settings.cacheStrategy with
  | onChip =>
    refine .bind ((confined_enter (A := Reg.IsCache) _).completes held fun _ t ht ↦ ?_)
    exact completes_deriveCache b ctx parents (ht.held.trans held) fun u hu ↦ hQ u (ht.trans hu)
  | upload =>
    refine .bind ((confined_enter (A := Reg.IsCache) _).completes held fun _ t ht ↦ ?_)
    exact completes_uploadCache (supplied hstrategy) (hQ t ht)

/-! ## The dataset -/

theorem completes_divideItems (b : Board) {ctx : EpochContext} (parents : Word) (held : s.held)
    (small : (ctx.dagSize / Dag.nodeBytes).toNat < UInt32.size) {Q : Unit → View ν → Prop}
    (hQ : ∀ t, s.Changes (fun addr ↦ Reg.isRange addr) t →
      (List.range' 0 (b.mixerRanges ctx).length).map (Reg.rangeOf t.register) = b.mixerRanges ctx →
        Q () t) : (b.divideItems ctx parents).Completes Q s := by
  have enters := confined_enter (ν := ν) (A := fun addr ↦ Reg.isRange addr) .itemsPartitioned
  refine .bind (enters.completes held fun _ t ht ↦ ?_)
  refine .bind (completes_note _ (.bind (completes_tryWrite (by decide) ?_)))
  have hput := ht.put Reg.dagParentNodes parents (by decide) (by decide)
  have htiles : Dag.Tiles 0 (b.mixerRanges ctx) (ctx.dagSize / Dag.nodeBytes).toNat :=
    Dag.tiles_partition _ _
  have hroom : 0 + (b.mixerRanges ctx).length ≤ Reg.maxMixers.toNat := by
    rw [Nat.zero_add]
    exact length_mixerRanges_le b ctx
  refine (completes_programRanges hroom fun range hrange ↦ ?_).mono fun _ u ⟨hu, hranges⟩ ↦ ?_
  · obtain ⟨hstart, hstop⟩ := htiles.le_of_mem range hrange
    exact ⟨Nat.lt_of_le_of_lt hstart small, Nat.lt_of_le_of_lt hstop small⟩
  · exact hQ u (hput.trans (hu.mono fun addr h ↦ h.1)) hranges

/-- The generator is finished as soon as it is started, whether it is waited for or not. -/
theorem completes_generate (b : Board) (ctx : EpochContext) (held : s.held)
    {Q : Except BoardError Unit → View ν → Prop}
    (hQ : ∀ t, s.Changes (· = Reg.dagControl) t → Q (.ok ()) t) :
    (b.generate ctx).Completes Q s := by
  refine .bind ((confined_enter (A := (· = Reg.dagControl)) _).completes held fun _ t ht ↦ ?_)
  refine .bind (completes_note _ (.bind (completes_now fun started ↦ ?_)))
  refine .bind (completes_tryWrite (by decide) ?_)
  have hput := ht.put Reg.dagControl Reg.dagStart rfl (by decide)
  refine .bind (.bind (completes_read (by decide) (completes_done ?_)))
  have hends : ∀ status, Completes (ν := ν) (do
      let finished ← now
      note (.generatorFinished status ctx.dagSize (finished - started))
      pure (.ok ())) Q (t.put Reg.dagControl Reg.dagStart) := fun status ↦
    .bind (completes_now fun finished ↦ .bind (completes_note _ (completes_done (hQ _ hput))))
  refine .bind ?_
  rw [awaitDag]
  split
  · exact .bind (completes_note _ (completes_done (hends _)))
  · have hready : (t.put Reg.dagControl Reg.dagStart).register Reg.dagControl &&&
        (dagAwaited : Awaited ν).ready ≠ 0 := by
      rw [View.register_put_self]
      change SimulatedBoard.finished Reg.dagStart Reg.dagControl &&& Reg.dagDone ≠ 0
      decide
    rw [await_of_ready b _ hready]
    exact completes_done (hends _)

theorem completes_spreadPieces (n i : Nat) {Q : Except BoardError Bool → View ν → Prop}
    (hQ : Q (.ok true) s) : (spreadPieces n i : Routine ν _).Completes Q s := by
  induction n generalizing i with
  | zero => exact completes_done hQ
  | succ n ih => exact .bind (completes_isCancelled (.bind (completes_move _ _ _ (ih (i + 1)))))

theorem completes_spread (held : s.held) {Q : Except BoardError Unit → View ν → Prop}
    (hQ : ∀ t, s.Changes A t → Q (.ok ()) t) : (spread : Routine ν _).Completes Q s := by
  refine .bind ((confined_enter (A := A) _).completes held fun _ t ht ↦ ?_)
  refine .bind (completes_note _ (.bind (completes_now fun started ↦ ?_)))
  refine .bind (completes_spreadPieces _ _ (.bind (completes_move _ _ _ ?_)))
  exact .bind (completes_now fun finished ↦ .bind (completes_note _ (completes_done (hQ t ht))))

/-- What building the dataset leaves behind. -/
structure Built (b : Board) (ctx : EpochContext) (s t : View ν) : Prop where
  /-- Registers that have nothing to do with the dataset are left alone. -/
  register : ∀ addr, ¬Reg.IsDataset addr → t.register addr = s.register addr
  /-- The mixers have their ranges. -/
  ranges : (List.range (b.mixerRanges ctx).length).map (Reg.rangeOf t.register) = b.mixerRanges ctx
  /-- The status word names the epoch. -/
  status : t.register Reg.dagStatus = Reg.dagStatusValid ||| (ctx.epoch &&& 0xffff)
  /-- It was written once. -/
  marks : t.marks = s.marks ++ [Reg.dagStatusValid ||| (ctx.epoch &&& 0xffff)]
  held : t.held = s.held

theorem completes_buildDataset (b : Board) {ctx : EpochContext} (held : s.held)
    (small : (ctx.dagSize / Dag.nodeBytes).toNat < UInt32.size)
    (supplied : b.settings.cacheStrategy = .upload → ctx.lightCache.isSome)
    {Q : Except BoardError Unit → View ν → Prop} (hQ : ∀ t, Built b ctx s t → Q (.ok ()) t) :
    (b.buildDataset ctx).Completes Q s := by
  refine .bind (completes_tryWrite (by decide) (.bind (completes_tryWrite (by decide) ?_)))
  have hreset := (View.Changes.refl s).put (A := Reg.IsDataset) Reg.dagPower Reg.dagPowerReset
    (.inl (by decide)) (by decide)
  have hpower := hreset.put Reg.dagPower Reg.dagPowerOn (.inl (by decide)) (by decide)
  refine .bind (completes_provideCache b _ (hpower.held.trans held) supplied fun t ht ↦ ?_)
  have hcache := hpower.trans (ht.mono fun _ ↦ Reg.isDataset_of_isCache)
  refine .bind (completes_divideItems b _ (hcache.held.trans held) small fun u hu hranges ↦ ?_)
  have hdivided := hcache.trans (hu.mono fun _ h ↦ .inl (Reg.isGenerator_of_isRange h))
  refine .bind (completes_generate b ctx (hdivided.held.trans held) fun v hv ↦ ?_)
  refine .bind (completes_spread (A := (· = Reg.dagControl))
    ((hv.held.trans hdivided.held).trans held) fun x hx ↦ ?_)
  refine .bind (completes_tryWrite (by decide) (.bind (completes_note _ ?_)))
  refine completes_done (hQ _ ?_)
  have hgenerated := hv.trans hx
  have hall := hdivided.trans (hgenerated.mono fun _ h ↦ .inl (h ▸ by decide))
  refine ⟨fun addr haddr ↦ ?_, ?_, View.register_put_self .., ?_, hall.held⟩
  · have hne : Reg.dagStatus ≠ addr := by
      rintro rfl
      exact haddr (.inl (by decide))
    rw [View.register_put, if_neg hne, hall.register addr haddr]
  · rw [List.range_eq_range']
    refine (Reg.ranges_congr (length_mixerRanges_le b ctx) fun addr haddr ↦ ?_).trans hranges
    rw [View.register_put, if_neg (Reg.ne_of_isRange haddr (by decide)).symm]
    exact hgenerated.register addr (Reg.ne_of_isRange haddr (by decide))
  · rw [View.put]
    exact congrArg (· ++ _) hall.marks

end Board

end HashBoard
