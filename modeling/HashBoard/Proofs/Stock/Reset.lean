import HashBoard.Proofs.Board.Registers
import HashBoard.Proofs.Epoch.Asks
import HashBoard.Proofs.Routine.Transcript

/-!
# The clock on the way to the generator

An epoch change asks for the stock clock first. The clock generator is read before it is touched,
and nothing is done to it if that fails; the change goes on all the same. So by the time the core is
prepared the clock was reset, or neither this change nor anybody else will reset it, and the reads
of the clock generator tell which (`Settled`). From there to the end of the build nobody writes the
registers that could change that, and only there is the generator started.
-/

namespace HashBoard

variable {ν : Type}

/-- What resets the clock generator. -/
def clockResets : List (Request ν) :=
  [.call (.write 0x5 Reg.pllReconfig), .call (.write 0x1 Reg.pllReconfig),
    .call (.write Reg.clockResetValue Reg.clockReset)]

/-- The last accesses in a transcript reset the clock generator. -/
def JustReset (talk : List (Answered ν)) : Prop :=
  clockResets <:+ (accesses talk).map Answered.request

/-- The clock generator was read before anything else was accessed, and neither divider is zero. -/
def ReadsClock [Quantity ν] (talk : List (Answered ν)) : Prop :=
  ∃ vco clk, [⟨.call (.read Reg.pllVco), .ok vco⟩, ⟨.call (.read Reg.pllClk0), .ok clk⟩] <+:
    accesses talk ∧ (Pll.decode (ν := ν) vco clk).isSome

theorem ReadsClock.mono [Quantity ν] {talk talk' : List (Answered ν)} (h : ReadsClock talk)
    (htalk : talk <+: talk') : ReadsClock talk' := by
  obtain ⟨vco, clk, hreads, hsome⟩ := h
  exact ⟨vco, clk, hreads.trans (accesses_mono htalk), hsome⟩

namespace Stock

open Routine Board

/-- What starts the generator. -/
def start : Request ν := .call (.write Reg.dagStart Reg.dagControl)

/-- A request that leaves the divisor of the clock alone and resets nothing. -/
def Steady (r : Request ν) : Prop := ¬r.Writes Reg.pllClk0 ∧ ¬r.Writes Reg.pllReconfig

/-- The clock was reset, and its divisor was left alone since. -/
def Restored (talk : List (Answered ν)) : Prop :=
  ∃ earlier later, talk = earlier ++ later ∧ JustReset earlier ∧
    ∀ said ∈ later, ¬said.request.Writes Reg.pllClk0

/-- The clock was never reset. -/
def Unreset (talk : List (Answered ν)) : Prop := ∀ said ∈ talk, ¬said.request.Writes Reg.pllReconfig

variable {α : Type} {s t : List (Answered ν)} {r : Request ν} {p : Routine ν α}

theorem Restored.snoc (h : Restored s) (hr : Steady r) (x : Reply r) :
    Restored (s ++ [⟨r, x⟩]) := by
  obtain ⟨earlier, later, rfl, hreset, hlater⟩ := h
  refine ⟨earlier, later ++ [⟨r, x⟩], List.append_assoc .., hreset, ?_⟩
  exact List.forall_mem_append.mpr ⟨hlater, List.forall_mem_singleton.mpr hr.1⟩

theorem Unreset.snoc (h : Unreset s) (hr : Steady r) (x : Reply r) : Unreset (s ++ [⟨r, x⟩]) :=
  List.forall_mem_append.mpr ⟨h, List.forall_mem_singleton.mpr hr.2⟩

theorem unreset_of_accesses (h : accesses s = []) : Unreset s :=
  unwritten_of_accesses (congrArg _ h) (List.forall_mem_nil _)

/-- A routine that accesses nothing. -/
theorem ensures_apart (h : p.Only (·.isAccess = false)) (hs : accesses s = []) :
    p.Ensures (transcript ν) (fun _ t ↦ accesses t = []) s := by
  refine h.keeps hs fun t r x ht hr ↦ ?_
  rw [accesses_append, ht, accesses, List.filter_cons_of_neg (by simp [hr])]
  rfl

/-- A clock that was reset was not left alone. -/
theorem Unreset.not_restored (h : Unreset s) : ¬Restored s := by
  rintro ⟨earlier, later, rfl, hreset, -⟩
  have hmem : .call (.write 0x5 Reg.pllReconfig) ∈ (accesses earlier).map Answered.request :=
    hreset.subset (.head _)
  obtain ⟨said, hsaid, hrequest⟩ := List.mem_map.mp hmem
  refine h said (List.mem_append_left _ (List.mem_filter.mp hsaid).1) ?_
  rw [hrequest]
  exact rfl

/-! ## Requests by kind -/

theorem steady_of_isQuiet (h : r.isQuiet) : Steady r :=
  ⟨r.not_writes_of_isQuiet h _, r.not_writes_of_isQuiet h _⟩

theorem steady_write {value addr : Word} (h : addr ≠ Reg.pllClk0) (h' : addr ≠ Reg.pllReconfig) :
    Steady (.call (.write value addr) : Request ν) := ⟨h, h'⟩

theorem roomToBuild_steady : RoomToBuild (Steady : Request ν → Prop) where
  quiet _ := steady_of_isQuiet
  phases _ := ⟨id, id⟩
  overdue _ := ⟨id, id⟩
  enters _ := ⟨id, id⟩
  looks := ⟨id, id⟩
  acquire := ⟨id, id⟩
  release := ⟨id, id⟩
  status := ⟨id, id⟩
  writes value addr h := by
    refine steady_write ?_ ?_
    · rintro rfl
      exact absurd h (by decide)
    · rintro rfl
      exact absurd h (by decide)
  seed seed := by
    -- the words of the seed lie far from the clock generator
    rw [Steady, Request.Writes, Request.Writes, Hash.reversed, List.length_reverse, seed.length_eq]
    decide
  uploads _ _ := ⟨id, id⟩
  moves _ _ _ := ⟨id, id⟩

theorem roomToDrive_ne_start : RoomToDrive (· ≠ (start : Request ν)) where
  quiet r h := by
    rintro rfl
    cases h
  preparing := nofun
  enter := nofun
  changing := nofun
  clocks := nofun
  clock := nofun
  books := nofun
  writes value addr h := by
    rintro ⟨⟩
    exact absurd h (by decide)
  stop := by
    rintro ⟨⟩

/-! ## Reading the clock generator -/

variable [Quantity ν]

/-- The clock generator could not be read: an access failed, or a divider is zero. -/
def FailsToRead (talk : List (Answered ν)) : Prop :=
  (∃ fault, [⟨.call (.read Reg.pllVco), .error fault⟩] <+: accesses talk) ∨
    (∃ vco fault,
      [⟨.call (.read Reg.pllVco), .ok vco⟩, ⟨.call (.read Reg.pllClk0), .error fault⟩] <+:
        accesses talk) ∨
    ∃ vco clk, [⟨.call (.read Reg.pllVco), .ok vco⟩, ⟨.call (.read Reg.pllClk0), .ok clk⟩] <+:
      accesses talk ∧ Pll.decode (ν := ν) vco clk = none

theorem FailsToRead.mono (h : FailsToRead s) (hst : s <+: t) : FailsToRead t := by
  rcases h with ⟨fault, h⟩ | ⟨vco, fault, h⟩ | ⟨vco, clk, h, hnone⟩
  · exact .inl ⟨fault, h.trans (accesses_mono hst)⟩
  · exact .inr (.inl ⟨vco, fault, h.trans (accesses_mono hst)⟩)
  · exact .inr (.inr ⟨vco, clk, h.trans (accesses_mono hst), hnone⟩)

theorem FailsToRead.not_readsClock (h : FailsToRead s) : ¬ReadsClock s := by
  rintro ⟨vco, clk, ⟨more, hmore⟩, hsome⟩
  rcases h with ⟨fault, rest, h⟩ | ⟨vco', fault, rest, h⟩ | ⟨vco', clk', ⟨rest, h⟩, hnone⟩
  · rw [← hmore] at h
    cases h
  · rw [← hmore] at h
    cases h
  · rw [← hmore] at h
    cases h
    rw [hnone] at hsome
    cases hsome

/-- A reading of the clock generator, or what is in its way. -/
theorem ensures_readPll (hs : accesses s = []) :
    (readPll : Routine ν _).Ensures (transcript ν)
      (fun pll t ↦ Unreset t ∧ if pll.isSome then ReadsClock t else FailsToRead t) s := by
  have unreset : (readPll : Routine ν _).Ensures (transcript ν) (fun _ ↦ Unreset) s :=
    (only_readPll fun _ ↦ steady_of_isQuiet).keeps (unreset_of_accesses hs)
      fun _ _ x ht hr ↦ ht.snoc hr x
  refine unreset.and ?_
  refine (accesses_read Reg.pllVco s).seq fun x t ht ↦ ?_
  have first : [⟨.call (.read Reg.pllVco), x⟩] <+: accesses t := by
    rw [ht, hs]
    exact List.prefix_rfl
  rcases x with fault | vco
  · exact (ensures_grows _ t).seq fun _ u hu ↦ .inl ⟨fault, first.trans (accesses_mono hu)⟩
  · refine (accesses_read Reg.pllClk0 t).seq fun y u hu ↦ ?_
    have second : [⟨.call (.read Reg.pllVco), .ok vco⟩, ⟨.call (.read Reg.pllClk0), y⟩] <+:
        accesses u := by
      rw [hu, ht, hs]
      exact List.prefix_rfl
    rcases y with fault | clk
    · refine (ensures_grows _ u).seq fun _ v hv ↦ ?_
      exact .inr (.inl ⟨vco, fault, second.trans (accesses_mono hv)⟩)
    · cases hdecode : Pll.decode (ν := ν) vco clk with
      | none =>
        simp only [hdecode]
        refine (ensures_grows _ u).seq fun _ v hv ↦ ?_
        exact .inr (.inr ⟨vco, clk, second.trans (accesses_mono hv), hdecode⟩)
      | some pll =>
        simp only [hdecode]
        exact ⟨vco, clk, second, by rw [hdecode]; rfl⟩

/-! ## The stock clock -/

/-- Whether the clock was reset is settled, and the reads of the clock generator tell. -/
def Settled (talk : List (Answered ν)) : Prop :=
  ReadsClock talk ∧ Restored talk ∨ FailsToRead talk ∧ Unreset talk

theorem Settled.restored_iff (h : Settled s) : Restored s ↔ ReadsClock s := by
  rcases h with ⟨hreads, hrestored⟩ | ⟨hfails, hunreset⟩
  · exact iff_of_true hrestored hreads
  · exact iff_of_false hunreset.not_restored hfails.not_readsClock

theorem Settled.snoc (h : Settled s) (hr : Steady r) (x : Reply r) : Settled (s ++ [⟨r, x⟩]) := by
  rcases h with ⟨hreads, hrestored⟩ | ⟨hfails, hunreset⟩
  · exact .inl ⟨hreads.mono (List.prefix_append _ _), hrestored.snoc hr x⟩
  · exact .inr ⟨hfails.mono (List.prefix_append _ _), hunreset.snoc hr x⟩

theorem ensures_settled (h : p.Only Steady) (hs : Settled s) :
    p.Ensures (transcript ν) (fun _ ↦ Settled) s := h.keeps hs fun _ _ x ht hr ↦ ht.snoc hr x

omit [Quantity ν] in
theorem ensures_resetClock (s : List (Answered ν)) :
    resetClock.Ensures (transcript ν) (fun _ ↦ JustReset) s := by
  refine (accesses_note _ s).seq fun _ t ht ↦ ?_
  refine (accesses_tryWrite _ _ _ t).seq fun _ u hu ↦ ?_
  refine (accesses_tryWrite _ _ _ u).seq fun _ v hv ↦ ?_
  refine (ensures_request (.sleep 10_000) v).seq ?_
  rintro - _ rfl
  refine (accesses_tryWrite _ _ _ _).mono fun _ w hw ↦ ?_
  have hsleep : Accesses v (v ++ [(⟨.sleep 10_000, ()⟩ : Answered ν)]) [] :=
    ⟨[], accesses_append v _, rfl⟩
  obtain ⟨more, hmore, hmap⟩ := (((ht.trans hu).trans hv).trans hsleep).trans hw
  rw [JustReset, hmore, List.map_append, hmap]
  exact List.suffix_append _ _

/-- The clock is reset if the clock generator can be read, and not otherwise. -/
theorem ensures_setClock_stock (hs : accesses s = []) :
    (setClock .stock : Routine ν _).Ensures (transcript ν) (fun _ ↦ Settled) s := by
  have quiet : ∀ r : Request ν, r.isQuiet → Steady r := fun _ ↦ steady_of_isQuiet
  have clocked (f : ClockState ν → ClockState ν) : Steady (.revise fun m ↦ m.withClock f) :=
    ⟨id, id⟩
  have restores (addr value : Word) (h : addr ≠ Reg.pllClk0) (h' : addr ≠ Reg.pllReconfig) :
      (restoreParameter addr value : Routine ν _).Only Steady :=
    only_tryWrite quiet (steady_write h h')
  refine (ensures_readPll hs).seq ?_
  rintro (- | pll) t ⟨hunreset, hreads⟩
  · exact (ensures_settled (only_note quiet rfl) (.inr ⟨hreads, hunreset⟩)).seq fun _ u hu ↦ hu
  · -- the parameters are saved
    refine Ensures.after fun items t₁ h₁ ↦ Ensures.after fun reciprocal t₂ h₂ ↦ ?_
    refine Ensures.after fun power t₃ h₃ ↦ Ensures.after fun _ t₄ h₄ ↦ ?_
    have hreads : ReadsClock t₄ := hreads.mono (((h₁.trans h₂).trans h₃).trans h₄)
    refine Ensures.bind (((ensures_resetClock t₄).and (ensures_grows _ t₄)).seq fun _ u hu ↦ ?_)
    have hsettled : Settled u :=
      .inl ⟨hreads.mono hu.2, u, [], (List.append_nil u).symm, hu.1, List.forall_mem_nil _⟩
    refine (ensures_settled (only_settleClock quiet) hsettled).seq fun _ u hu ↦ ?_
    refine (ensures_settled (only_readStock quiet clocked pll.core) hu).mono fun clock u hu ↦ ?_
    -- and restored
    refine (ensures_settled (restores _ _ (by decide) (by decide)) hu).seq fun _ u hu ↦ ?_
    refine (ensures_settled (restores _ _ (by decide) (by decide)) hu).seq fun _ u hu ↦ ?_
    refine (ensures_settled (restores _ _ (by decide) (by decide)) hu).seq fun _ u hu ↦ ?_
    exact (ensures_settled (only_request (clocked _)) hu).seq fun _ v hv ↦ hv

theorem ensures_prepareCore (ctx : EpochContext) (hs : accesses s = []) :
    (prepareCore ctx : Routine ν _).Ensures (transcript ν) (fun _ ↦ Settled) s := by
  have quiet : ∀ r : Request ν, r.isQuiet → Steady r := fun _ ↦ steady_of_isQuiet
  have writes (value addr : Word) (what : String) (h : addr ≠ Reg.pllClk0)
      (h' : addr ≠ Reg.pllReconfig) : (tryWrite value addr what : Routine ν _).Only Steady :=
    only_tryWrite quiet (steady_write h h')
  have stops : (stopCore : Routine ν _).Only Steady :=
    only_stopCore quiet (fun _ ↦ steady_write (by decide) (by decide))
      (steady_write (by decide) (by decide))
  have enters : (enter .preparing : Routine ν _).Only (·.isAccess = false) := only_enter rfl rfl
  refine (ensures_apart enters hs).seq fun _ t ht ↦ ?_
  refine (ensures_apart (only_request rfl) ht).seq fun _ t ht ↦ ?_
  refine (ensures_setClock_stock ht).seq fun _ t ht ↦ ?_
  refine (ensures_settled stops ht).seq fun _ t ht ↦ ?_
  refine (ensures_settled (writes _ _ _ (by decide) (by decide)) ht).seq fun _ t ht ↦ ?_
  refine (ensures_settled (writes _ _ _ (by decide) (by decide)) ht).seq fun _ t ht ↦ ?_
  refine (ensures_settled (writes _ _ _ (by decide) (by decide)) ht).seq fun _ t ht ↦ ?_
  exact ensures_settled (writes _ _ _ (by decide) (by decide)) ht

/-! ## The start of the generator -/

/-- The generator may be started only where the clock is settled. -/
def MayAsk (talk : List (Answered ν)) (r : Request ν) : Prop := r = start → Settled talk

omit [Quantity ν] in
theorem only_ne_start [Quantity ν] (h : p.Only (· ≠ start)) :
    p.Only fun r ↦ ∀ talk, MayAsk talk r := h.mono fun _ hr _ hstart ↦ absurd hstart hr

variable (b : Board) (ctx : EpochContext)

/-- The build keeps to the clock that it found. -/
theorem ensures_buildDataset (hs : Settled s) :
    (b.buildDataset ctx).Ensures (guarded (MayAsk (ν := ν))) (fun _ ↦ Settled) s := by
  refine (only_buildDataset roomToBuild_steady b ctx).ensures hs (fun _ _ ↦ trivial)
    (fun _ _ ht _ _ ↦ ht) ?_
  rintro t r x _ ht hr ⟨_, rfl, rfl⟩
  exact ht.snoc hr x

theorem ensures_changeEpoch (hs : accesses s = []) :
    (b.changeEpoch ctx).Ensures (guarded (MayAsk (ν := ν))) (fun _ _ ↦ True) s := by
  have drive := roomToDrive_ne_start (ν := ν)
  have conclude : RoomToConclude (· ≠ (start : Request ν)) :=
    { toRoomToDrive := drive
      release := nofun
      epoch := nofun
      startTune := nofun }
  have finishes (t : List (Answered ν)) :
      (finishEpoch ctx.epoch).Ensures (guarded (MayAsk (ν := ν))) (fun _ _ ↦ True) t :=
    ((ensures_grows _ t).guarded (only_ne_start (only_finishEpoch conclude _))).mono
      fun _ _ _ ↦ trivial
  have takes := ensures_request (.acquire : Request ν) s
  refine (takes.guarded (only_ne_start (only_request nofun))).seq ?_
  rintro - _ rfl
  have hprepare := ensures_prepareCore (s := s ++ [(⟨.acquire, ()⟩ : Answered ν)]) ctx
    ((accesses_append s _).trans (by rw [hs]; rfl))
  refine (hprepare.guarded (only_ne_start (only_prepareCore drive ctx))).seq fun _ t ht ↦ ?_
  have looks : (b.holdsDataset ctx.epoch : Routine ν _).Ensures (transcript ν)
      (fun _ ↦ Settled) t :=
    ensures_settled (only_holdsDataset (fun _ ↦ steady_of_isQuiet) b ctx.epoch ⟨id, id⟩) ht
  refine (looks.guarded (only_ne_start (only_holdsDataset drive.quiet b ctx.epoch nofun))).seq ?_
  rintro (- | -) t ht
  · refine (ensures_buildDataset b ctx ht).seq ?_
    rintro (e | -) t -
    · refine Ensures.bind (((ensures_request .release t).guarded ?_).mono fun _ _ _ ↦ trivial)
      exact only_ne_start (only_request nofun)
    · exact (finishes t).seq fun _ _ _ ↦ trivial
  · exact (finishes t).seq fun _ _ _ ↦ trivial

/-- Wherever an epoch change starts the generator, the clock is settled. -/
theorem ensures_prepareEpoch :
    (b.prepareEpoch ctx).Ensures (guarded (MayAsk (ν := ν))) (fun _ _ ↦ True) [] := by
  have free {β : Type} {p : Routine ν β} (h : p.Only (· ≠ start)) (t : List (Answered ν)) :
      p.Ensures (guarded MayAsk) (fun _ _ ↦ True) t :=
    ((ensures_grows p t).guarded (only_ne_start h)).mono fun _ _ _ ↦ trivial
  have apart {β : Type} {p : Routine ν β} (h : p.Only (·.isAccess = false))
      {t : List (Answered ν)} (ht : accesses t = []) :
      p.Ensures (guarded MayAsk) (fun _ u ↦ accesses u = []) t := by
    refine (ensures_apart h ht).guarded (only_ne_start (h.mono ?_))
    rintro r hr rfl
    cases hr
  rw [prepareEpoch_eq]
  refine ⟨trivial, nofun, ?_⟩
  rintro m t ⟨-, rfl, rfl⟩
  have ht : accesses [(⟨.memory, m⟩ : Answered ν)] = [] := rfl
  dsimp only
  split
  · have refuses : (.ask (.note (.haltedEpoch ctx.epoch)) fun _ ↦ .done (.error .halted) :
        Routine ν (Except BoardError EpochOutcome)).Only (· ≠ start) := ⟨nofun, fun _ ↦ trivial⟩
    exact free refuses _
  · have looks : (isLastEpoch ctx.epoch : Routine ν _).Only (·.isAccess = false) :=
      ⟨rfl, fun _ ↦ ⟨rfl, fun _ ↦ ⟨rfl, fun _ ↦ trivial⟩⟩⟩
    refine (apart looks ht).seq fun last t ht ↦ ?_
    split
    · exact trivial
    · refine (apart (only_request rfl) ht).seq fun _ t ht ↦ ?_
      refine (ensures_changeEpoch b ctx ht).seq fun x t _ ↦ free ?_ t
      refine (only_request nofun).bind fun _ ↦ ?_
      cases x with
      | ok outcome =>
        exact (only_request nofun).bind fun _ ↦ Only.bind (only_request nofun) fun _ ↦ trivial
      | error e =>
        exact (only_request nofun).bind fun _ ↦ (only_enter nofun nofun).bind fun _ ↦ trivial

end Stock

end HashBoard
