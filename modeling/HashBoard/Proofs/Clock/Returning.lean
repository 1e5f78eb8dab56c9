import HashBoard.Proofs.Clock.Account

/-!
# Where an epoch change returns to the clock

An epoch change resets the clock when it prepares the core, which leaves the divisor and the clock
to return to alone, and returns to that clock when it concludes, which cannot fail any more. So a
change that was made makes one return, and one that failed or was skipped makes none.
-/

namespace HashBoard.Returning

open Routine Board

variable {ν α : Type} {s t : Account ν}

/-! ## The two words -/

/-- The board is faithful about a register that holds what is said. -/
def Holds (addr : Word) (w : Account ν → Word) : Prop :=
  ∀ s (r : Request ν) x t, (watch ν).acts s r x t → Answered.Faithful addr (w s) ⟨r, x⟩

theorem holds_vco : Holds Reg.pllVco (Account.vcoWord : Account ν → Word) :=
  fun _ _ _ _ h ↦ h.2.1

theorem holds_clk : Holds Reg.pllClk0 (fun s : Account ν ↦ s.setting.clkWord) :=
  fun _ _ _ _ h ↦ h.2.2.1

theorem ensures_note (event : Event ν) (s : Account ν) :
    (note event).Ensures (watch ν) (fun _ t ↦ t = s) s :=
  ensures_spares (only_request (spares_note event)) s

theorem ensures_read {addr : Word} {w : Account ν → Word} (holds : Holds addr w)
    (s : Account ν) :
    (read addr).Ensures (watch ν) (fun x t ↦ x = .ok (w s) ∧ t = s) s := by
  refine (ensures_request (.call (.read addr)) s).seq fun x t ht ↦ ?_
  have hfaithful := holds s _ x t ht
  obtain ⟨-, -, -, m, hm, rfl⟩ := ht
  have hsame := after_of_spares (r := .call (.read addr)) ⟨id, id, fun _ ↦ ⟨rfl, rfl⟩⟩ x hm
  cases x with
  | error fault => exact absurd rfl hfaithful
  | ok value =>
    have hvalue : value = w s := hfaithful rfl
    refine (ensures_note _ _).seq fun _ u hu ↦ ?_
    exact ⟨congrArg _ hvalue, hu.trans hsame⟩

/-- A write to one of the two words succeeds. What it does is left to be said. -/
theorem ensures_tryWrite {value addr : Word} {what : String} {w : Account ν → Word}
    (holds : Holds addr w) (s : Account ν) :
    (tryWrite value addr what : Routine ν _).Ensures (watch ν)
      (fun _ t ↦ ∃ m, s.Recalls m.clock ∧ t = s.after m ⟨.call (.write value addr), .ok ()⟩) s := by
  refine Ensures.seq (R := fun x t ↦ (watch ν).acts s (.call (.write value addr)) x t) ?_ ?_
  · refine (ensures_note _ s).seq ?_
    rintro - _ rfl
    exact ensures_request _ _
  · intro x t ht
    have hfaithful := holds s _ x t ht
    cases x with
    | error fault => exact absurd rfl hfaithful
    | ok => exact ht.2.2.2

theorem ensures_tryWrite_vco (value : Word) (what : String) (s : Account ν) :
    (tryWrite value Reg.pllVco what : Routine ν _).Ensures (watch ν)
      (fun _ t ↦ t = { s with vcoWord := value }) s := by
  refine (ensures_tryWrite holds_vco s).mono ?_
  rintro - _ ⟨m, ⟨hbaseline, htarget⟩, rfl⟩
  have hother : Reg.pllVco ≠ Reg.pllClk0 := by decide
  simp [Account.after, Answered.leaves, remembered, hother, hbaseline, htarget]

theorem ensures_tryWrite_clk (value : Word) (what : String) (s : Account ν) :
    (tryWrite value Reg.pllClk0 what : Routine ν _).Ensures (watch ν)
      (fun _ t ↦ t = { s with setting := { s.setting with clkWord := value } }) s := by
  refine (ensures_tryWrite holds_clk s).mono ?_
  rintro - _ ⟨m, ⟨hbaseline, htarget⟩, rfl⟩
  have hother : Reg.pllClk0 ≠ Reg.pllVco := by decide
  simp [Account.after, Answered.leaves, remembered, hother, hbaseline, htarget]

theorem ensures_reviseClock (f : ClockState ν → ClockState ν) (s : Account ν) :
    (reviseClock f).Ensures (watch ν)
      (fun _ t ↦ ∃ c, s.Recalls c ∧ t = { s with
        baseline := (f c).baseline
        setting := { s.setting with target := (f c).target } }) s := by
  refine (ensures_request (.revise fun m ↦ m.withClock f) s).mono ?_
  rintro - _ ⟨-, -, -, m, hm, rfl⟩
  exact ⟨m.clock, hm, rfl⟩

/-! ## Clock changes -/

section Clock

variable [Quantity ν]

theorem ensures_readPll (s : Account ν) :
    (readPll : Routine ν _).Ensures (watch ν)
      (fun pll t ↦ pll = Pll.decode s.vcoWord s.setting.clkWord ∧ t = s) s := by
  refine (ensures_read holds_vco s).seq ?_
  rintro _ _ ⟨rfl, rfl⟩
  refine (ensures_read holds_clk _).seq ?_
  rintro _ t ⟨rfl, rfl⟩
  dsimp only
  cases hdecode : Pll.decode (ν := ν) t.vcoWord t.setting.clkWord with
  | none =>
    refine (ensures_note _ t).seq ?_
    rintro - _ rfl
    exact ⟨rfl, rfl⟩
  | some pll => exact ⟨rfl, rfl⟩

omit [Quantity ν] in
/-- What a clock change saves and restores has nothing to do with the clock generator. -/
theorem ensures_changingClock {change : Routine ν ν} {R : Account ν → Prop}
    (h : change.Ensures (watch ν) (fun _ ↦ R) s) :
    (changingClock change).Ensures (watch ν) (fun _ ↦ R) s := by
  have quiet : ∀ r : Request ν, r.isQuiet → Spares r := fun _ ↦ spares_of_isQuiet
  have saves {addr : Word} (h : addr ∉ Reg.telling) (s : Account ν) :
      (saveParameter addr : Routine ν _).Ensures (watch ν) (fun _ t ↦ t = s) s :=
    ensures_spares (only_readOr quiet (quiet _ (by simpa [Request.isQuiet] using h))) s
  have writes {addr : Word} (h : addr ≠ Reg.pllVco) (h' : addr ≠ Reg.pllClk0) (value : Word)
      (what : String) (s : Account ν) :
      (tryWrite value addr what : Routine ν _).Ensures (watch ν) (fun _ t ↦ t = s) s :=
    ensures_spares (only_tryWrite quiet (spares_write h h')) s
  refine (saves (by decide) s).seq ?_
  rintro items _ rfl
  refine (saves (by decide) _).seq ?_
  rintro reciprocal _ rfl
  refine (saves (by decide) _).seq ?_
  rintro power _ rfl
  refine (writes (by decide) (by decide) _ _ _).seq ?_
  rintro - _ rfl
  refine h.seq fun clock t ht ↦ ?_
  refine (writes (by decide) (by decide) _ _ t).seq ?_
  rintro - _ rfl
  refine (writes (by decide) (by decide) _ _ _).seq ?_
  rintro - _ rfl
  refine (writes (by decide) (by decide) _ _ _).seq ?_
  rintro - u rfl
  have current : (reviseClock fun c : ClockState ν ↦ { c with current := clock }).Only Spares :=
    only_request (spares_revise fun _ ↦ ⟨rfl, rfl⟩)
  refine (ensures_spares current u).seq ?_
  rintro - _ rfl
  exact ht

/-- A reset reads the stock clock and leaves the rest alone. -/
theorem ensures_setClock_stock (s : Account ν) :
    (setClock .stock : Routine ν _).Ensures (watch ν)
      (fun _ t ↦ t = { s with baseline :=
        ((Pll.decode s.vcoWord s.setting.clkWord).map (·.core)).getD s.baseline }) s := by
  have quiet : ∀ r : Request ν, r.isQuiet → Spares r := fun _ ↦ spares_of_isQuiet
  have resets : (resetClock : Routine ν _).Only Spares := by
    refine only_resetClock quiet fun value addr h ↦ spares_write ?_ ?_
    · rintro rfl
      exact absurd h (by decide)
    · rintro rfl
      exact absurd h (by decide)
  refine (ensures_readPll s).seq ?_
  rintro pll _ ⟨hpll, rfl⟩
  cases pll with
  | none =>
    refine (ensures_note _ _).seq ?_
    rintro - u rfl
    rw [← hpll]
    rfl
  | some pll =>
    refine ensures_changingClock ?_
    refine (ensures_spares resets _).seq ?_
    rintro - _ rfl
    refine (ensures_spares (only_settleClock quiet) _).seq ?_
    rintro - _ rfl
    refine (ensures_readPll _).seq ?_
    rintro pll' u ⟨hpll', rfl⟩
    rw [← hpll] at hpll' ⊢
    subst hpll'
    refine (ensures_reviseClock _ u).seq ?_
    rintro - _ ⟨c, ⟨-, htarget⟩, rfl⟩
    exact congrArg (fun target ↦ { u with
      baseline := pll.core
      setting := { u.setting with target } }) htarget

/-- The divisor for a clock is programmed if there is one. -/
theorem ensures_programDivisor (pll : PllReading ν) (mhz : ν) (s : Account ν)
    (hvco : pll.vcoWord = s.vcoWord) :
    (programDivisor pll mhz).Ensures (watch ν)
      (fun _ t ↦ t = { s with setting := s.setting.programmed pll.vco mhz }) s := by
  have writes {addr : Word} (h : addr ≠ Reg.pllVco) (h' : addr ≠ Reg.pllClk0) (value : Word)
      (what : String) (s : Account ν) :
      (tryWrite value addr what : Routine ν _).Ensures (watch ν) (fun _ t ↦ t = s) s :=
    ensures_spares (only_tryWrite (fun _ ↦ spares_of_isQuiet) (spares_write h h')) s
  rw [programDivisor, Pll.Setting.programmed]
  cases Pll.divisorFor pll.vco mhz with
  | error e =>
    cases e with
    | tooFast | tooSlow =>
      refine (ensures_note _ s).seq ?_
      rintro - _ rfl
      rfl
  | ok divisor =>
    refine (ensures_tryWrite_vco _ _ s).seq ?_
    rintro - _ rfl
    refine (ensures_tryWrite_clk _ _ _).seq ?_
    rintro - _ rfl
    refine (writes (by decide) (by decide) _ _ _).seq ?_
    rintro - _ rfl
    refine (writes (by decide) (by decide) _ _ _).seq ?_
    rintro - _ rfl
    refine (ensures_reviseClock _ _).seq ?_
    rintro - _ ⟨c, ⟨hbaseline, -⟩, rfl⟩
    refine (ensures_note _ _).seq ?_
    rintro - _ rfl
    simp only [hbaseline, hvco]
    rfl

/-- A return to a clock, as far as the clock generator can be read. -/
theorem ensures_setClock_target (mhz : ν) (s : Account ν) :
    (setClock (.target mhz)).Ensures (watch ν)
      (fun _ t ↦ t = { s with
        setting := match Pll.decode (ν := ν) s.vcoWord s.setting.clkWord with
          | some pll => s.setting.programmed pll.vco mhz
          | none => s.setting }) s := by
  refine (ensures_readPll s).seq ?_
  rintro pll _ ⟨hpll, rfl⟩
  rw [← hpll]
  cases pll with
  | none =>
    refine (ensures_note _ _).seq ?_
    rintro - _ rfl
    rfl
  | some pll =>
    refine ensures_changingClock ?_
    refine (ensures_programDivisor pll mhz _ (Pll.vcoWord_of_decode hpll.symm)).seq ?_
    rintro clock _ rfl
    refine (ensures_spares (only_settleClock fun _ ↦ spares_of_isQuiet) _).seq ?_
    rintro - _ rfl
    rfl

omit [Quantity ν] in
theorem ensures_memory (s : Account ν) :
    (memory : Routine ν _).Ensures (watch ν) (fun m t ↦ s.Recalls m.clock ∧ t = s) s := by
  refine (ensures_request .memory s).mono ?_
  rintro m _ ⟨hm, -, -, m', hm', rfl⟩
  exact ⟨hm, after_of_spares (spares_of_isQuiet (r := .memory) rfl) m hm'⟩

/-- The account after a return to the clock. -/
def Account.returned (s : Account ν) : Account ν :=
  { s with setting := s.setting.returned s.vcoWord }

theorem ensures_restoreClock (s : Account ν) :
    (restoreClock s.setting.target).Ensures (watch ν) (fun _ t ↦ t = s.returned) s := by
  rw [restoreClock, Account.returned, Pll.Setting.returned]
  split
  · rename_i running
    refine (ensures_note _ s).seq ?_
    rintro - _ rfl
    refine (ensures_setClock_target _ _).seq ?_
    rintro - _ rfl
    rw [if_neg (by simpa using running)]
    rfl
  · rename_i still
    rw [if_pos (by simpa using still)]
    exact rfl

end Clock

/-! ## The whole change -/

section Change

variable [Quantity ν]

/-- A change concludes with a return to the clock. -/
theorem ensures_finishEpoch (epoch : Word) (s : Account ν) :
    (finishEpoch epoch : Routine ν _).Ensures (watch ν) (fun _ t ↦ t = s.returned) s := by
  have quiet : ∀ r : Request ν, r.isQuiet → Spares r := fun _ ↦ spares_of_isQuiet
  have powers : (tryWrite Reg.dagPowerOff Reg.dagPower "generator power" : Routine ν _).Only
      Spares := only_tryWrite quiet (spares_write (by decide) (by decide))
  have concludes : (concludeEpoch epoch : Routine ν _).Only Spares := by
    have remembers : Spares (.revise fun m : Memory ν ↦ { m with lastEpoch := some epoch }) :=
      spares_revise fun _ ↦ ⟨rfl, rfl⟩
    refine (only_request (quiet .memory rfl)).bind fun m ↦ ?_
    refine (only_request remembers).bind fun _ ↦ ?_
    refine (only_request spares_release).bind fun _ ↦ ?_
    refine (only_request (spares_reviseStatus _)).bind fun _ ↦ ?_
    exact only_request ⟨id, id, fun _ ↦ ⟨rfl, rfl⟩⟩
  rw [finishEpoch_eq]
  refine (ensures_spares powers s).seq ?_
  rintro - _ rfl
  refine (ensures_memory _).seq ?_
  rintro m t ⟨hm, rfl⟩
  rw [hm.2]
  refine (ensures_restoreClock t).seq ?_
  rintro - _ rfl
  exact ensures_spares concludes _

/-- Preparing the core leaves the clock alone, but for the stock clock that is remembered. -/
theorem ensures_prepareCore (ctx : EpochContext) (s : Account ν) :
    (prepareCore ctx : Routine ν _).Ensures (watch ν)
      (fun _ t ↦ ∃ baseline, t = { s with baseline }) s := by
  have quiet : ∀ r : Request ν, r.isQuiet → Spares r := fun _ ↦ spares_of_isQuiet
  have rest : (do
      stopCore
      tryWrite Reg.dagPowerOn Reg.dagPower "generator power"
      tryWrite Reg.dagStop Reg.dagControl "generator stop"
      let items := (ctx.dagSize / Dag.itemBytes).toUInt32
      tryWrite items Reg.itemCount "item count"
      tryWrite (Dag.itemReciprocal items).toUInt32 Reg.itemReciprocal "item reciprocal" :
      Routine ν Unit).Only Spares := by
    have writes {addr : Word} (h : addr ≠ Reg.pllVco) (h' : addr ≠ Reg.pllClk0) (value : Word)
        (what : String) : (tryWrite value addr what : Routine ν _).Only Spares :=
      only_tryWrite quiet (spares_write h h')
    refine (only_stopCore quiet (fun _ ↦ spares_write (by decide) (by decide))
      (spares_write (by decide) (by decide))).bind fun _ ↦ ?_
    refine (writes (by decide) (by decide) _ _).bind fun _ ↦ ?_
    refine (writes (by decide) (by decide) _ _).bind fun _ ↦ ?_
    refine (writes (by decide) (by decide) _ _).bind fun _ ↦ ?_
    exact writes (by decide) (by decide) _ _
  refine (ensures_spares (only_enter (spares_reviseStatus _) (spares_note _)) s).seq ?_
  rintro - _ rfl
  refine (ensures_note _ _).seq ?_
  rintro - t rfl
  refine (ensures_setClock_stock t).seq ?_
  rintro - u rfl
  exact (ensures_spares rest _).mono fun _ v hv ↦ ⟨_, hv⟩

/-- Whether an answer says that a change was made. -/
def isMade : Except BoardError EpochOutcome → Bool
  | .ok .skipped | .error _ => false
  | .ok _ => true

/-- The account where an epoch change has ended. -/
def Ended (s : Account ν) (x : Except BoardError EpochOutcome) (t : Account ν) : Prop :=
  ∃ baseline, t = { (if isMade x then s.returned else s) with baseline }

omit [Quantity ν] in
theorem Ended.ensures [Quantity ν] {x : Except BoardError EpochOutcome} {p : Routine ν α}
    (h : Ended s x t) (hp : p.Only Spares) :
    p.Ensures (watch ν) (fun _ ↦ Ended s x) t :=
  (ensures_spares hp t).mono fun _ _ hu ↦ hu ▸ h

theorem ensures_changeEpoch (b : Board) (ctx : EpochContext) (s : Account ν) :
    (b.changeEpoch ctx : Routine ν _).Ensures (watch ν) (Ended s) s := by
  have quiet : ∀ r : Request ν, r.isQuiet → Spares r := fun _ ↦ spares_of_isQuiet
  have finishes {outcome : EpochOutcome} (made : isMade (.ok outcome)) (baseline : ν) :
      (do
        finishEpoch ctx.epoch
        pure (.ok outcome) : Routine ν (Except BoardError EpochOutcome)).Ensures (watch ν) (Ended s)
          { s with baseline } := by
    refine (ensures_finishEpoch ctx.epoch _).seq ?_
    rintro - _ rfl
    refine ⟨baseline, ?_⟩
    rw [if_pos made]
    rfl
  refine (ensures_spares (only_request spares_acquire) s).seq ?_
  rintro - _ rfl
  refine (ensures_prepareCore ctx _).seq ?_
  rintro - _ ⟨baseline, rfl⟩
  have holds : (b.holdsDataset ctx.epoch : Routine ν _).Only Spares :=
    only_holdsDataset quiet b ctx.epoch ⟨id, id, fun _ ↦ ⟨rfl, rfl⟩⟩
  refine (ensures_spares holds _).seq ?_
  rintro resident _ rfl
  cases resident with
  | true => exact finishes rfl baseline
  | false =>
    refine (ensures_spares (only_buildDataset roomToBuild_spares b ctx) _).seq ?_
    rintro (e | -) _ rfl
    · refine (ensures_spares (only_request spares_release) _).seq ?_
      rintro - _ rfl
      exact ⟨baseline, rfl⟩
    · exact finishes rfl baseline

/-- **A change makes one return to the clock, or none.** -/
theorem ensures_prepareEpoch (b : Board) (ctx : EpochContext) (s : Account ν) :
    (b.prepareEpoch ctx : Routine ν _).Ensures (watch ν) (Ended s) s := by
  have quiet : ∀ r : Request ν, r.isQuiet → Spares r := fun _ ↦ spares_of_isQuiet
  have busy (f : Memory ν → Bool) : Spares (.revise fun m ↦ { m with busy := f m }) :=
    spares_revise fun _ ↦ ⟨rfl, rfl⟩
  refine (ensures_spares (only_request (quiet .memory rfl)) s).seq ?_
  rintro m _ rfl
  split
  · refine (ensures_note _ _).seq ?_
    rintro - t rfl
    exact ⟨t.baseline, rfl⟩
  · have looks : (isLastEpoch ctx.epoch : Routine ν _).Only Spares := by
      refine (only_request spares_acquire).bind fun _ ↦ ?_
      refine (only_request (quiet .memory rfl)).bind fun m ↦ ?_
      exact (only_request spares_release).bind fun _ ↦ trivial
    refine (ensures_spares looks _).seq ?_
    rintro last s rfl
    split
    · exact ⟨s.baseline, rfl⟩
    · refine (ensures_spares (only_request (busy fun _ ↦ true)) s).seq ?_
      rintro - s rfl
      refine (ensures_changeEpoch b ctx s).seq fun x t ht ↦ ?_
      refine (ht.ensures (only_request (busy fun m ↦ m.halted))).seq fun _ t ht ↦ ?_
      cases x with
      | ok outcome =>
        refine (ht.ensures (only_note quiet rfl)).seq fun _ t ht ↦ ?_
        exact (ht.ensures (only_request (spares_reviseStatus _))).seq fun _ t ht ↦ ht
      | error e =>
        refine (ht.ensures (only_note quiet rfl)).seq fun _ t ht ↦ ?_
        refine (ht.ensures (only_enter (spares_reviseStatus _) (spares_note _))).seq
          fun _ t ht ↦ ht

end Change

end HashBoard.Returning
