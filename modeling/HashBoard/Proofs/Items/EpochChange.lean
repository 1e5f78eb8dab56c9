import HashBoard.Proofs.Items.Account

/-!
# Where an epoch change programs the item count

An epoch change programs the two registers when it prepares the core, right after the event that
begins it, and nothing after that loses them. The only other writes to them are those of a clock
change, which puts back what it read: at the beginning, before they are programmed, and at the end,
where they hold what was programmed.
-/

namespace HashBoard.Items

open Routine Board

variable {ν : Type} {s t : Account ν}

/-! ## What keeps the registers -/

theorem keeps_generator (value addr : Word) (h : Reg.isGenerator addr) :
    Keeps (.call (.write value addr) : Request ν) := by
  refine keeps_write ?_ ?_
  · rintro rfl
    exact absurd h (by decide)
  · rintro rfl
    exact absurd h (by decide)

theorem keeps_clockGenerator (value : Word) (addr : Word) (h : addr ∈ Reg.clockGenerator) :
    Keeps (.call (.write value addr) : Request ν) := by
  refine keeps_write ?_ ?_
  · rintro rfl
    exact absurd h (by decide)
  · rintro rfl
    exact absurd h (by decide)

theorem keeps_clock {event : Event ν} (h : event.isClock) : Keeps (.note event) := by
  refine keeps_note ?_
  rintro epoch rfl
  cases h

theorem roomToBuild_keeps : RoomToBuild (Keeps : Request ν → Prop) where
  quiet _ := keeps_of_isQuiet
  phases _ := keeps_note nofun
  overdue _ := keeps_note nofun
  enters _ := keeps_reviseStatus _
  looks := ⟨⟨rfl, fun _ ↦ ⟨rfl, rfl⟩⟩, fun _ ↦ rfl⟩
  acquire := ⟨⟨rfl, fun _ ↦ ⟨rfl, rfl⟩⟩, fun _ ↦ rfl⟩
  release := ⟨⟨rfl, fun _ ↦ ⟨rfl, rfl⟩⟩, fun _ ↦ rfl⟩
  status := ⟨⟨rfl, fun _ ↦ ⟨rfl, rfl⟩⟩, fun _ ↦ rfl⟩
  writes := keeps_generator
  seed seed := by
    have hlen : seed.reversed.length = 32 := by
      rw [Hash.reversed, List.length_reverse, seed.length_eq]
    exact keeps_writeHash hlen (by decide) (by decide)
  uploads _ _ := ⟨⟨rfl, fun _ ↦ ⟨rfl, rfl⟩⟩, fun _ ↦ rfl⟩
  moves _ _ _ := ⟨⟨rfl, fun _ ↦ ⟨rfl, rfl⟩⟩, fun _ ↦ rfl⟩

theorem roomToSearch_keeps {work : Work} : RoomToSearch (Keeps : Request ν → Prop) work where
  quiet _ := keeps_of_isQuiet
  programmed _ _ _ := keeps_note nofun
  stall := ⟨⟨rfl, fun _ ↦ ⟨rfl, rfl⟩⟩, fun _ ↦ rfl⟩
  slots _ _ := ⟨⟨rfl, fun _ ↦ ⟨rfl, rfl⟩⟩, fun _ ↦ rfl⟩
  checks _ _ := ⟨⟨rfl, fun _ ↦ ⟨rfl, rfl⟩⟩, fun _ ↦ rfl⟩
  interrupts _ _ := ⟨⟨rfl, fun _ ↦ ⟨rfl, rfl⟩⟩, fun _ ↦ rfl⟩
  looks := roomToBuild_keeps.looks
  tunes _ := ⟨⟨rfl, fun _ ↦ ⟨rfl, rfl⟩⟩, fun _ ↦ rfl⟩
  averages f h := ⟨spares_revise f, fun m ↦ (h m).lastEpoch⟩
  books _ := keeps_books
  searching _ := keeps_reviseStatus _
  halt := ⟨spares_revise _, fun _ ↦ rfl⟩
  acquire := roomToBuild_keeps.acquire
  release := roomToBuild_keeps.release
  writes value addr h := by
    refine keeps_write ?_ ?_
    · rintro rfl
      exact absurd h (by decide)
    · rintro rfl
      exact absurd h (by decide)
  header := keeps_writeHash work.header.length_eq (by decide) (by decide)
  target hash := keeps_writeHash hash.length_eq (by decide) (by decide)
  submits _ _ := ⟨⟨rfl, fun _ ↦ ⟨rfl, rfl⟩⟩, fun _ ↦ rfl⟩

/-! ## Reading and writing the registers -/

/-- The board is faithful about a register. -/
def Honest (addr : Word) (w : Account ν → Word) : Prop :=
  (∀ s t, s.Alike t → w t = w s) ∧
    ∀ s (r : Request ν) x t, (watch ν).moves s r x t → Answered.Faithful addr (w s) ⟨r, x⟩

theorem honest_count : Honest Reg.itemCount (Account.count : Account ν → Word) := by
  refine ⟨fun s t h ↦ h.count, fun s r x t hm ↦ ?_⟩
  obtain ⟨u, hd, -, hfaithful, -⟩ := hm
  rw [← hd.1.count]
  exact hfaithful

theorem honest_reciprocal : Honest Reg.itemReciprocal (Account.reciprocal : Account ν → Word) := by
  refine ⟨fun s t h ↦ h.reciprocal, fun s r x t hm ↦ ?_⟩
  obtain ⟨u, hd, -, -, hfaithful, -⟩ := hm
  rw [← hd.1.reciprocal]
  exact hfaithful

theorem ensures_quiet {α : Type} {p : Routine ν α} (h : p.Only fun r ↦ r.isQuiet)
    (s : Account ν) : p.Ensures (watch ν) (fun _ t ↦ s.Alike t) s :=
  ensures_alike (h.mono fun _ hr ↦ spares_of_isQuiet hr) s

/-- A parameter that is saved is what the register holds. -/
theorem ensures_saveParameter {addr : Word} {w : Account ν → Word} (honest : Honest addr w)
    (haddr : addr ∉ Reg.telling) (s : Account ν) :
    (saveParameter addr).Ensures (watch ν) (fun v t ↦ v = w s ∧ s.Alike t) s := by
  have quiet : (Request.call (.read addr) : Request ν).isQuiet := by
    simpa [Request.isQuiet] using haddr
  have look : (Routine.read addr).Ensures (watch ν) (fun x t ↦ x = .ok (w s) ∧ s.Alike t) s := by
    refine ⟨trivial, trivial, fun x t hm ↦ ?_⟩
    have halike : s.Alike t := alike_of_spares (spares_of_isQuiet quiet) hm
    have hfaithful := honest.2 s _ x t hm
    cases x with
    | error fault => exact absurd rfl hfaithful
    | ok value =>
      have hvalue : value = w s := hfaithful rfl
      refine (ensures_quiet (only_note (fun _ h ↦ h) rfl) t).seq fun _ u hu ↦ ?_
      exact ⟨by rw [hvalue], halike.trans hu⟩
  refine look.seq fun x t ht ↦ ?_
  rw [ht.1]
  exact ⟨rfl, ht.2⟩

/-- A write to a register succeeds. What it does is left to be said. -/
theorem ensures_tryWrite {value addr : Word} {what : String} {w : Account ν → Word}
    (honest : Honest addr w) {R : Account ν → Prop}
    (written : ∀ t u, s.Alike t → (watch ν).moves t (.call (.write value addr)) (.ok ()) u → R u) :
    (tryWrite value addr what : Routine ν _).Ensures (watch ν) (fun _ ↦ R) s := by
  have attempt : (Routine.write value addr : Routine ν _).Ensures (watch ν)
      (fun x t ↦ x = .ok () ∧ R t) s := by
    refine (ensures_quiet (only_note (fun _ h ↦ h) rfl) s).seq fun _ t ht ↦ ?_
    refine ⟨trivial, trivial, fun x u hm ↦ ?_⟩
    have hfaithful := honest.2 t _ x u hm
    cases x with
    | error fault => exact absurd rfl hfaithful
    | ok => exact ⟨rfl, written t u ht hm⟩
  refine attempt.seq fun x t ht ↦ ?_
  rw [ht.1]
  exact ht.2

theorem ensures_tryWrite_count (value : Word) (what : String) (s : Account ν) :
    (tryWrite value Reg.itemCount what : Routine ν _).Ensures (watch ν)
      (fun _ t ↦ t.count = value ∧ t.last = s.last) s := by
  refine ensures_tryWrite honest_count fun t u ht hm ↦ ?_
  obtain ⟨v, hd, -, -, -, hcount, -, -, hlast⟩ := hm
  exact ⟨by simpa [Answered.leaves] using hcount, (hlast.trans hd.1.last).trans ht.last⟩

theorem ensures_tryWrite_reciprocal (value : Word) (what : String) (s : Account ν) :
    (tryWrite value Reg.itemReciprocal what : Routine ν _).Ensures (watch ν)
      (fun _ t ↦ t.count = s.count ∧ t.reciprocal = value ∧ t.last = s.last) s := by
  refine ensures_tryWrite honest_reciprocal fun t u ht hm ↦ ?_
  obtain ⟨v, hd, -, -, -, hcount, hrecip, -, hlast⟩ := hm
  have hother : Reg.itemReciprocal ≠ Reg.itemCount := by decide
  have hkept : u.count = v.count := by simpa [Answered.leaves, hother] using hcount
  exact ⟨(hkept.trans hd.1.count).trans ht.count, by simpa [Answered.leaves] using hrecip,
    (hlast.trans hd.1.last).trans ht.last⟩

/-! ## Clock changes -/

section Clock

variable [Quantity ν]

omit [Quantity ν] in
/-- A clock change puts the two registers back to what they were. -/
theorem ensures_changingClock {change : Routine ν ν} (h : change.Only Keeps) (s : Account ν) :
    (changingClock change).Ensures (watch ν) (fun _ t ↦ s.Alike t) s := by
  have quiet : ∀ r : Request ν, r.isQuiet → Spares r := fun _ ↦ spares_of_isQuiet
  have power (value : Word) : Spares (.call (.write value Reg.dagPower) : Request ν) :=
    (keeps_generator value Reg.dagPower rfl).1
  refine (ensures_saveParameter honest_count (by decide) s).seq fun items t ht ↦ ?_
  obtain ⟨hitems, hst⟩ := ht
  refine (ensures_saveParameter honest_reciprocal (by decide) t).seq fun reciprocal u hu ↦ ?_
  have hrecip : reciprocal = s.reciprocal := hu.1.trans hst.reciprocal
  have hsu : s.Alike u := hst.trans hu.2
  refine (ensures_alike (only_readOr quiet (quiet _ rfl)) u).seq fun power' v hv ↦ ?_
  have hsv : s.Alike v := hsu.trans hv
  refine (ensures_alike (only_tryWrite quiet (power _)) v).seq fun _ t ht ↦ ?_
  have hst : s.Alike t := hsv.trans ht
  refine (ensures_alike (h.mono fun _ hr ↦ hr.1) t).seq fun clock u hu ↦ ?_
  have hsu : s.Alike u := hst.trans hu
  -- whatever the change did to the two registers, what was saved is written to them now
  refine (ensures_tryWrite_count items _ u).seq fun _ v hv ↦ ?_
  refine (ensures_tryWrite_reciprocal reciprocal _ v).seq fun _ t ht ↦ ?_
  have hback : s.Alike t :=
    ⟨(ht.1.trans hv.1).trans hitems, ht.2.1.trans hrecip, (ht.2.2.trans hv.2).trans hsu.last⟩
  refine (ensures_alike (only_tryWrite quiet (power _)) t).seq fun _ u hu ↦ ?_
  have book : (reviseClock fun c : ClockState ν ↦ { c with current := clock }).Only Spares :=
    only_request (spares_revise _)
  exact (ensures_alike book u).seq fun _ v hv ↦ (hback.trans hu).trans hv

theorem ensures_setClock_target (mhz : ν) (s : Account ν) :
    (setClock (.target mhz)).Ensures (watch ν) (fun _ t ↦ s.Alike t) s := by
  have quiet : ∀ r : Request ν, r.isQuiet → Keeps r := fun _ ↦ keeps_of_isQuiet
  have sparing : ∀ r : Request ν, r.isQuiet → Spares r := fun _ ↦ spares_of_isQuiet
  refine (ensures_alike (only_readPll sparing) s).seq fun pll t ht ↦ ?_
  cases pll with
  | none => exact (ensures_alike (only_note sparing rfl) t).seq fun _ u hu ↦ ht.trans hu
  | some pll =>
    have inner : (do
        let clock ← programDivisor pll mhz
        settleClock
        pure clock : Routine ν ν).Only Keeps := by
      have clock (f : ClockState ν → ClockState ν) : Keeps (.revise fun m ↦ m.withClock f) :=
        ⟨spares_revise _, fun _ ↦ rfl⟩
      refine (only_programDivisor quiet clock keeps_clockGenerator
        (fun _ ↦ keeps_clock) pll mhz).bind fun clock ↦ ?_
      exact (only_settleClock quiet).bind fun _ ↦ trivial
    exact (ensures_changingClock inner t).mono fun _ u hu ↦ ht.trans hu

theorem ensures_restoreClock (target : ν) (s : Account ν) :
    (restoreClock target).Ensures (watch ν) (fun _ t ↦ s.Alike t) s := by
  have sparing : ∀ r : Request ν, r.isQuiet → Spares r := fun _ ↦ spares_of_isQuiet
  rw [restoreClock]
  split
  · refine (ensures_alike (only_note sparing rfl) s).seq fun _ t ht ↦ ?_
    exact (ensures_setClock_target target t).seq fun _ u hu ↦ ht.trans hu
  · exact ⟨rfl, rfl, rfl⟩

theorem ensures_finishEpoch (epoch : Word) (s : Account ν) :
    (finishEpoch epoch : Routine ν _).Ensures (watch ν) (fun _ t ↦ s.Alike t) s := by
  have sparing : ∀ r : Request ν, r.isQuiet → Spares r := fun _ ↦ spares_of_isQuiet
  have power : Spares (.call (.write Reg.dagPowerOff Reg.dagPower) : Request ν) :=
    (keeps_generator _ _ rfl).1
  have readMemory (s : Account ν) :
      (memory : Routine ν _).Ensures (watch ν) (fun _ t ↦ s.Alike t) s :=
    ensures_alike (only_request (sparing _ rfl)) s
  have conclude : (concludeEpoch epoch : Routine ν _).Only Spares := by
    refine (only_request (sparing .memory rfl)).bind fun m ↦ ?_
    refine (only_request (spares_revise _)).bind fun _ ↦ ?_
    refine (only_request roomToBuild_keeps.release.1).bind fun _ ↦ ?_
    refine (only_request (spares_revise _)).bind fun _ ↦ ?_
    exact only_request ⟨rfl, fun _ ↦ ⟨rfl, rfl⟩⟩
  rw [finishEpoch_eq]
  refine (ensures_alike (only_tryWrite sparing power) s).seq fun _ t ht ↦ ?_
  refine (readMemory t).seq fun m u hu ↦ ?_
  refine (ensures_restoreClock m.clock.target u).seq fun _ v hv ↦ ?_
  exact (ensures_alike conclude v).mono fun _ w hw ↦ ((ht.trans hu).trans hv).trans hw

end Clock

/-! ## The whole change -/

/-- The registers hold what an epoch needs, and its change was begun last. -/
def Ready (ctx : EpochContext) (s : Account ν) : Prop :=
  s.Holds (Dag.items ctx.dagSize) ∧ s.last = some ctx.epoch

theorem Ready.alike {ctx : EpochContext} (hs : Ready ctx s) (h : s.Alike t) : Ready ctx t :=
  ⟨h.holds hs.1, h.last.trans hs.2⟩

/-- A change whose epoch is what the size of the dataset depends on is the current one. -/
theorem Ready.current {ctx : EpochContext} {size : Word → UInt64}
    (hsize : ctx.dagSize = size ctx.epoch) (hs : Ready ctx s) : s.Current size := by
  refine ⟨fun epoch h ↦ ?_, fun h ↦ ?_⟩
  · have hepoch : ctx.epoch = epoch := Option.some.inj (hs.2.symm.trans h)
    rw [← hepoch, ← hsize]
    exact hs.1
  · rw [hs.2] at h
    cases h

section Change

variable [Quantity ν]

/-- Whatever the board held before, preparing the core programs the registers. -/
theorem ensures_prepareCore (ctx : EpochContext) (s : Account ν) :
    (prepareCore ctx : Routine ν _).Ensures (watch ν) (fun _ ↦ Ready ctx) s := by
  -- up to the two writes it only matters that no other change is begun
  have quiet : ∀ r : Request ν, r.isQuiet → r.begun = none := fun _ ↦ begun_of_isQuiet
  have calls : ∀ c, (Request.call c : Request ν).begun = none := fun _ ↦ rfl
  have write {t : Account ν} (ht : t.last = some ctx.epoch) (value addr : Word) (what : String) :
      (tryWrite value addr what : Routine ν _).Ensures (watch ν)
        (fun _ u ↦ u.last = some ctx.epoch) t :=
    (ensures_last (only_tryWrite quiet (calls _)) t).mono fun _ u hu ↦ hu.trans ht
  refine (ensures_last (only_enter rfl rfl) s).seq fun _ t _ ↦ ?_
  have begin' : (note (.changingEpoch ctx.epoch) : Routine ν _).Ensures (watch ν)
      (fun _ u ↦ u.last = some ctx.epoch) t := by
    refine ⟨trivial, trivial, fun x u hm ↦ ?_⟩
    obtain ⟨v, -, -, -, -, -, -, -, hlast⟩ := hm
    exact hlast
  refine begin'.seq fun _ t ht ↦ ?_
  have stock : (setClock .stock : Routine ν _).Only fun r ↦ r.begun = none :=
    only_setClock_stock quiet (fun _ ↦ rfl) fun _ _ _ ↦ calls _
  refine (ensures_last stock t).seq fun _ u hu ↦ ?_
  have stop := only_stopCore quiet (fun _ ↦ calls _) (calls _)
  refine (ensures_last stop u).seq fun _ v hv ↦ ?_
  have hlast : v.last = some ctx.epoch := (hv.trans hu).trans ht
  refine (write hlast ..).seq fun _ t ht ↦ ?_
  refine (write ht ..).seq fun _ t ht ↦ ?_
  refine (ensures_tryWrite_count _ _ t).seq fun _ u hu ↦ ?_
  refine (ensures_tryWrite_reciprocal _ _ u).mono fun _ v hv ↦ ?_
  exact ⟨⟨hv.1.trans hu.1, hv.2.1⟩, (hv.2.2.trans hu.2).trans ht⟩

theorem ensures_changeEpoch (b : Board) (ctx : EpochContext) (s : Account ν) :
    (b.changeEpoch ctx : Routine ν _).Ensures (watch ν)
      (fun a t ↦ a ≠ .ok .skipped ∧ Ready ctx t) s := by
  have take : (acquire : Routine ν _).Only Spares := only_request roomToBuild_keeps.acquire.1
  have give : (release : Routine ν _).Only Spares := only_request roomToBuild_keeps.release.1
  refine (ensures_alike take s).seq fun _ t _ ↦ ?_
  refine (ensures_prepareCore ctx t).seq fun _ t ht ↦ ?_
  have look : (b.holdsDataset ctx.epoch : Routine ν _).Only Spares :=
    only_holdsDataset (fun _ ↦ spares_of_isQuiet) b ctx.epoch ⟨rfl, fun _ ↦ ⟨rfl, rfl⟩⟩
  refine (ensures_alike look t).seq fun holds u hu ↦ ?_
  have hu : Ready ctx u := ht.alike hu
  cases holds with
  | true =>
    refine (ensures_finishEpoch ctx.epoch u).seq fun _ v hv ↦ ?_
    exact ⟨nofun, hu.alike hv⟩
  | false =>
    have build : (b.buildDataset ctx : Routine ν _).Only Spares :=
      (only_buildDataset roomToBuild_keeps b ctx).mono fun _ hr ↦ hr.1
    refine (ensures_alike build u).seq fun x v hv ↦ ?_
    have hv : Ready ctx v := hu.alike hv
    cases x with
    | error e =>
      refine (ensures_alike give v).seq fun _ w hw ↦ ?_
      exact ⟨nofun, hv.alike hw⟩
    | ok =>
      refine (ensures_finishEpoch ctx.epoch v).seq fun _ w hw ↦ ?_
      exact ⟨nofun, hv.alike hw⟩

/-- How the account stands when an epoch change has ended. -/
def Ended (size : Word → UInt64) (ctx : EpochContext) (a : Except BoardError EpochOutcome)
    (s : Account ν) : Prop :=
  s.Current size ∧ (a = .ok .skipped → s.last ≠ none) ∧
    ∀ outcome, a = .ok outcome → outcome ≠ .skipped → s.last = some ctx.epoch

omit [Quantity ν] in
/-- The answer whether an epoch was the last comes from what is remembered. -/
theorem ensures_isLastEpoch {size : Word → UInt64} (epoch : Word) (hs : s.Current size) :
    (isLastEpoch epoch : Routine ν _).Ensures (watch ν)
      (fun isLast t ↦ t.Current size ∧ (isLast → t.last ≠ none)) s := by
  have take : (acquire : Routine ν _).Only Keeps := only_request roomToBuild_keeps.acquire
  have give : (release : Routine ν _).Only Keeps := only_request roomToBuild_keeps.release
  refine (ensures_drifts take s).seq fun _ t hd ↦ ?_
  have ht : t.Current size := current_of_drifts hd hs
  have readMemory : (memory : Routine ν _).Ensures (watch ν)
      (fun m u ↦ u.Current size ∧ m.lastEpoch = u.memory.lastEpoch) t := by
    refine ⟨trivial, trivial, fun m u hm ↦ ?_⟩
    refine ⟨current_of_drifts (drifts_of_keeps (keeps_of_isQuiet rfl) hm) ht, ?_⟩
    obtain ⟨v, -, hm, -, -, -, -, hmem, -⟩ := hm
    have hreply : m = v.memory := hm
    rw [hreply, hmem]
    rfl
  refine readMemory.seq fun m u hu ↦ ?_
  refine (ensures_drifts give u).seq fun _ v hd ↦ ?_
  refine ⟨current_of_drifts hd hu.1, fun isLast hnone ↦ ?_⟩
  have hlast : m.lastEpoch = some epoch := of_decide_eq_true isLast
  have hnever : u.memory.lastEpoch = none := hu.1.2 (hd.1.last.symm.trans hnone)
  rw [hu.2, hnever] at hlast
  cases hlast

theorem ensures_prepareEpoch {size : Word → UInt64} (b : Board) {ctx : EpochContext}
    (hsize : ctx.dagSize = size ctx.epoch) (hs : s.Current size) :
    (b.prepareEpoch ctx : Routine ν _).Ensures (watch ν) (Ended size ctx) s := by
  have quiet : ∀ r : Request ν, r.isQuiet → Keeps r := fun _ ↦ keeps_of_isQuiet
  have sparing : ∀ r : Request ν, r.isQuiet → Spares r := fun _ ↦ spares_of_isQuiet
  refine (ensures_drifts (only_request (quiet .memory rfl)) s).seq fun m t hd ↦ ?_
  have ht : t.Current size := current_of_drifts hd hs
  split
  · refine (ensures_drifts (only_note quiet rfl) t).seq fun _ u hd ↦ ?_
    exact ⟨current_of_drifts hd ht, nofun, nofun⟩
  · refine (ensures_isLastEpoch ctx.epoch ht).seq fun isLast t ht ↦ ?_
    split
    · rename_i hlast
      refine ⟨ht.1, fun _ ↦ ht.2 hlast, fun outcome h hne ↦ ?_⟩
      cases h
      exact absurd rfl hne
    · -- a change that was begun counts, however it ends
      have busy (f : Memory ν → Memory ν) : (revise f).Only Spares := only_request (spares_revise f)
      refine (ensures_alike (busy _) t).seq fun _ t _ ↦ ?_
      refine (ensures_changeEpoch b ctx t).seq fun x t ht ↦ ?_
      refine (ensures_alike (busy _) t).seq fun _ u hu ↦ ?_
      have hready : Ready ctx u := ht.2.alike hu
      have ended {v : Account ν} (h : u.Alike v) : Ended size ctx x v :=
        ⟨(hready.alike h).current hsize, fun hx ↦ absurd hx ht.1, fun _ _ _ ↦ (hready.alike h).2⟩
      cases x with
      | ok outcome =>
        refine (ensures_alike (only_note sparing rfl) u).seq fun _ v hv ↦ ?_
        exact (ensures_alike (only_request (spares_revise _)) v).seq fun _ w hw ↦
          ended (hv.trans hw)
      | error e =>
        refine (ensures_alike (only_note sparing rfl) u).seq fun _ v hv ↦ ?_
        exact (ensures_alike (only_enter (spares_revise _) (sparing _ rfl)) v).seq fun _ w hw ↦
          ended (hv.trans hw)

end Change

end HashBoard.Items
