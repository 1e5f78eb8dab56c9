import HashBoard.Proofs.Scene.Upkeep
import HashBoard.Proofs.Search.Asks

/-!
# What brings a halted board back

A halt stops the core, powers the generator down and is never taken back in the memory of the board.
It is asked about once, at the beginning of an epoch change, and nowhere under the access lock: an
errand that is under way when a guest halts the board goes on when it gets the lock back. This
module says exactly when that undoes the halt.

An errand *advances* at six places: where it starts to prepare the core, where it starts the
generator, where it has put a new divisor into the clock generator or has found that none will do,
where it has programmed work, and where it reads a nonce slot that was found full. A write *revives*
the board if it powers the generator, starts it, or lets the core run. The two come together: at
every point where the owner does not hold the lock, a halted board was revived if and only if the
owner advanced on a halted board (`revived_iff_advanced`).

The order differs from place to place. A core is prepared and the generator started after the
advance, a clock is changed and work programmed before it; so inside the lock the two may be apart,
and the proof has to follow each routine through its own order.
-/

namespace HashBoard

/-! ## Reviving and advancing -/

/-- A register write that powers the generator, starts it, or lets the core run. -/
def Request.Revives {ν : Type} : Request ν → Prop
  | .call (.write value addr) =>
    addr = Reg.dagPower ∧ value ≠ Reg.dagPowerOff ∨ addr = Reg.dagControl ∧ value = Reg.dagStart ∨
      addr = Reg.coreEnable ∧ (value = Reg.coreRunInterrupt ∨ value = Reg.coreRunPolled)
  | _ => False

/-- A request that shows that an errand has come to a place where it takes the board into use. -/
def Request.Advances {ν : Type} : Request ν → Prop
  | .note (.phase .preparing) | .note (.phase .generating) | .note (.clockSet ..)
  | .note (.clockTooFast ..) | .note (.clockTooSlow ..) | .note (.workProgrammed ..) => True
  | .call (.read addr) => ∃ i < Reg.polledSlots, addr = Reg.polledNonceHi (UInt32.ofNat i)
  | _ => False

instance {ν : Type} (r : Request ν) : Decidable r.Revives := by
  unfold Request.Revives
  split <;> infer_instance

instance {ν : Type} (r : Request ν) : Decidable r.Advances := by
  unfold Request.Advances
  split <;> infer_instance

namespace Scene

variable {ν : Type} {R : Repertoire ν}

/-- Somebody revives a board that is halted. -/
def RevivesHalted (sh : Shared ν) : Occurrence R → Prop
  | .talks _ said => sh.memory.halted ∧ said.request.Revives
  | _ => False

/-- The owner advances on a board that is halted. -/
def AdvancesHalted (sh : Shared ν) : Occurrence R → Prop
  | .talks .owner said => sh.memory.halted ∧ said.request.Advances
  | _ => False

instance (sh : Shared ν) (e : Occurrence R) : Decidable (RevivesHalted sh e) := by
  unfold RevivesHalted
  split <;> infer_instance

instance (sh : Shared ν) (e : Occurrence R) : Decidable (AdvancesHalted sh e) := by
  unfold AdvancesHalted
  split <;> infer_instance

end Scene

/-! ## The account -/

namespace Revival

open Routine Board

/-- How the owner stands towards a halt. -/
structure Account where
  /-- The owner holds the lock. -/
  locked : Prop
  /-- The board is halted. -/
  halted : Prop
  /-- A halted board was revived. -/
  revived : Prop
  /-- The owner advanced on a halted board. -/
  advanced : Prop

/-- Reviving and advancing come together. -/
def Account.Sync (s : Account) : Prop := s.revived ↔ s.advanced

/-- Whatever the owner asks, reviving and advancing come together wherever the lock is free. Others
neither revive nor advance, and halt the board only while the lock is not the owner's. -/
def watch (ν : Type) : Watch ν Account where
  safe s := s.locked ∨ s.Sync
  acts s r _ t :=
    t.locked = heldAfter s.locked r ∧ (¬r.MayHalt → t.halted = s.halted) ∧
      t.revived = (s.revived ∨ s.halted ∧ r.Revives) ∧
      t.advanced = (s.advanced ∨ s.halted ∧ r.Advances)
  drifts s t :=
    t.locked = s.locked ∧ t.revived = s.revived ∧ t.advanced = s.advanced ∧
      (s.locked → t.halted = s.halted)
  refl _ := ⟨rfl, rfl, rfl, fun _ ↦ rfl⟩
  trans h h' :=
    ⟨h'.1.trans h.1, h'.2.1.trans h.2.1, h'.2.2.1.trans h.2.2.1,
      fun hl ↦ (h'.2.2.2 (h.1 ▸ hl)).trans (h.2.2.2 hl)⟩
  safe_of_drifts h hs := by
    rw [Account.Sync, h.1, h.2.1, h.2.2.1]
    exact hs

variable {ν α : Type} {s t : Account} {r : Request ν} {x : Reply r} {p : Routine ν α}

/-- Under the lock, only the request itself changes the account. -/
theorem moves_of_locked (hl : s.locked) (hm : (watch ν).moves s r x t) :
    (watch ν).acts s r x t := by
  obtain ⟨u, hd, ha⟩ := hm
  have hu : u.halted = s.halted := hd.2.2.2 hl
  simp only [watch, hu, hd.1, hd.2.1, hd.2.2.1] at ha ⊢
  exact ha

/-- Reviving and advancing are kept apart from whatever else is asked. -/
theorem sync_of_moves (hs : s.Sync) (hm : (watch ν).moves s r x t) (hr : ¬r.Revives)
    (ha : ¬r.Advances) : t.Sync := by
  obtain ⟨u, hd, -, -, hrev, hadv⟩ := hm
  rw [Account.Sync, hrev, hadv, hd.2.1, hd.2.2.1]
  simpa [hr, ha, Account.Sync] using hs

/-! ### Standing under the lock -/

/-- Under the lock, with reviving and advancing together. -/
def Even (s : Account) : Prop := s.locked ∧ s.Sync

/-- Nothing that is done under the lock can bring reviving and advancing apart: the board is not
halted, or it was revived already. -/
def Braced (s : Account) : Prop := Even s ∧ (s.halted → s.revived)

/-- The board is halted and the halt was not undone yet. -/
def Exposed (s : Account) : Prop := s.locked ∧ s.halted ∧ ¬s.revived ∧ ¬s.advanced

/-- The owner advanced, and a write that revives is still to come. -/
def Ahead (s : Account) : Prop := s.locked ∧ s.halted ∧ s.advanced

/-- The board was revived, and the owner is still to advance. -/
def Behind (s : Account) : Prop := s.locked ∧ s.halted ∧ s.revived

/-- Both happened. -/
def Settled (s : Account) : Prop := s.locked ∧ s.revived ∧ s.advanced

theorem Exposed.even (h : Exposed s) : Even s := ⟨h.1, by simp [Account.Sync, h.2.2.1, h.2.2.2]⟩

theorem Settled.braced (h : Settled s) : Braced s :=
  ⟨⟨h.1, by simp [Account.Sync, h.2.1, h.2.2]⟩, fun _ ↦ h.2.1⟩

theorem Even.braced_or_exposed (h : Even s) : Braced s ∨ Exposed s := by
  by_cases hh : s.halted ∧ ¬s.revived
  · exact .inr ⟨h.1, hh.1, hh.2, fun ha ↦ hh.2 (h.2.mpr ha)⟩
  · refine .inl ⟨h, fun halted ↦ ?_⟩
    by_contra hr
    exact hh ⟨halted, hr⟩

/-- What neither revives nor advances and leaves the lock alone. -/
def Calm (r : Request ν) : Prop := ¬r.Revives ∧ ¬r.Advances ∧ r ≠ .acquire ∧ r ≠ .release

/-- What leaves the lock alone and does not halt the board. -/
def Steady (r : Request ν) : Prop := ¬r.MayHalt ∧ r ≠ .acquire ∧ r ≠ .release

theorem heldAfter_of_ne {held : Prop} (ha : r ≠ .acquire) (hr : r ≠ .release) :
    heldAfter held r = held := by
  cases r with
  | acquire => exact absurd rfl ha
  | release => exact absurd rfl hr
  | _ => rfl

theorem even_of_calm (hs : Even s) (hr : Calm r) (hm : (watch ν).moves s r x t) : Even t := by
  refine ⟨?_, sync_of_moves hs.2 hm hr.1 hr.2.1⟩
  rw [(moves_of_locked hs.1 hm).1, heldAfter_of_ne hr.2.2.1 hr.2.2.2]
  exact hs.1

/-- What a steady request leaves as it was. -/
theorem locked_of_steady (hl : s.locked) (hr : Steady r) (hm : (watch ν).moves s r x t) :
    t.locked ∧ t.halted = s.halted ∧ t.revived = (s.revived ∨ s.halted ∧ r.Revives) ∧
      t.advanced = (s.advanced ∨ s.halted ∧ r.Advances) := by
  obtain ⟨hlock, hhalt, hrev, hadv⟩ := moves_of_locked hl hm
  refine ⟨?_, hhalt hr.1, hrev, hadv⟩
  rw [hlock, heldAfter_of_ne hr.2.1 hr.2.2]
  exact hl

theorem braced_of_steady (hs : Braced s) (hr : Steady r) (hm : (watch ν).moves s r x t) :
    Braced t := by
  obtain ⟨hlock, hhalt, hrev, hadv⟩ := locked_of_steady hs.1.1 hr hm
  by_cases hh : s.halted
  · have hrevived := hs.2 hh
    have hadvanced := hs.1.2.mp hrevived
    exact Settled.braced ⟨hlock, by simp [hrev, hrevived], by simp [hadv, hadvanced]⟩
  · refine ⟨⟨hlock, ?_⟩, by simp [hhalt, hh]⟩
    rw [Account.Sync, hrev, hadv]
    simpa [hh, Account.Sync] using hs.1.2

/-! ### Requests by kind -/

theorem not_isQuiet_of_advances (h : r.Advances) : ¬r.isQuiet := by
  unfold Request.Advances at h
  split at h
  case h_7 addr =>
    obtain ⟨i, hi, rfl⟩ := h
    have all : ∀ i < Reg.polledSlots, Reg.polledNonceHi (UInt32.ofNat i) ∈ Reg.telling := by decide
    simp [Request.isQuiet, all i hi]
  case h_8 => exact h.elim
  all_goals simp [Request.isQuiet, Event.isMilestone]

theorem calm_of_isQuiet (h : r.isQuiet) : Calm r := by
  refine ⟨?_, fun ha ↦ not_isQuiet_of_advances ha h, (harmless_of_isQuiet h).2.2⟩
  cases r with
  | call c =>
    cases c with
    | write value addr => simp [Request.isQuiet] at h
    | _ => exact id
  | _ => exact id

theorem steady_of_isQuiet (h : r.isQuiet) : Steady r := (harmless_of_isQuiet h).2

theorem steady_call (c : Call) : Steady (.call c : Request ν) := by
  refine ⟨?_, nofun, nofun⟩
  rintro ⟨f, m, h, -⟩
  cases h

theorem steady_note (event : Event ν) : Steady (.note event) := by
  refine ⟨?_, nofun, nofun⟩
  rintro ⟨f, m, h, -⟩
  cases h

theorem steady_books {f : Memory ν → Memory ν} (h : Bookkeeping f) : Steady (.revise f) :=
  ⟨not_mayHalt_of_bookkeeping h, nofun, nofun⟩

theorem steady_reviseClock (f : ClockState ν → ClockState ν) :
    Steady (.revise fun m ↦ m.withClock f) := by
  refine ⟨?_, nofun, nofun⟩
  rintro ⟨g, m, hg, hne⟩
  cases hg
  exact hne rfl

theorem steady_reviseStatus (f : Status ν → Status ν) :
    Steady (.revise fun m ↦ m.withStatus f) := by
  refine ⟨?_, nofun, nofun⟩
  rintro ⟨g, m, hg, hne⟩
  cases hg
  exact hne rfl

theorem calm_revise (f : Memory ν → Memory ν) : Calm (.revise f) := ⟨id, id, nofun, nofun⟩

theorem calm_look : Calm (.isCancelled : Request ν) := ⟨id, id, nofun, nofun⟩

theorem calm_call {c : Call} (hr : ¬(Request.call c : Request ν).Revives)
    (ha : ¬(Request.call c : Request ν).Advances) : Calm (.call c : Request ν) :=
  ⟨hr, ha, nofun, nofun⟩

theorem calm_note {event : Event ν} (h : ¬(Request.note event).Advances) : Calm (.note event) :=
  ⟨id, h, nofun, nofun⟩

theorem calm_write {value addr : Word}
    (h : ¬(Request.call (.write value addr) : Request ν).Revives) :
    Calm (.call (.write value addr) : Request ν) := calm_call h id

/-! ### Whole routines -/

/-- Under the lock, a condition that every request of a routine keeps is kept by the routine. -/
theorem ensures_locked {P : Request ν → Prop} (h : p.Only P) {R : Account → Prop} (hs : R s)
    (locked : ∀ t, R t → t.locked)
    (moves : ∀ t r x u, R t → P r → (watch ν).moves t r x u → R u) :
    p.Ensures (watch ν) (fun _ ↦ R) s :=
  h.ensures hs (fun t ht ↦ .inl (locked t ht)) (fun _ _ _ _ ↦ trivial) moves

theorem Even.ensures (hs : Even s) (h : p.Only Calm) : p.Ensures (watch ν) (fun _ ↦ Even) s :=
  ensures_locked h hs (fun _ ht ↦ ht.1) fun _ _ _ _ ht hr hm ↦ even_of_calm ht hr hm

theorem Braced.ensures (hs : Braced s) (h : p.Only Steady) :
    p.Ensures (watch ν) (fun _ ↦ Braced) s :=
  ensures_locked h hs (fun _ ht ↦ ht.1.1) fun _ _ _ _ ht hr hm ↦ braced_of_steady ht hr hm

theorem Ahead.ensures (hs : Ahead s) (h : p.Only Steady) :
    p.Ensures (watch ν) (fun _ ↦ Ahead) s := by
  refine ensures_locked h hs (fun _ ht ↦ ht.1) fun t r x u ht hr hm ↦ ?_
  obtain ⟨hlock, hhalt, -, hadv⟩ := locked_of_steady ht.1 hr hm
  exact ⟨hlock, hhalt ▸ ht.2.1, by simp [hadv, ht.2.2]⟩

theorem Behind.ensures (hs : Behind s) (h : p.Only Steady) :
    p.Ensures (watch ν) (fun _ ↦ Behind) s := by
  refine ensures_locked h hs (fun _ ht ↦ ht.1) fun t r x u ht hr hm ↦ ?_
  obtain ⟨hlock, hhalt, hrev, -⟩ := locked_of_steady ht.1 hr hm
  exact ⟨hlock, hhalt ▸ ht.2.1, by simp [hrev, ht.2.2]⟩

theorem Exposed.ensures (hs : Exposed s) (h : p.Only fun r ↦ Calm r ∧ Steady r) :
    p.Ensures (watch ν) (fun _ ↦ Exposed) s := by
  refine ensures_locked h hs (fun _ ht ↦ ht.1) fun t r x u ht hr hm ↦ ?_
  obtain ⟨hlock, hhalt, hrev, hadv⟩ := locked_of_steady ht.1 hr.2 hm
  exact ⟨hlock, hhalt ▸ ht.2.1, by simp [hrev, ht.2.2.1, hr.1.1],
    by simp [hadv, ht.2.2.2, hr.1.2.1]⟩

/-- A routine that is steady, and braces an exposed board, braces every board. -/
theorem Even.ensures_braced (hs : Even s) (steady : p.Only Steady)
    (exposed : Exposed s → p.Ensures (watch ν) (fun _ ↦ Braced) s) :
    p.Ensures (watch ν) (fun _ ↦ Braced) s := by
  rcases hs.braced_or_exposed with hb | he
  · exact hb.ensures steady
  · exact exposed he

/-! ### The requests that count -/

/-- A condition under the lock that survives whatever is quiet. -/
def Kept (ν : Type) (R : Account → Prop) : Prop :=
  (∀ t, R t → t.locked) ∧
    ∀ t (r : Request ν) x u, R t → r.isQuiet → (watch ν).moves t r x u → R u

theorem kept_braced : Kept ν Braced :=
  ⟨fun _ h ↦ h.1.1, fun _ _ _ _ h hr hm ↦ braced_of_steady h (steady_of_isQuiet hr) hm⟩

theorem kept_exposed : Kept ν Exposed := by
  refine ⟨fun _ h ↦ h.1, fun t r x u h hr hm ↦ ?_⟩
  have hc := calm_of_isQuiet hr
  obtain ⟨hlock, hhalt, hrev, hadv⟩ := locked_of_steady h.1 (steady_of_isQuiet hr) hm
  exact ⟨hlock, hhalt ▸ h.2.1, by simp [hrev, h.2.2.1, hc.1], by simp [hadv, h.2.2.2, hc.2.1]⟩

theorem kept_ahead : Kept ν Ahead := by
  refine ⟨fun _ h ↦ h.1, fun t r x u h hr hm ↦ ?_⟩
  obtain ⟨hlock, hhalt, -, hadv⟩ := locked_of_steady h.1 (steady_of_isQuiet hr) hm
  exact ⟨hlock, hhalt ▸ h.2.1, by simp [hadv, h.2.2]⟩

theorem kept_behind : Kept ν Behind := by
  refine ⟨fun _ h ↦ h.1, fun t r x u h hr hm ↦ ?_⟩
  obtain ⟨hlock, hhalt, hrev, -⟩ := locked_of_steady h.1 (steady_of_isQuiet hr) hm
  exact ⟨hlock, hhalt ▸ h.2.1, by simp [hrev, h.2.2]⟩

/-- A write that takes one condition to another, whether it succeeds or not. -/
theorem ensures_tryWrite {value addr : Word} {what : String} {R R' : Account → Prop}
    (hR : Kept ν R) (hR' : Kept ν R')
    (write : ∀ t x u, R t → (watch ν).moves t (.call (.write value addr)) x u → R' u) (hs : R s) :
    (tryWrite value addr what : Routine ν _).Ensures (watch ν) (fun _ ↦ R') s := by
  have quiet {R : Account → Prop} (hR : Kept ν R) {t : Account} (ht : R t) (event : Event ν)
      (he : event.isMilestone = false) : (note event).Ensures (watch ν) (fun _ ↦ R) t := by
    refine ⟨.inl (hR.1 t ht), trivial, fun x u hm ↦ hR.2 t _ x u ht ?_ hm⟩
    simp [Request.isQuiet, he]
  have attempt {t : Account} (ht : R t) :
      (call (.write value addr) : Routine ν _).Ensures (watch ν) (fun _ ↦ R') t :=
    ⟨.inl (hR.1 t ht), trivial, fun x u hm ↦ write t x u ht hm⟩
  refine Ensures.seq (R := fun _ ↦ R') ?_ ?_
  · exact (quiet hR hs _ rfl).seq fun _ t ht ↦ attempt ht
  · rintro x t ht
    cases x with
    | ok => exact ht
    | error fault => exact quiet hR' ht _ rfl

/-- After the advance the write that revives makes even. -/
theorem Ahead.ensures_revive {value addr : Word} {what : String}
    (hr : (Request.call (.write value addr) : Request ν).Revives) (hs : Ahead s) :
    (tryWrite value addr what : Routine ν _).Ensures (watch ν) (fun _ ↦ Braced) s := by
  refine ensures_tryWrite kept_ahead kept_braced (fun t x u ht hm ↦ ?_) hs
  obtain ⟨hlock, -, hrev, hadv⟩ := locked_of_steady ht.1 (steady_call _) hm
  exact Settled.braced ⟨hlock, by simp [hrev, ht.2.1, hr], by simp [hadv, ht.2.2]⟩

theorem Exposed.ensures_revive {value addr : Word} {what : String}
    (hr : (Request.call (.write value addr) : Request ν).Revives) (hs : Exposed s) :
    (tryWrite value addr what : Routine ν _).Ensures (watch ν) (fun _ ↦ Behind) s := by
  refine ensures_tryWrite kept_exposed kept_behind (fun t x u ht hm ↦ ?_) hs
  obtain ⟨hlock, hhalt, hrev, -⟩ := locked_of_steady ht.1 (steady_call _) hm
  exact ⟨hlock, hhalt ▸ ht.2.1, by simp [hrev, ht.2.1, hr]⟩

theorem Exposed.ensures_advance {event : Event ν} (ha : (Request.note event).Advances)
    (hs : Exposed s) : (note event).Ensures (watch ν) (fun _ ↦ Ahead) s := by
  refine ⟨.inl hs.1, trivial, fun x t hm ↦ ?_⟩
  obtain ⟨hlock, hhalt, -, hadv⟩ := locked_of_steady hs.1 (steady_note event) hm
  exact ⟨hlock, hhalt ▸ hs.2.1, by simp [hadv, hs.2.1, ha]⟩

/-- After the write that revives the advance makes even. -/
theorem Behind.ensures_advance {event : Event ν} (ha : (Request.note event).Advances)
    (hs : Behind s) : (note event).Ensures (watch ν) (fun _ ↦ Braced) s := by
  refine ⟨.inl hs.1, trivial, fun x t hm ↦ ?_⟩
  obtain ⟨hlock, -, hrev, hadv⟩ := locked_of_steady hs.1 (steady_note event) hm
  exact Settled.braced ⟨hlock, by simp [hrev, hs.2.2], by simp [hadv, hs.2.1, ha]⟩

end Revival

end HashBoard
