import HashBoard.Proofs.Board.Registers
import HashBoard.Proofs.Scene.Upkeep

/-!
# A soft stop of a bystander goes with a halt

A telemetry sample that halts the board stops the core softly first: it walks the intensity in the
flag word down. From there until the board is halted the guest *owes* a halt. It pays under the
lock, so whoever holds the lock finds the flags as they were left, unless the board was halted
(`Runs.unwritten`).
-/

namespace HashBoard

open Routine

variable {ν : Type}

/-- How a party stands that may stop the core softly. -/
structure Debt where
  /-- The party holds the lock. -/
  held : Prop
  /-- It wrote the flag word, and has not halted the board since. -/
  owes : Prop

namespace Debt

/-- How a party stands after a request of its own. -/
def after (s : Debt) (r : Request ν) : Debt where
  held := heldAfter s.held r
  owes := (s.owes ∨ r.Writes Reg.coreFlags) ∧ ¬r.MayHalt

/-- A halt is owed only under the lock. -/
def watch (ν : Type) : Watch ν Debt where
  safe s := s.owes → s.held
  acts s r _ t := t = s.after r
  drifts s t := t = s
  refl _ := rfl
  trans h h' := h'.trans h
  safe_of_drifts h hs := h ▸ hs

/-- How a party stands after some talk of its own. -/
def afterAll (s : Debt) (talk : List (Answered ν)) : Debt :=
  talk.foldl (fun s said ↦ s.after said.request) s

theorem along (s : Debt) (talk : List (Answered ν)) :
    (watch ν).Along s talk (s.afterAll talk) := by
  induction talk generalizing s with
  | nil => exact .nil s
  | cons said talk ih => exact .cons rfl (ih _)

/-- Where the board is not halted, whatever was owed is still owed, and every write of the flag word
is. -/
theorem owes_afterAll_iff {talk : List (Answered ν)}
    (unhalted : ∀ said ∈ talk, ¬said.request.MayHalt) (s : Debt) :
    (s.afterAll talk).owes ↔ s.owes ∨ ∃ said ∈ talk, said.request.Writes Reg.coreFlags := by
  induction talk generalizing s with
  | nil => simp [afterAll]
  | cons said talk ih =>
    obtain ⟨hfirst, hrest⟩ := List.forall_mem_cons.mp unhalted
    have hstep : (s.after said.request).owes ↔ s.owes ∨ said.request.Writes Reg.coreFlags :=
      and_iff_left hfirst
    rw [afterAll, List.foldl_cons, ← afterAll, ih hrest, hstep, or_assoc]
    simp

/-- What neither touches the lock nor writes the flag word. -/
def Plain (r : Request ν) : Prop := ¬r.Writes Reg.coreFlags ∧ r ≠ .acquire ∧ r ≠ .release

theorem plain_of_isQuiet {r : Request ν} (h : r.isQuiet) : Plain r :=
  ⟨r.not_writes_of_isQuiet h _, (harmless_of_isQuiet h).2.2⟩

theorem held_after_of_ne {s : Debt} {r : Request ν} (h : r ≠ .acquire ∧ r ≠ .release) :
    (s.after r).held = s.held := by
  cases r with
  | acquire => exact absurd rfl h.1
  | release => exact absurd rfl h.2
  | _ => rfl

theorem not_owes_after {s : Debt} {r : Request ν} (h : ¬s.owes) (hr : ¬r.Writes Reg.coreFlags) :
    ¬(s.after r).owes := fun owes ↦ owes.1.elim h hr

/-! ### Telemetry samples -/

section Ensures

variable {α : Type} {p : Routine ν α} {s : Debt}

/-- The lock is held, and nothing is owed. -/
def Clear (s : Debt) : Prop := s.held ∧ ¬s.owes

/-- The lock is not held, and nothing is owed. -/
def Gone (s : Debt) : Prop := ¬s.held ∧ ¬s.owes

theorem ensures_plain (h : p.Only Plain) {held : Prop} (hs : s.held = held ∧ ¬s.owes) :
    p.Ensures (watch ν) (fun _ t ↦ t.held = held ∧ ¬t.owes) s := by
  refine h.ensures hs (fun t ht howes ↦ absurd howes ht.2) (fun _ _ _ _ ↦ trivial) ?_
  rintro t r x u ht hr ⟨_, rfl, rfl⟩
  exact ⟨(held_after_of_ne hr.2).trans ht.1, not_owes_after ht.2 hr.1⟩

theorem ensures_clear (h : p.Only Plain) (hs : s.Clear) :
    p.Ensures (watch ν) (fun _ ↦ Clear) s :=
  (ensures_plain h ⟨eq_true hs.1, hs.2⟩).mono fun _ _ ht ↦ ⟨of_eq_true ht.1, ht.2⟩

theorem ensures_held (h : p.Only fun r ↦ r ≠ .acquire ∧ r ≠ .release) (hs : s.held) :
    p.Ensures (watch ν) (fun _ ↦ held) s := by
  refine h.ensures hs (fun _ ht _ ↦ ht) (fun _ _ _ _ ↦ trivial) ?_
  rintro t r x u ht hr ⟨_, rfl, rfl⟩
  rw [held_after_of_ne hr]
  exact ht

/-- A halt pays whatever is owed. -/
theorem ensures_halt [Quantity ν] (health : StackHealth) (hs : s.held) :
    (Board.emergencyHalt health : Routine ν _).Ensures (watch ν) (fun _ ↦ Clear) s := by
  have quiet (r : Request ν) (h : r.isQuiet) := (plain_of_isQuiet h).2
  -- up to the halt the walk may owe, which is no harm while the lock is held
  refine (ensures_held (only_stopCore quiet (fun _ ↦ ⟨nofun, nofun⟩) ⟨nofun, nofun⟩) hs).seq
    fun _ t ht ↦ ?_
  refine (ensures_held (only_tryWrite quiet ⟨nofun, nofun⟩) ht).seq fun _ t ht ↦ ?_
  refine (ensures_held (only_note quiet (by split <;> rfl)) ht).seq fun _ t ht ↦ ?_
  have halts : (Request.revise Memory.halt : Request ν).MayHalt :=
    ⟨Memory.halt, .start 0 false, rfl, nofun⟩
  have pays : (revise Memory.halt : Routine ν _).Ensures (watch ν) (fun _ ↦ Clear) t := by
    refine ⟨fun _ ↦ ht, trivial, ?_⟩
    rintro - u ⟨_, rfl, rfl⟩
    exact ⟨ht, fun howes ↦ howes.2 halts⟩
  refine pays.seq fun _ u hu ↦ ?_
  have kicks : (call .kick : Routine ν _).Only Plain := only_request (plain_of_isQuiet rfl)
  exact (ensures_clear kicks hu).seq fun _ v hv ↦
    ensures_clear (only_request (plain_of_isQuiet rfl)) hv

variable [Quantity ν] (b : Board)

theorem ensures_checkTelemetry (hs : s.Clear) :
    (b.checkTelemetry : Routine ν _).Ensures (watch ν) (fun _ ↦ Clear) s := by
  have quiet (r : Request ν) (h : r.isQuiet) := plain_of_isQuiet h
  have books (f : Memory ν → Memory ν) (_ : Bookkeeping f) : Plain (.revise f) := ⟨id, nofun, nofun⟩
  refine (ensures_clear (Board.only_sample quiet books) hs).seq fun t u hu ↦ ?_
  refine (?_ : (b.noteAverages t).Ensures (watch ν) (fun _ ↦ Clear) u).seq fun _ v hv ↦ ?_
  · refine ensures_clear (p := b.noteAverages t) ?_ hu
    refine (only_request (quiet .memory rfl)).bind fun m ↦ ?_
    exact (only_request (quiet .tuningStage rfl)).bind fun stage ↦ only_note quiet rfl
  · have tells {w : Debt} (hw : w.Clear) : (do
        reviseStatus fun s ↦ { s with telemetry := some t, clock := t.clock }
        pure t : Routine ν _).Ensures (watch ν) (fun _ ↦ Clear) w :=
      ensures_clear ((only_request ⟨id, nofun, nofun⟩).bind fun _ ↦ trivial) hw
    split
    · exact (ensures_halt t.health hv.1).seq fun _ w hw ↦ tells hw
    · exact tells hv

/-- A guest who samples telemetry owes nothing in the end, and gave the lock back. -/
theorem ensures_sampleTelemetry (hs : s.Gone) :
    (b.sampleTelemetry : Routine ν _).Ensures (watch ν) (fun _ ↦ Gone) s := by
  have take : (acquire : Routine ν Unit).Ensures (watch ν) (fun _ ↦ Clear) s := by
    refine ⟨fun howes ↦ absurd howes hs.2, trivial, ?_⟩
    rintro - t ⟨_, rfl, rfl⟩
    exact ⟨trivial, not_owes_after hs.2 id⟩
  refine take.seq fun _ t ht ↦ (ensures_checkTelemetry b ht).seq fun _ u hu ↦ ?_
  have give : (release : Routine ν Unit).Ensures (watch ν) (fun _ ↦ Gone) u := by
    refine ⟨fun howes ↦ absurd howes hu.2, trivial, ?_⟩
    rintro - v ⟨_, rfl, rfl⟩
    exact ⟨id, not_owes_after hu.2 id⟩
  exact give.seq fun _ v hv ↦ hv

theorem ensures_purpose (purpose : Purpose) (hs : s.Gone) :
    (purpose.routine : Routine ν Unit).Ensures (watch ν) (fun _ ↦ Gone) s := by
  have plain {p : Routine ν Unit} (h : p.Only Plain) :
      p.Ensures (watch ν) (fun _ ↦ Gone) s :=
    (ensures_plain h ⟨eq_false hs.1, hs.2⟩).mono fun _ _ ht ↦ ⟨of_eq_false ht.1, ht.2⟩
  have kicks := only_kick (ν := ν) (fun _ ↦ plain_of_isQuiet) ⟨id, nofun, nofun⟩
  cases purpose with
  | telemetry b => exact (ensures_sampleTelemetry b hs).seq fun _ _ h ↦ h
  | kick => exact plain kicks
  | shutdown => exact plain ((only_request ⟨id, nofun, nofun⟩).bind fun _ ↦ kicks)
  | publish work => exact plain (only_request ⟨id, nofun, nofun⟩)
  | close => exact plain (only_request ⟨id, nofun, nofun⟩)

/-- The flag word is not written by a telemetry sample that does not halt the board. -/
theorem unwritten_of_run_checkTelemetry {talk : List (Answered ν)} {t : Telemetry ν}
    (run : Run b.checkTelemetry talk t) (unhalted : ∀ said ∈ talk, ¬said.request.MayHalt) :
    ∀ said ∈ talk, ¬said.request.Writes Reg.coreFlags := by
  intro said hs hwrites
  have clear : (afterAll ⟨True, False⟩ talk).Clear :=
    (ensures_checkTelemetry b ⟨trivial, id⟩).run_along run (along _ talk)
  exact clear.2 ((owes_afterAll_iff unhalted _).mpr (.inr ⟨said, hs, hwrites⟩))

end Ensures

end Debt

/-! ## Runs -/

section Runs

variable {R : Repertoire ν}

/-- What a guest asked and was answered. -/
def guestTalk (n : Nat) (es : List (Occurrence R)) : List (Answered ν) :=
  es.filterMap fun
    | .talks (.guest m) said => if m = n then some said else none
    | _ => none

theorem guestTalk_append (n : Nat) (es es' : List (Occurrence R)) :
    guestTalk n (es ++ es') = guestTalk n es ++ guestTalk n es' := List.filterMap_append

theorem guestTalk_arrives (m n : Nat) (purpose : Purpose) :
    guestTalk n [(.arrives m purpose : Occurrence R)] = [] := rfl

theorem guestTalk_own (n : Nat) (said : Answered ν) :
    guestTalk n [(.talks (.guest n) said : Occurrence R)] = [said] := by simp [guestTalk]

theorem guestTalk_others {n : Nat} {e : Occurrence R} (he : ¬e.IsOf n) : guestTalk n [e] = [] := by
  cases e with
  | begins | ends | arrives => rfl
  | talks party said =>
    cases party with
    | owner | kicker => rfl
    | guest m =>
      have hne : m ≠ n := he
      simp [guestTalk, hne]

theorem guestTalk_subset (n : Nat) (es : List (Occurrence R)) : guestTalk n es ⊆ talkOf es := by
  intro said hs
  obtain ⟨e, he, hsaid⟩ := List.mem_filterMap.mp hs
  split at hsaid
  · split at hsaid
    · cases hsaid
      exact List.mem_filterMap.mpr ⟨_, he, rfl⟩
    · cases hsaid
  · cases hsaid

/-- How a guest stands after some occurrences. -/
def Debt.ofGuest (n : Nat) (sh : Shared ν) (es : List (Occurrence R)) : Debt where
  held := sh.holder = some (.guest n)
  owes := (Debt.afterAll ⟨False, False⟩ (guestTalk n es)).owes

namespace Scene

variable [Quantity ν]

/-- What is left of the kicker does not write the flag word, and what is left of a guest halts the
board before the lock is given back if it does. -/
structure Pays (es : List (Occurrence R)) (s : Scene R) : Prop where
  kicker : s.kicker.Only Debt.Plain
  guests : ∀ n, (s.guests n).Ensures (Debt.watch ν) (fun _ ↦ Debt.Gone) (.ofGuest n s.shared es)

theorem pays_of_run {memory : Memory ν} {feed : Feed} {s : Scene R} {es : List (Occurrence R)}
    (run : Runs (.quiet memory feed) es s) : s.Pays es := by
  refine run.invariant ⟨trivial, fun n ↦ ⟨nofun, id⟩⟩ fun pre t e u _ hs paid ↦ ⟨?_, ?_⟩
  · exact hs.kicker_only paid.kicker
      (only_kicker (fun _ ↦ Debt.plain_of_isQuiet) ⟨id, nofun, nofun⟩ fun _ ↦ ⟨id, nofun, nofun⟩)
  · refine hs.guests_ensure paid.guests ?_ ?_ ?_
    · rintro n purpose rfl gone
      cases hs
      refine Debt.ensures_purpose purpose ?_
      simp only [Debt.ofGuest, guestTalk_append, guestTalk_arrives, List.append_nil]
      exact gone
    · rintro n r x rfl
      cases hs
      simp only [Debt.ofGuest, guestTalk_append, guestTalk_own, Debt.afterAll, List.foldl_append]
      exact congrArg (Debt.mk · _) (propext Shared.holder_after_own)
    · intro n he
      simp only [Debt.ofGuest, guestTalk_append, guestTalk_others he, List.append_nil,
        hs.guest_holds he]

/-- **Whoever holds the lock finds the flag word as it was left, or the board halted.** -/
theorem Runs.unwritten {memory : Memory ν} {feed : Feed} {s : Scene R}
    {before since : List (Occurrence R)} (run : Runs (.quiet memory feed) (before ++ since) s)
    (held : s.shared.holder = some .owner)
    (unhalted : ∀ said ∈ talkOf since, ¬said.request.MayHalt)
    (own : ∀ said ∈ ownTalk since, ¬said.request.Writes Reg.coreFlags) :
    ∀ said ∈ talkOf since, ¬said.request.Writes Reg.coreFlags := by
  intro said hs hwrites
  obtain ⟨e, he, hsaid⟩ := List.mem_filterMap.mp hs
  cases e with
  | begins | ends | arrives => cases hsaid
  | talks party said' =>
    cases hsaid
    cases party with
    | owner => exact own said (mem_ownTalk.mpr he) hwrites
    | kicker =>
      -- it never writes the flags, whatever became of the lock
      obtain ⟨pre, t, u, ht, hstep⟩ := run.step_of_mem (List.mem_append_right before he)
      cases hstep with
      | kicker hk _ => exact ((pays_of_run ht).kicker.of_steps hk).1.1 hwrites
    | guest n =>
      -- it still owes in the end, as nothing was halted, so it would be holding the lock
      have safe := ((pays_of_run run).guests n).safe fun _ gone howes ↦ absurd howes gone.2
      have owes : (Debt.ofGuest n s.shared (before ++ since)).owes := by
        have hunhalted : ∀ said ∈ guestTalk n since, ¬said.request.MayHalt :=
          fun said h ↦ unhalted said (guestTalk_subset n since h)
        have hsaid : said ∈ guestTalk n since :=
          List.mem_filterMap.mpr ⟨_, he, if_pos rfl⟩
        simp only [Debt.ofGuest, guestTalk_append, Debt.afterAll, List.foldl_append]
        exact (Debt.owes_afterAll_iff hunhalted _).mpr (.inr ⟨said, hsaid, hwrites⟩)
      cases held.symm.trans (safe owes)

end Scene

end Runs

end HashBoard
