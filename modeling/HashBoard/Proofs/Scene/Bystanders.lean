import HashBoard.Proofs.Board.Asks
import HashBoard.Proofs.Scene.Basic

/-!
# Guests and the kicker

Whatever the owner of a board does not ask is asked by guests and by the kicker, and they ask for
little: they read, they end a wait or a pause, they put work into the feed, they say that there is a
reason to look for other work, and a telemetry sample may halt the board. A halt happens only under
the access lock, which a guest gives back before leaving; so whoever holds the lock sees no halt but
its own (`Runs.bystander_asks`).
-/

namespace HashBoard

/-- What guests and the kicker ask. -/
inductive Modest {ν : Type} : Request ν → Prop
  | quiet {r : Request ν} : r.isQuiet → Modest r
  | coreFlags (value : Word) : Modest (.call (.write value Reg.coreFlags))
  | coreOff : Modest (.call (.write Reg.coreOff Reg.coreEnable))
  | powerOff : Modest (.call (.write Reg.dagPowerOff Reg.dagPower))
  | books {f : Memory ν → Memory ν} : Bookkeeping f → Modest (.revise f)
  | halt : Modest (.revise Memory.halt)
  | newWork : Modest (.revise fun m ↦ { m with newWork := true })
  | acquire : Modest .acquire
  | release : Modest .release
  | cancel : Modest .cancel
  | publish (work : Option Work) : Modest (.publish work)
  | close : Modest .closeFeed
  | nextChange (seen : Nat) : Modest (.nextChange seen)

/-- A request that may change whether the board is halted. -/
def Request.MayHalt {ν : Type} (r : Request ν) : Prop :=
  ∃ f m, r = .revise f ∧ (f m).halted ≠ m.halted

theorem not_mayHalt_of_isQuiet {ν : Type} {r : Request ν} (h : r.isQuiet) : ¬r.MayHalt := by
  rintro ⟨f, m, rfl, -⟩
  exact absurd h (by simp [Request.isQuiet])

theorem not_mayHalt_of_bookkeeping {ν : Type} {f : Memory ν → Memory ν} (h : Bookkeeping f) :
    ¬(Request.revise f).MayHalt := by
  rintro ⟨g, m, hg, hne⟩
  cases hg
  exact hne (h m).halted

/-! ## Holding the lock -/

/-- Whether a party holds the lock after a request of its own. -/
def heldAfter {ν : Type} (held : Prop) : Request ν → Prop
  | .acquire => True
  | .release => False
  | _ => held

theorem heldAfter_of_ne_release {ν : Type} {held : Prop} {r : Request ν} (h : held)
    (hr : r ≠ .release) : heldAfter held r := by
  cases r with
  | acquire => exact trivial
  | release => exact absurd rfl hr
  | _ => exact h

namespace Shared

variable {ν : Type} {sh : Shared ν} {p q : Party} {r : Request ν} {x : Reply r}

theorem holder_after_own : (sh.after p r).holder = some p ↔ heldAfter (sh.holder = some p) r := by
  cases r with
  | publish work =>
    rw [after]
    split <;> exact Iff.rfl
  | _ => simp [after, heldAfter]

/-- What others ask leaves the lock with whoever holds it. -/
theorem holder_after_other (hpq : p ≠ q) (h : sh.Permits r x) :
    (sh.after q r).holder = some p ↔ sh.holder = some p := by
  cases r with
  | acquire =>
    have hfree : sh.holder = none := h
    simp [after, hfree, hpq.symm]
  | release =>
    rw [after]
    split
    · rename_i hq
      simp [hq, hpq.symm]
    · exact Iff.rfl
  | publish work =>
    rw [after]
    split <;> exact Iff.rfl
  | _ => exact Iff.rfl

end Shared

/-- What a guest may do: a halt takes the lock. The account is whether the guest holds it. -/
def guestWatch (ν : Type) : Watch ν Prop where
  safe _ := True
  allows held r := Modest r ∧ (r.MayHalt → held)
  acts held r _ held' := held' = heldAfter held r
  drifts held held' := held = held'
  refl _ := rfl
  trans := Eq.trans
  safe_of_drifts _ h := h
  allows_of_drifts h hr := h ▸ hr

/-- What a guest asks while it holds the lock, or not while it does not, and what the kicker asks.
-/
def Harmless {ν : Type} (r : Request ν) : Prop :=
  Modest r ∧ ¬r.MayHalt ∧ r ≠ .acquire ∧ r ≠ .release

theorem harmless_of_isQuiet {ν : Type} {r : Request ν} (h : r.isQuiet) : Harmless r :=
  ⟨.quiet h, not_mayHalt_of_isQuiet h, fun e ↦ by simp [e, Request.isQuiet] at h,
    fun e ↦ by simp [e, Request.isQuiet] at h⟩

section Guests

open Routine

variable {ν α : Type}

/-- A routine that asks only for what is harmless keeps to the rules for guests. -/
theorem ensures_of_harmless {p : Routine ν α} (h : p.Only Harmless) (held : Prop) :
    p.Ensures (guestWatch ν) (fun _ held' ↦ held' = held) held := by
  refine h.ensures rfl (fun _ _ ↦ trivial) ?_ ?_
  · intro t r ht hr
    exact ⟨hr.1, fun hm ↦ absurd hm hr.2.1⟩
  · rintro t r x u rfl hr ⟨v, hv, hu⟩
    have hsame : heldAfter v r = v := by
      cases r with
      | acquire => exact absurd rfl hr.2.2.1
      | release => exact absurd rfl hr.2.2.2
      | _ => rfl
    exact (hu.trans hsame).trans hv.symm

theorem harmless_newWork : Harmless (.revise fun m : Memory ν ↦ { m with newWork := true }) := by
  refine ⟨.newWork, ?_, nofun, nofun⟩
  rintro ⟨f, m, hf, hne⟩
  cases hf
  exact hne rfl

section Kicking

variable {P : Request ν → Prop} (quiet : ∀ r, r.isQuiet → P r)
  (newWork : P (.revise fun m ↦ { m with newWork := true }))
include quiet newWork

theorem only_kick : (Board.kick : Routine ν Unit).Only P := by
  refine (only_request newWork).bind fun _ ↦ ?_
  refine (?_ : (Board.isBusy : Routine ν Bool).Only P).bind fun busy ↦ ?_
  · exact (only_request (quiet .memory rfl)).bind fun _ ↦ trivial
  · have wake : (request .wake : Routine ν Unit).Only P := only_request (quiet _ rfl)
    cases busy with
    | true => exact wake
    | false => exact (only_request (quiet (.call .kick) rfl)).bind fun _ ↦ wake

theorem only_kicker (next : ∀ seen, P (.nextChange seen)) (seen : Nat) :
    (Worker.kicker seen : Routine ν Unit).Only P := by
  refine only_repeating fun seen ↦ ?_
  refine (only_request (next seen)).bind fun x ↦ ?_
  cases x with
  | none => trivial
  | some latest => exact (only_kick quiet newWork).bind fun _ ↦ trivial

end Kicking

theorem harmless_nextChange (seen : Nat) : Harmless (.nextChange seen : Request ν) := by
  refine ⟨.nextChange seen, ?_, nofun, nofun⟩
  rintro ⟨f, m, hf, -⟩
  cases hf

/-- A routine that leaves the lock alone may halt the board while the lock is held. -/
theorem ensures_while_held {p : Routine ν α}
    (h : p.Only fun r ↦ Modest r ∧ r ≠ .acquire ∧ r ≠ .release) {held : Prop} (hheld : held) :
    p.Ensures (guestWatch ν) (fun _ held' ↦ held') held := by
  refine h.ensures hheld (fun _ _ ↦ trivial) (fun t r ht hr ↦ ⟨hr.1, fun _ ↦ ht⟩) ?_
  rintro t r x u ht hr ⟨v, rfl, rfl⟩
  exact heldAfter_of_ne_release ht hr.2.2

variable [Quantity ν]

theorem ensures_sampleTelemetry (b : Board) :
    (b.sampleTelemetry : Routine ν _).Ensures (guestWatch ν) (fun _ held ↦ ¬held) False := by
  have inside : (b.checkTelemetry : Routine ν _).Only fun r ↦
      Modest r ∧ r ≠ .acquire ∧ r ≠ .release := by
    refine Board.only_checkTelemetry ⟨fun r h ↦ ?_, fun f hf ↦ ⟨.books hf, nofun, nofun⟩,
      ⟨.halt, nofun, nofun⟩, fun value ↦ ⟨.coreFlags value, nofun, nofun⟩, ⟨.coreOff, nofun, nofun⟩,
      ⟨.powerOff, nofun, nofun⟩⟩ b
    have hr := harmless_of_isQuiet h
    exact ⟨hr.1, hr.2.2⟩
  have take {held : Prop} : (acquire : Routine ν Unit).Ensures (guestWatch ν)
      (fun _ held' ↦ held') held := by
    refine ⟨trivial, ⟨.acquire, ?_⟩, ?_⟩
    · rintro ⟨f, m, hf, -⟩
      cases hf
    · rintro - t ⟨v, -, rfl⟩
      exact trivial
  have give {held : Prop} : (release : Routine ν Unit).Ensures (guestWatch ν)
      (fun _ held' ↦ ¬held') held := by
    refine ⟨trivial, ⟨.release, ?_⟩, ?_⟩
    · rintro ⟨f, m, hf, -⟩
      cases hf
    · rintro - t ⟨v, -, rfl⟩
      exact id
  refine take.seq fun _ held hheld ↦ ?_
  refine (ensures_while_held inside hheld).seq fun t held _ ↦ ?_
  exact give.seq fun _ held hheld ↦ hheld

/-- A guest keeps to the rules, and leaves without the lock. -/
theorem ensures_purpose (purpose : Purpose) :
    (purpose.routine : Routine ν Unit).Ensures (guestWatch ν) (fun _ held ↦ ¬held) False := by
  have harmless {p : Routine ν Unit} (h : p.Only Harmless) :
      p.Ensures (guestWatch ν) (fun _ held ↦ ¬held) False :=
    (ensures_of_harmless h False).mono fun _ held hheld ↦ by simp [hheld]
  have kicks := only_kick (ν := ν) (fun _ ↦ harmless_of_isQuiet) harmless_newWork
  have plain {r : Request ν} (h : Modest r) (hf : ∀ f, r ≠ .revise f) (hl : r ≠ .acquire)
      (hu : r ≠ .release) : Harmless r := ⟨h, fun ⟨f, _, e, _⟩ ↦ hf f e, hl, hu⟩
  cases purpose with
  | telemetry b => exact (ensures_sampleTelemetry b).seq fun _ _ h ↦ h
  | kick => exact harmless kicks
  | shutdown =>
    refine harmless ((only_request ?_).bind fun _ ↦ kicks)
    exact plain .cancel nofun nofun nofun
  | publish work => exact harmless (only_request (plain (.publish work) nofun nofun nofun))
  | close => exact harmless (only_request (plain .close nofun nofun nofun))

end Guests

/-! ## Bystanders in a run -/

/-- What a guest does, coming included. -/
def Occurrence.IsOf {ν : Type} {R : Repertoire ν} (n : Nat) : Occurrence R → Prop
  | .arrives m _ | .talks (.guest m) _ => m = n
  | _ => False

namespace Scene

open Routine

variable {ν : Type} [Quantity ν] {R : Repertoire ν}

/-- What is left of the kicker asks only for what every kicker asks for. -/
theorem Step.kicker_only {P : Request ν → Prop} {s t : Scene R} {e : Occurrence R}
    (hs : Step s e t) (h : s.kicker.Only P) (starts : ∀ seen, (Worker.kicker seen).Only P) :
    t.kicker.Only P := by
  cases hs with
  | begins | ends | arrives | guest => exact h
  | @owner _ _ _ r =>
    cases r with
    | startKicker seen => exact starts seen
    | stopKicker => trivial
    | _ => exact h
  | kicker hk _ => exact (h.of_steps hk).2

/-- What is left of each guest keeps to a watch, if nobody else changes the account of a guest. -/
theorem Step.guests_ensure {S : Type} {W : Watch ν S} {Q : S → Prop} {s t : Scene R}
    {e : Occurrence R} {account account' : Nat → S} (hs : Step s e t)
    (h : ∀ n, (s.guests n).Ensures W (fun _ ↦ Q) (account n))
    (arrives : ∀ n purpose, e = .arrives n purpose → Q (account n) →
      purpose.routine.Ensures W (fun _ ↦ Q) (account' n))
    (own : ∀ n r x, e = .talks (.guest n) ⟨r, x⟩ → W.acts (account n) r x (account' n))
    (others : ∀ n, ¬e.IsOf n → account' n = account n) (n : Nat) :
    (t.guests n).Ensures W (fun _ ↦ Q) (account' n) := by
  cases hs with
  | begins | ends | owner | kicker =>
    rw [others n id]
    exact h n
  | arrives m purpose hend =>
    by_cases hn : m = n
    · subst hn
      simp only [Function.update_self]
      exact arrives m purpose rfl ((h m).of_ends hend)
    · simp only [Function.update_of_ne (Ne.symm hn), others n hn]
      exact h n
  | @guest m q r x hg _ =>
    by_cases hn : m = n
    · subst hn
      simp only [Function.update_self]
      exact (h m).of_steps hg (Watch.moves_of_acts (own m r x rfl))
    · simp only [Function.update_of_ne (Ne.symm hn), others n hn]
      exact h n

/-- Whether a guest holds the lock is up to the guest. -/
theorem Step.guest_holds {s t : Scene R} {e : Occurrence R} (hs : Step s e t) {n : Nat}
    (he : ¬e.IsOf n) :
    (t.shared.holder = some (.guest n)) = (s.shared.holder = some (.guest n)) := by
  cases hs with
  | begins | ends | arrives => rfl
  | owner _ _ hx => exact propext (Shared.holder_after_other nofun hx)
  | kicker _ hx => exact propext (Shared.holder_after_other nofun hx)
  | @guest m _ r x _ hx =>
    refine propext (Shared.holder_after_other ?_ hx)
    rintro ⟨⟩
    exact he rfl

/-- What is left of the kicker and of the guests keeps to the rules. -/
structure Orderly (s : Scene R) : Prop where
  kicker : s.kicker.Only Harmless
  guests : ∀ n, (s.guests n).Ensures (guestWatch ν) (fun _ held ↦ ¬held)
    (s.shared.holder = some (.guest n))

omit [Quantity ν] in
theorem orderly_quiet (memory : Memory ν) (feed : Feed) :
    (quiet memory feed : Scene R).Orderly where
  kicker := trivial
  guests _ := nofun

theorem Orderly.step {s t : Scene R} {e : Occurrence R} (h : s.Orderly) (hs : Step s e t) :
    t.Orderly where
  kicker := hs.kicker_only h.kicker
    (only_kicker (fun _ ↦ harmless_of_isQuiet) harmless_newWork harmless_nextChange)
  guests := by
    refine hs.guests_ensure h.guests ?_ ?_ fun n ↦ hs.guest_holds
    · -- a guest who left does not hold the lock, so the next one starts without it
      rintro n purpose rfl hfree
      cases hs
      rw [eq_false hfree]
      exact ensures_purpose purpose
    · rintro n r x rfl
      cases hs
      exact propext Shared.holder_after_own

theorem Runs.orderly {s₀ s : Scene R} {es : List (Occurrence R)} (run : Runs s₀ es s)
    (h : s₀.Orderly) : s.Orderly := by
  induction run with
  | nil => exact h
  | snoc _ hs ih => exact ih.step hs

/-- Whoever is not the owner asks for what is modest, and halts the board only under the lock. -/
theorem Orderly.bystander_asks {s t : Scene R} {p : Party} {r : Request ν} {x : Reply r}
    (h : s.Orderly) (hs : Step s (.talks p ⟨r, x⟩) t) (hp : p ≠ .owner) :
    Modest r ∧ (r.MayHalt → s.shared.holder = some p) := by
  cases hs with
  | owner => exact absurd rfl hp
  | kicker hk _ =>
    obtain ⟨hr, -⟩ := h.kicker.of_steps hk
    exact ⟨hr.1, fun hm ↦ absurd hm hr.2.1⟩
  | guest hg _ => exact (h.guests _).allows_of_steps hg

end Scene

end HashBoard
