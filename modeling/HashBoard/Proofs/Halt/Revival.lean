import HashBoard.Proofs.Halt.Search
import HashBoard.Proofs.Scene.Rehearsal

/-!
# When a halt is undone

The errands of a board, with any number of guests beside them, and a halt anywhere: the halt is
undone exactly if the errand that was under way, or one that was begun afterwards, came to one of
the places where it takes the board into use.
-/

namespace HashBoard

open Routine Revival

variable {ν : Type} {R : Repertoire ν}

/-! ## Runs -/

theorem Shared.halted_after {sh : Shared ν} {p : Party} {r : Request ν} (h : ¬r.MayHalt) :
    (sh.after p r).memory.halted = sh.memory.halted := by
  cases r with
  | revise f =>
    by_contra hne
    exact h ⟨f, sh.memory, rfl, hne⟩
  | publish work =>
    rw [after]
    split <;> rfl
  | _ => rfl

theorem Modest.not_revives {r : Request ν} (h : Modest r) : ¬r.Revives := by
  cases h with
  | quiet h => exact (calm_of_isQuiet h).1
  | coreFlags value => exact (calm_of_addr (by decide) (by decide) (by decide)).1
  | coreOff => exact calm_coreOff.1
  | powerOff => exact calm_powerOff.1
  | _ => exact id

namespace Revival

/-- The account of a run. -/
def view (sh : Shared ν) (es : List (Occurrence R)) : Account where
  locked := (sh.afterAll es).holder = some .owner
  halted := (sh.afterAll es).memory.halted
  revived := Sometime Scene.RevivesHalted sh es
  advanced := Sometime Scene.AdvancesHalted sh es

theorem acts_view {sh : Shared ν} {es : List (Occurrence R)} {r : Request ν} {x : Reply r} :
    (watch ν).acts (view sh es) r x (view sh (es ++ [.talks .owner ⟨r, x⟩])) := by
  refine ⟨?_, fun hm ↦ ?_, propext sometime_snoc, propext sometime_snoc⟩
  · simp only [view, Shared.afterAll_snoc]
    exact propext Shared.holder_after_own
  · simp only [view, Shared.afterAll_snoc]
    exact congrArg (· = true) (Shared.halted_after hm)

theorem sync_of_drifts {s t : Account} (hd : (watch ν).drifts s t) (hs : s.Sync) : t.Sync := by
  rw [Account.Sync, hd.2.1, hd.2.2.1]
  exact hs

/-- Bystanders neither revive nor advance, and halt the board only while the lock is theirs. -/
theorem drifts_view [Quantity ν] {s₀ s t : Scene R} {es : List (Occurrence R)} {e : Occurrence R}
    (orderly : s₀.Orderly) (run : Scene.Runs s₀ es s) (hs : Scene.Step s e t) (he : e.IsOthers) :
    (watch ν).drifts (view s₀.shared es) (view s₀.shared (es ++ [e])) := by
  cases e with
  | begins | ends => exact he.elim
  | arrives n purpose =>
    simp only [view, Shared.afterAll_snoc, sometime_snoc]
    exact ⟨rfl, or_false _ , or_false _, fun _ ↦ rfl⟩
  | talks p said =>
    obtain ⟨r, x⟩ := said
    have hp : p ≠ .owner := he
    obtain ⟨hmodest, hhalt⟩ := (run.orderly orderly).bystander_asks hs hp
    have hx : s.shared.Permits r x := by cases hs <;> assumption
    have hshared := run.shared_eq
    have hadv : ¬Scene.AdvancesHalted s.shared (.talks p ⟨r, x⟩ : Occurrence R) := by
      cases p with
      | owner => exact absurd rfl hp
      | kicker | guest => exact id
    have hrev : ¬Scene.RevivesHalted s.shared (.talks p ⟨r, x⟩ : Occurrence R) :=
      fun h ↦ hmodest.not_revives h.2
    simp only [view, Shared.afterAll_snoc, sometime_snoc, ← hshared]
    refine ⟨propext (Shared.holder_after_other hp.symm hx), by simp [hrev], by simp [hadv], ?_⟩
    intro hlock
    refine congrArg (· = true) (Shared.halted_after fun hm ↦ hp ?_)
    rw [hhalt hm] at hlock
    exact Option.some.inj hlock

end Revival

/-- **A halt is undone exactly by an errand that goes on.** Wherever the owner does not hold the
lock, the board was powered, started or run again after a halt if and only if an errand came to a
place where it takes the board into use while the board was halted. -/
theorem revived_iff_advanced [Quantity ν] (b : Board) {memory : Memory ν} {feed : Feed}
    {es : List (Occurrence (b.errands (ν := ν)))} {s : Scene b.errands}
    (run : Scene.Runs (.quiet memory feed) es s) (free : s.shared.holder ≠ some .owner) :
    Sometime Scene.RevivesHalted { memory, feed } es ↔
      Sometime Scene.AdvancesHalted { memory, feed } es := by
  have hstanding : s.Standing (watch ν) Account.Sync (fun _ _ ↦ Account.Sync)
      (view { memory, feed } es) := by
    refine run.upkeep rfl Iff.rfl ?_ ?_ ?_ ?_ ?_ ?_
    · intro pre job _ hidle
      have hsame : Account.Sync (view { memory, feed } (pre ++ [.begins job])) := by
        simpa [view, Account.Sync, sometime_snoc, Scene.RevivesHalted, Scene.AdvancesHalted]
          using hidle
      cases job with
      | prepare ctx => exact ensures_prepareEpoch b ctx hsame
      | search work => exact ensures_search b work hsame
    · intro pre job a _ hpost
      simpa [view, Account.Sync, sometime_snoc, Scene.RevivesHalted, Scene.AdvancesHalted]
        using hpost
    · intro pre t u r x _ _ _ _
      exact acts_view
    · intro pre t u e hr hs _ he
      exact drifts_view (Scene.orderly_quiet memory feed) hr hs he
    · exact fun _ _ hd ha ↦ sync_of_drifts hd ha
    · exact fun _ _ _ _ hd ha ↦ sync_of_drifts hd ha
  have hfree : ¬(view { memory, feed } es).locked := by
    rw [run.shared_eq] at free
    exact free
  cases howner : s.owner with
  | none => exact hstanding.1 howner
  | some job => exact ((hstanding.2 job.1 job.2 howner).safe fun _ ↦ .inr).resolve_left hfree

/-! ### A halt while the light cache is derived -/

namespace Revival

/-- The epoch after the first. -/
def someEpoch : EpochContext where
  epoch := 1
  dagSize := 1_073_739_904
  lightSize := 16_776_896
  seed := .zero
  lightCache := none

/-- An epoch change waits for the light cache; meanwhile a guest samples telemetry on a board whose
stacks are not calibrated, which halts the board. Then the light cache is there, and the epoch
change goes on to the wait for the generator. -/
def haltedChange : Rehearsal (plainBoard.errands (ν := Rat)) :=
  .rehearse (.start 0 false) {}
    { scripts := [(Reg.cacheControl, [Reg.cacheDone])], holding := true }
    [.begins (.prepare someEpoch), .goes .owner 46, .arrives 0 (.telemetry plainBoard),
      .goes (.guest 0) 40, .goes .owner 25]

end Revival

/-- The equivalence at a halt that comes while the light cache is derived: the generator is started
on the halted board, and the phase says so. -/
theorem revived_of_haltedChange :
    haltedChange.scene.shared.holder ≠ some .owner ∧
      Sometime Scene.AdvancesHalted { memory := .start 0 false } haltedChange.occurrences ∧
      Sometime Scene.RevivesHalted { memory := .start 0 false } haltedChange.occurrences := by
  have free : haltedChange.scene.shared.holder ≠ some .owner := by decide +kernel
  have advanced : Sometime Scene.AdvancesHalted { memory := .start 0 false }
      haltedChange.occurrences := by decide +kernel
  exact ⟨free, advanced,
    (revived_iff_advanced plainBoard (Rehearsal.rehearse_runs ..) free).mpr advanced⟩

/-- A halt is not final: there is a run in which a halted board is started again. -/
theorem halt_not_final :
    ¬∀ (b : Board) (memory : Memory Rat) (es : List (Occurrence (b.errands (ν := Rat))))
      (s : Scene (b.errands (ν := Rat))), Scene.Runs (.quiet memory) es s →
      ¬Sometime Scene.RevivesHalted { memory } es := by
  intro final
  have run : Scene.Runs (.quiet (.start 0 false)) haltedChange.occurrences haltedChange.scene :=
    Rehearsal.rehearse_runs ..
  exact final _ _ _ _ run (by decide +kernel)

end HashBoard
