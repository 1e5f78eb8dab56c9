import HashBoard.Proofs.Commit.EpochChange
import HashBoard.Proofs.Scene.Rehearsal

/-!
# A failed epoch change commits nothing

An epoch change can fail in many places, some of them with the lock given back and guests at work in
between. The statement is about every run: nobody writes the status word or starts the tuning during
a call that fails, and what is remembered of prepared epochs is what it was. Guests need no
hypothesis of their own, since nothing that they ask commits anything.

A shutdown is requested once and for all. The token that carries the request is not part of the
board, so that it keeps the request is a condition on the replies, `Latched`.
-/

namespace HashBoard

open Routine

variable {ν : Type}

/-! ## Requested shutdowns -/

/-- A request for shutdown. -/
def Request.isCancel : Request ν → Bool
  | .cancel => true
  | _ => false

/-- A reply that is right about a shutdown that was requested. -/
def Answered.Heeds (requested : Bool) : Answered ν → Prop
  | ⟨.isCancelled, told⟩ => requested → told = true
  | _ => True

/-- Once a shutdown was requested, everybody who looks for one is told of it. -/
def Latched : (requested : Bool) → List (Answered ν) → Prop
  | _, [] => True
  | requested, said :: talk =>
    said.Heeds requested ∧ Latched (requested || said.request.isCancel) talk

theorem Latched.told {requested told : Bool} {earlier later : List (Answered ν)}
    (h : Latched requested (earlier ++ ⟨.isCancelled, told⟩ :: later))
    (hrequested : requested ∨ ∃ said ∈ earlier, said.request.isCancel) : told = true := by
  induction earlier generalizing requested with
  | nil =>
    rcases hrequested with hrequested | ⟨said, hsaid, -⟩
    · exact h.1 hrequested
    · cases hsaid
  | cons said earlier ih =>
    refine ih h.2 ?_
    rcases hrequested with hrequested | ⟨said', hsaid, hcancel⟩
    · simp [hrequested]
    · rcases List.mem_cons.mp hsaid with rfl | hsaid
      · simp [hcancel]
      · exact .inr ⟨said', hsaid, hcancel⟩

instance (requested : Bool) (said : Answered ν) : Decidable (said.Heeds requested) :=
  decidable_of_iff
    (match said with
      | ⟨.isCancelled, told⟩ => !requested || told
      | _ => true : Bool) <| by
    unfold Answered.Heeds
    split <;> simp [Decidable.imp_iff_not_or]

def Latched.decide : (requested : Bool) → (talk : List (Answered ν)) →
    Decidable (Latched requested talk)
  | _, [] => .isTrue trivial
  | requested, said :: talk =>
    have := Latched.decide (requested || said.request.isCancel) talk
    inferInstanceAs (Decidable (said.Heeds requested ∧ Latched _ talk))

instance (requested : Bool) (talk : List (Answered ν)) : Decidable (Latched requested talk) :=
  Latched.decide requested talk

/-! ## Bystanders -/

theorem Modest.withholds {r : Request ν} (h : Modest r) : r.Withholds := by
  cases h with
  | quiet h => exact (Commit.aside_of_isQuiet h).1
  | coreFlags value => exact (Commit.aside_write (by decide)).1
  | coreOff | powerOff => exact (Commit.aside_write (by decide)).1
  | books h => exact (Commit.aside_books h).1
  | _ => exact ⟨id, nofun, fun _ ↦ rfl, fun _ ↦ rfl⟩

theorem Modest.phase {r : Request ν} (h : Modest r) (m : Memory ν) :
    (remembered m r).status.phase = m.status.phase := (h.follows m).status.phase

namespace Commit

variable [Quantity ν] {b : Board} {memory : Memory ν} {feed : Feed} {ctx : EpochContext}
  {before since : List (Occurrence (b.errands (ν := ν)))} {s : Scene (b.errands (ν := ν))}

/-- Where the owner commits nothing in a stretch of a run, nobody does. -/
theorem withheld_of_own (run : Scene.Runs (.quiet memory feed) (before ++ since) s)
    (own : Withheld (ownTalk since)) : Withheld (talkOf since) := by
  intro said hsaid
  rcases run.said_cases (Scene.orderly_quiet memory feed) hsaid with hown | hmodest
  · exact own said hown
  · exact hmodest.withholds

/-- The phase after a call that failed: a halted board leaves it alone, and otherwise nothing is
going on. -/
theorem phase_of_concludes (run : Scene.Runs (.quiet memory feed) (before ++ since) s)
    {e : BoardError} (h : Concludes (.error e) (ownTalk since)) (sh : Shared ν) :
    (sh.afterAll since).memory.status.phase =
      if e = .halted then sh.memory.status.phase else .idle := by
  have phase (earlier later : List (Occurrence (b.errands (ν := ν))))
      (hsince : since = earlier ++ later) (sh : Shared ν)
      (own : ∀ said ∈ ownTalk later, ∀ m, remembered m said.request = m) :
      (sh.afterAll later).memory.status.phase = sh.memory.status.phase := by
    refine Scene.memory_afterAll (fun m ↦ m.status.phase) sh later fun said hsaid m ↦ ?_
    rw [hsince, ← List.append_assoc] at run
    rcases run.said_cases (Scene.orderly_quiet memory feed) hsaid with hown | hmodest
    · rw [own said hown]
    · exact hmodest.phase m
  obtain ⟨-, ⟨rfl, hkept⟩ | ⟨hne, earlier, htalk⟩⟩ := h
  · rw [if_pos rfl]
    exact phase [] since rfl sh hkept
  · rw [if_neg hne]
    obtain ⟨pre, post, rfl, -, hpost⟩ := ownTalk_eq_append_cons htalk
    -- nobody enters a phase after the owner said that nothing is going on
    have hlast := phase (pre ++ [.talks .owner rests]) post (by simp)
      (sh.afterAll (pre ++ [.talks .owner rests])) (by simp [hpost])
    rw [List.append_cons, Shared.afterAll, List.foldl_append]
    refine hlast.trans ?_
    rw [Shared.afterAll_snoc]
    rfl

end Commit

/-- **A failed epoch change commits nothing.** While a call runs that ends with an error, nobody
writes the status word or starts the tuning; the epoch that is remembered and the one that onlookers
are told of are what they were; and nothing is said to be going on, unless the board was halted
before. Moreover, a call that looks for a shutdown after one was requested ends with an error; and
one that generated a dataset looked for a shutdown while it spread the dataset. -/
theorem failed_change_commits_nothing [Quantity ν] {b : Board} {memory : Memory ν} {feed : Feed}
    {es : List (Occurrence (b.errands (ν := ν)))} {ctx : EpochContext}
    {a : Except BoardError EpochOutcome} {s : Scene (b.errands (ν := ν))}
    (run : Scene.Runs (.quiet memory feed) (es ++ [.ends (.prepare ctx) a]) s) :
    ∃ before since : List (Occurrence (b.errands (ν := ν))),
      es = before ++ .begins (.prepare ctx) :: since ∧ (∀ e ∈ since, e.IsWithin) ∧
      (∀ e, a = .error e →
        (∀ said ∈ talkOf since, ¬said.request.Writes Reg.dagStatus ∧
          ∀ clock, said.request ≠ .startTune clock) ∧
        let earlier := (Shared.afterAll { memory, feed } before).memory
        s.shared.memory.lastEpoch = earlier.lastEpoch ∧
        s.shared.memory.status.epoch = earlier.status.epoch ∧
        s.shared.memory.status.phase = if e = .halted then earlier.status.phase else .idle) ∧
      (Latched false (talkOf es) → ∀ earlier told later,
        since = earlier ++ .talks .owner ⟨.isCancelled, told⟩ :: later →
        (∃ party, .talks party ⟨.cancel, ()⟩ ∈ before ++ .begins (.prepare ctx) :: earlier) →
        ∃ e, a = .error e) ∧
      (a = .ok .generated → ∃ earlier told later,
        since = earlier ++ .talks .owner ⟨.isCancelled, told⟩ :: later ∧
        ⟨.note .duplicating, ()⟩ ∈ ownTalk earlier) := by
  obtain ⟨before, since, rfl, hwithin, hrun⟩ := run.run_of_ends rfl
  have concludes := Commit.concludes_of_run b ctx hrun
  obtain ⟨t, upTo, last⟩ := run.of_snoc
  have hshared : s.shared = t.shared := last.shared_eq
  refine ⟨before, since, rfl, hwithin, ?_, ?_, ?_⟩
  · rintro e rfl
    rw [List.append_cons] at upTo
    have withheld := Commit.withheld_of_own upTo concludes.1
    refine ⟨fun said h ↦ ⟨(withheld said h).status, (withheld said h).tuning⟩, ?_⟩
    have hafter : (Shared.afterAll { memory, feed } (before ++ [.begins (.prepare ctx)] ++ since) :
        Shared ν) = (Shared.afterAll { memory, feed } before).afterAll since := by
      simp [Shared.afterAll, Shared.upon]
    rw [hshared, upTo.shared_eq]
    simp only [Scene.quiet, hafter]
    exact ⟨Scene.memory_afterAll Memory.lastEpoch _ since fun said h ↦ (withheld said h).lastEpoch,
      Scene.memory_afterAll (fun m ↦ m.status.epoch) _ since fun said h ↦ (withheld said h).epoch,
      Commit.phase_of_concludes upTo concludes _⟩
  · rintro latched earlier told later rfl ⟨party, hcancel⟩
    have htold : told = true := by
      rw [← List.cons_append, ← List.append_assoc, talkOf_append] at latched
      refine latched.told (.inr ⟨⟨.cancel, ()⟩, ?_, rfl⟩)
      exact List.mem_filterMap.mpr ⟨_, hcancel, rfl⟩
    cases a with
    | error e => exact ⟨e, rfl⟩
    | ok outcome =>
      refine absurd ?_ concludes.1
      rw [mem_ownTalk, htold]
      exact List.mem_append_right _ (.head _)
  · rintro rfl
    obtain ⟨earlier, told, later, htalk, hnote⟩ := concludes.2 rfl
    obtain ⟨pre, post, rfl, rfl, -⟩ := ownTalk_eq_append_cons htalk
    exact ⟨pre, told, post, rfl, hnote⟩

/-! ### A shutdown while the dataset is spread -/

namespace Commit

/-- A guest requests shutdown when one piece of the dataset was copied. -/
def shutdownRequested : Rehearsal (plainBoard.errands (ν := Rat)) :=
  .rehearse (.start 0 false) {} {}
    [.begins (.prepare plainEpoch), .goes .owner 78, .arrives 0 .shutdown, .goes (.guest 0) 10]

/-- The change is told of the shutdown before it copies the next piece. -/
def lateShutdown : Rehearsal (plainBoard.errands (ν := Rat)) :=
  shutdownRequested.hearsShutdown.go .owner 20

/-- The change ends because of the shutdown. -/
def isCancelled : Occurrence (plainBoard.errands (ν := Rat)) → Bool
  | .ends (.prepare _) (.error .cancelled) => true
  | _ => false

end Commit

/-- The guarantee for a change that is told of a shutdown while it spreads the dataset. -/
theorem withheld_of_lateShutdown : ∃ ctx, ∃ s : Scene (plainBoard.errands (ν := Rat)),
    ∃ before since : List (Occurrence (plainBoard.errands (ν := Rat))),
      Scene.Runs (.quiet (.start 0 false) {})
        (before ++ .begins (.prepare ctx) :: since ++
          [.ends (.prepare ctx) (.error .cancelled)]) s ∧
      Latched false (talkOf (before ++ .begins (.prepare ctx) :: since)) ∧
      (∃ said ∈ talkOf (before ++ .begins (.prepare ctx) :: since), said.request.isCancel) ∧
      (∀ said ∈ talkOf since, ¬said.request.Writes Reg.dagStatus) ∧
      s.shared.memory.status.phase = .idle := by
  have run : Scene.Runs (.quiet (.start 0 false) {}) Commit.lateShutdown.occurrences
      Commit.lateShutdown.scene :=
    Rehearsal.runs_go (Rehearsal.runs_hearsShutdown (Rehearsal.rehearse_runs ..))
  have ends : Commit.lateShutdown.lastPasses Commit.isCancelled := by decide +kernel
  have latched : Latched false (talkOf Commit.lateShutdown.before) := by decide +kernel
  have requested : ∃ said ∈ talkOf Commit.lateShutdown.before, said.request.isCancel := by
    decide +kernel
  obtain ⟨e, htest, hlast⟩ := Rehearsal.occurrences_of_lastPasses ends
  rw [hlast] at run
  unfold Commit.isCancelled at htest
  split at htest
  · obtain ⟨before, since, hbefore, -, hfailed, -, -⟩ := failed_change_commits_nothing run
    obtain ⟨hsaid, -, -, hphase⟩ := hfailed .cancelled rfl
    rw [hbefore] at run latched requested
    exact ⟨_, _, before, since, run, latched, requested, fun said h ↦ (hsaid said h).1, hphase⟩
  · cases htest

end HashBoard
