import HashBoard.Proofs.Once.EpochChange
import HashBoard.Proofs.Scene.Rehearsal

/-!
# An epoch is prepared once

Whatever errands and guests do, an epoch change for the epoch of the last change that succeeded is
skipped: it looks whether the board is halted, takes the lock, looks at the remembered epoch, and
gives the lock back, and that is all it does. And the generator is started at most as often as a
change is begun for another epoch than that.

Both come from one fact about runs: what is remembered is the epoch of the last success, or that of
the change under way.
-/

namespace HashBoard

open Routine

variable {ν : Type} [Quantity ν] {b : Board}

namespace Once

/-! ## The history of a board -/

/-- What the errands of a board came to. -/
structure History where
  /-- The epoch of the last change that succeeded. -/
  last : Option Word := none
  /-- How many changes were begun for another epoch than that. -/
  fresh : Nat := 0
  /-- The epoch of the change under way. -/
  current : Option Word := none

/-- The history after an occurrence. -/
def History.upon (h : History) : Occurrence (b.errands (ν := ν)) → History
  | .begins (.prepare ctx) =>
    { h with
      fresh := h.fresh + if h.last = some ctx.epoch then 0 else 1
      current := some ctx.epoch }
  | .begins (.search _) => { h with current := none }
  | .ends (.prepare ctx) (.ok _) => { h with last := some ctx.epoch, current := none }
  | .ends (.prepare _) (.error _) | .ends (.search _) _ => { h with current := none }
  | .arrives .. | .talks .. => h

/-- The history of some occurrences. -/
def history (es : List (Occurrence (b.errands (ν := ν)))) : History := es.foldl .upon {}

theorem history_snoc (es : List (Occurrence (b.errands (ν := ν))))
    (e : Occurrence (b.errands (ν := ν))) : history (es ++ [e]) = (history es).upon e := by
  rw [history, List.foldl_append]
  rfl

end Once

/-- The epoch of the last change that succeeded. -/
def lastPrepared (es : List (Occurrence (b.errands (ν := ν)))) : Option Word :=
  (Once.history es).last

/-- How many changes were begun for another epoch than that of the last success before them. -/
def freshChanges (es : List (Occurrence (b.errands (ν := ν)))) : Nat := (Once.history es).fresh

/-- How often the generator was started, be it with success or not. -/
def generatorStarts {R : Repertoire ν} (es : List (Occurrence R)) : Nat :=
  (talkOf es).countP (·.request.isStart)

omit [Quantity ν] in
theorem Modest.spares {r : Request ν} (h : Modest r) : Once.Spares r := by
  refine ⟨?_, fun m ↦ (h.follows m).lastEpoch⟩
  cases h with
  | quiet h => exact (Once.spares_of_isQuiet h).start
  | coreFlags value => exact (Once.spares_write (by decide)).start
  | _ => rfl

namespace Once

variable {memory : Memory ν} {feed : Feed}
  {es before since : List (Occurrence (b.errands (ν := ν)))} {s : Scene (b.errands (ν := ν))}

/-! ## The account of a run -/

/-- The account of a run. -/
def view (sh : Shared ν) (es : List (Occurrence (b.errands (ν := ν)))) : Account where
  lastEpoch := (sh.afterAll es).memory.lastEpoch
  starts := generatorStarts es
  allowed := freshChanges es
  done := lastPrepared es
  current := (history es).current

/-- How the account stands when an errand has ended. -/
def Done : (job : (b.errands (ν := ν)).Job) → b.errands.Answer job → Account → Prop
  | .prepare ctx, x => Ended ctx.epoch x
  | .search _, _ => Account.Idle

theorem view_snoc_talks {sh : Shared ν} {party : Party} {r : Request ν} {x : Reply r} :
    view sh (es ++ [.talks party ⟨r, x⟩]) =
      { view sh es with
        lastEpoch := (remembered (sh.afterAll es).memory r).lastEpoch
        starts := (view sh es).starts + if r.isStart then 1 else 0 } := by
  simp only [view, generatorStarts, freshChanges, lastPrepared, history_snoc, History.upon,
    Shared.afterAll_snoc, Shared.upon, Shared.memory_after, talkOf_snoc_talks, List.countP_append,
    List.countP_singleton]

/-- What is not said only makes history. -/
theorem view_snoc_silent (sh : Shared ν) (es : List (Occurrence (b.errands (ν := ν))))
    {e : Occurrence (b.errands (ν := ν))} (he : e.said? = none) :
    view sh (es ++ [e]) =
      { view sh es with
        allowed := ((history es).upon e).fresh
        done := ((history es).upon e).last
        current := ((history es).upon e).current } := by
  simp only [view, generatorStarts, freshChanges, lastPrepared, history_snoc,
    Shared.afterAll_snoc, Shared.upon_silent _ he, talkOf_snoc_silent es he]

/-- A change that is begun for another epoch than that of the last success may start the generator
once more. -/
theorem ensures_begun (sh : Shared ν) (ctx : EpochContext) (h : (view sh es).Idle) :
    (b.prepareEpoch ctx : Routine ν _).Ensures (watch ν) (Ended ctx.epoch)
      (view sh (es ++ [.begins (.prepare ctx)])) := by
  have hview := view_snoc_silent sh es (e := .begins (.prepare ctx)) rfl
  refine ensures_prepareEpoch b ctx ?_ fun hother ↦ ?_
  · rw [hview]
    exact ⟨rfl, h.last, Nat.le_trans h.starts (Nat.le_add_right _ _)⟩
  · rw [hview] at hother ⊢
    have hdone : (history es).last ≠ some ctx.epoch := fun hsame ↦ hother (h.last.trans hsame)
    have hroom : (History.upon (ν := ν) (b := b) (history es) (.begins (.prepare ctx))).fresh =
        (history es).fresh + 1 := by
      rw [History.upon, if_neg hdone]
    exact Nat.lt_of_le_of_lt h.starts (hroom ▸ Nat.lt_succ_self _)

/-- An errand that ended leaves the account idle. -/
theorem idle_of_done (sh : Shared ν) {job : (b.errands (ν := ν)).Job} {x : b.errands.Answer job}
    (h : Done job x (view sh es)) : (view sh (es ++ [.ends job x])).Idle := by
  rw [view_snoc_silent sh es rfl]
  cases job with
  | search work => exact ⟨h.starts, h.last⟩
  | prepare ctx =>
    cases x with
    | ok outcome =>
      have hended : Concluded ctx.epoch (view sh es) := h
      exact ⟨hended.starts, hended.last⟩
    | error e =>
      have hended : Spent ctx.epoch (view sh es) := h
      exact ⟨hended.starts, hended.last⟩

/-- Along every run the account is idle where the owner is, and what is left of an errand ensures
what the whole errand does. -/
theorem standing_of_runs (fresh : memory.lastEpoch = none)
    (run : Scene.Runs (.quiet memory feed) es s) :
    s.Standing (watch ν) Account.Idle Done (view { memory, feed } es) := by
  refine run.upkeep_alone _ (fun _ _ h ↦ h) rfl ⟨Nat.le_refl _, fresh⟩ ?_ ?_ ?_ ?_
  · rintro pre job - hidle
    cases job with
    | prepare ctx => exact ensures_begun _ ctx hidle
    | search work =>
      have only : (b.search work : Routine ν _).Only Spares :=
        Board.only_search roomToSearch_spares b
      have hview := view_snoc_silent { memory, feed } pre
        (e := .begins (.search work)) rfl
      refine ensures_kept ?_ Account.Idle.sound only
      rw [hview]
      exact ⟨hidle.starts, hidle.last⟩
  · rintro pre job x - hpost
    exact idle_of_done _ hpost
  · intro pre t u r x hr _ _ hx
    rw [hr.shared_eq] at hx
    refine ⟨?_, _, rfl, view_snoc_talks⟩
    cases r with
    | memory => exact congrArg Memory.lastEpoch hx
    | _ => trivial
  · intro pre t u e hr hs _ he
    cases e with
    | begins | ends => exact he.elim
    | arrives n purpose => exact view_snoc_silent _ _ rfl
    | talks party said =>
      obtain ⟨r, x⟩ := said
      obtain ⟨hmodest, -⟩ :=
        (hr.orderly (Scene.orderly_quiet memory feed)).bystander_asks hs he
      have hspares := hmodest.spares
      refine view_snoc_talks.trans ?_
      rw [hspares.start, hspares.epoch]
      rfl

/-- Everywhere in a run there were no more starts than there may be, and what is remembered is the
epoch of the last success or of the change under way. -/
theorem sound_of_runs (fresh : memory.lastEpoch = none)
    (run : Scene.Runs (.quiet memory feed) es s) : (view { memory, feed } es).Sound := by
  refine (standing_of_runs fresh run).safe Account.Idle.sound fun job x hdone ↦ ?_
  cases job with
  | search work => exact Account.Idle.sound hdone
  | prepare ctx =>
    cases x with
    | ok outcome => exact Concluded.sound hdone
    | error e => exact Spent.sound hdone

/-! ## Skipping -/

/-- What occurs within an errand makes no history. -/
theorem history_append_within (within : ∀ e ∈ since, e.IsWithin) :
    history (before ++ since) = history before := by
  rw [history, List.foldl_append]
  refine foldl_of_within (fun h e hwithin ↦ ?_) within _
  cases e with
  | begins | ends => exact hwithin.elim
  | arrives | talks => rfl

/-- During a change for the epoch of the last success that epoch is remembered. -/
theorem lastEpoch_of_within (fresh : memory.lastEpoch = none) {ctx : EpochContext}
    (run : Scene.Runs (.quiet memory feed) (before ++ .begins (.prepare ctx) :: since) s)
    (within : ∀ e ∈ since, e.IsWithin) (last : lastPrepared before = some ctx.epoch) :
    s.shared.memory.lastEpoch = some ctx.epoch := by
  have hhistory : history (before ++ .begins (.prepare ctx) :: since) =
      (history before).upon (.begins (.prepare ctx) : Occurrence (b.errands (ν := ν))) := by
    rw [List.append_cons, history_append_within within, history_snoc]
  have hsound := (sound_of_runs fresh run).last
  rw [run.shared_eq]
  simp only [view, lastPrepared, hhistory] at hsound
  rcases hsound with hdone | ⟨epoch, hcurrent, hlast⟩
  · exact hdone.trans last
  · exact hlast.trans hcurrent.symm

/-- What a change that is skipped asks and is answered. -/
def visit (m m' : Memory ν) : List (Answered ν) :=
  [⟨.memory, m⟩, ⟨.acquire, ()⟩, ⟨.memory, m'⟩, ⟨.release, ()⟩]

end Once

/-- The board was found not to be halted; while nobody looked, it is not. -/
def FoundRunning (m : Memory ν) : List (Answered ν) → Prop
  | ⟨.memory, found⟩ :: _ => found.halted = false
  | _ => m.halted = false

namespace Once

variable {memory : Memory ν} {feed : Feed} {before since : List (Occurrence (b.errands (ν := ν)))}
  {s : Scene (b.errands (ν := ν))}

omit [Quantity ν] in
theorem isLastEpoch_bind {α : Type} (epoch : Word) (f : Bool → Routine ν α) :
    (Board.isLastEpoch epoch).bind f = .ask .acquire fun _ ↦ .ask .memory fun m ↦
      .ask .release fun _ ↦ f (m.lastEpoch = some epoch) := rfl

theorem run_visit {ctx : EpochContext} {m m' : Memory ν} (running : m.halted = false)
    (last : m'.lastEpoch = some ctx.epoch) :
    Run (b.prepareEpoch ctx) (visit m m') (.ok .skipped) := by
  rw [Board.prepareEpoch_eq, visit]
  refine run_ask_iff.mpr ⟨m, _, rfl, ?_⟩
  rw [if_neg (by simp [running]), isLastEpoch_bind]
  refine run_ask_iff.mpr ⟨(), _, rfl, ?_⟩
  refine run_ask_iff.mpr ⟨m', _, rfl, ?_⟩
  refine run_ask_iff.mpr ⟨(), _, rfl, ?_⟩
  rw [if_pos (decide_eq_true last)]
  exact run_done_iff.mpr ⟨rfl, rfl⟩

/-- A change for the remembered epoch is somewhere in its visit, which it can finish once it has the
lock or the lock is free. -/
theorem visit_of_path {ctx : EpochContext} {talk : List (Answered ν)}
    {p : Routine ν (Except BoardError EpochOutcome)} (hp : Path (b.prepareEpoch ctx) talk p)
    (told : ∀ m, ⟨.memory, m⟩ ∈ talk → m.lastEpoch = some ctx.epoch) {sh : Shared ν}
    (last : sh.memory.lastEpoch = some ctx.epoch) (running : FoundRunning sh.memory talk) :
    ∃ m m' rest, visit m m' = talk ++ rest ∧ m.halted = false ∧ m'.lastEpoch = some ctx.epoch ∧
      (⟨.acquire, ()⟩ ∈ talk ∨ sh.holder = none → sh.Tells rest) := by
  rw [Board.prepareEpoch_eq] at hp
  cases hp with
  | nil =>
    refine ⟨sh.memory, sh.memory, _, rfl, running, last, fun free ↦ ?_⟩
    exact ⟨rfl, free.resolve_left List.not_mem_nil, rfl, trivial, trivial⟩
  | @cons _ _ _ _ m talk hs hp =>
    obtain ⟨rfl, rfl⟩ := steps_ask hs
    have hm : m.halted = false := running
    rw [if_neg (by simp [hm]), isLastEpoch_bind] at hp
    cases hp with
    | nil =>
      refine ⟨m, sh.memory, _, rfl, hm, last, fun free ↦ ?_⟩
      exact ⟨free.resolve_left (by simp), rfl, trivial, trivial⟩
    | cons hs hp =>
      obtain ⟨rfl, rfl⟩ := steps_ask hs
      cases hp with
      | nil => exact ⟨m, sh.memory, _, rfl, hm, last, fun _ ↦ ⟨rfl, trivial, trivial⟩⟩
      | @cons _ _ _ _ m' talk hs hp =>
        obtain ⟨rfl, rfl⟩ := steps_ask hs
        have hm' : m'.lastEpoch = some ctx.epoch := told m' (.tail _ (.tail _ (.head _)))
        cases hp with
        | nil => exact ⟨m, m', _, rfl, hm, hm', fun _ ↦ ⟨trivial, trivial⟩⟩
        | cons hs hp =>
          obtain ⟨rfl, rfl⟩ := steps_ask hs
          rw [if_pos (decide_eq_true hm')] at hp
          cases hp with
          | nil => exact ⟨m, m', [], rfl, hm, hm', fun _ ↦ trivial⟩
          | cons hs _ => exact absurd hs not_steps_done

omit [Quantity ν] in
/-- What a visit asks is no call and changes nothing that is remembered. -/
theorem visit_quiet {m m' : Memory ν} {said : Answered ν} (h : said ∈ visit m m') :
    (∀ c, said.request ≠ .call c) ∧ ∀ m : Memory ν, remembered m said.request = m := by
  simp only [visit, List.mem_cons, List.not_mem_nil, or_false] at h
  rcases h with rfl | rfl | rfl | rfl <;> exact ⟨nofun, fun _ ↦ rfl⟩

/-- An epoch change that was begun after some occurrences for the epoch of the last success, as it
stands after some more. -/
structure Skips (sh : Shared ν) (before : List (Occurrence (b.errands (ν := ν))))
    (ctx : EpochContext) (since : List (Occurrence (b.errands (ν := ν))))
    (s : Scene (b.errands (ν := ν))) : Prop where
  /-- It made no call. -/
  silent : ∀ said ∈ ownTalk since, ∀ c, said.request ≠ .call c
  /-- It changed nothing that is remembered, neither the status nor whether the board is busy. -/
  untouched : ∀ said ∈ ownTalk since, ∀ m : Memory ν, remembered m said.request = m
  /-- Unless somebody else has the lock, it can go on by itself and skip. -/
  returns : ⟨.acquire, ()⟩ ∈ ownTalk since ∨ s.shared.holder = none →
    ∃ rest : List (Answered ν), ∃ t, rest.length ≤ 4 ∧ Scene.Runs { shared := sh }
      (before ++ .begins (.prepare ctx) :: since ++ rest.map (.talks .owner) ++
        [.ends (.prepare ctx) (.ok .skipped)]) t
  /-- It ends in no other way. -/
  answer : ∀ a t, Scene.Step s (.ends (.prepare ctx) a) t → a = .ok .skipped

theorem skips_of_last (fresh : memory.lastEpoch = none) {ctx : EpochContext}
    (run : Scene.Runs (.quiet memory feed) (before ++ .begins (.prepare ctx) :: since) s)
    (within : ∀ e ∈ since, e.IsWithin) (last : lastPrepared before = some ctx.epoch)
    (running : FoundRunning s.shared.memory (ownTalk since)) :
    Skips { memory, feed } before ctx since s := by
  obtain ⟨p, howner, hpath⟩ := run.owner_of_begun within
  have told : ∀ m, ⟨.memory, m⟩ ∈ ownTalk since → m.lastEpoch = some ctx.epoch := by
    intro m hm
    have run' := run
    rw [List.append_cons] at run'
    obtain ⟨pre, ⟨earlier, rfl⟩, hpre, hpermits⟩ := run'.permits_of_mem hm
    obtain ⟨t, ht⟩ := run'.of_prefix hpre
    have hearlier : earlier <+: since := (List.prefix_append_right_inj _).mp hpre
    rw [← List.append_cons] at ht hpermits
    rw [show m = _ from hpermits]
    have within' : ∀ e ∈ earlier, e.IsWithin := fun e he ↦ within e (hearlier.subset he)
    exact ht.shared_eq ▸ lastEpoch_of_within fresh ht within' last
  have now := lastEpoch_of_within fresh run within last
  obtain ⟨m, m', rest, hvisit, hm, hm', htells⟩ := visit_of_path hpath told now running
  have hquiet {said : Answered ν} (hsaid : said ∈ ownTalk since) :=
    visit_quiet (hvisit ▸ List.mem_append_left rest hsaid : said ∈ visit m m')
  have hrun : Run p rest (.ok .skipped) :=
    hpath.run_of_append (hvisit ▸ run_visit hm hm')
  constructor
  · exact fun said hsaid ↦ (hquiet hsaid).1
  · exact fun said hsaid ↦ (hquiet hsaid).2
  · intro free
    obtain ⟨q, hq, hends⟩ := hrun
    obtain ⟨t, ht, htowner, -⟩ := run.of_path howner hq (htells free)
    refine ⟨rest, _, ?_, ht.snoc (.ends htowner hends)⟩
    have hrest : rest <:+ visit m m' := hvisit ▸ List.suffix_append _ rest
    exact hrest.length_le
  · intro a t hs
    cases hs with
    | ends howner' he =>
      rw [howner] at howner'
      cases howner'
      exact hrun.ends_unique he

end Once

/-- **An epoch is prepared once.** Whatever errands and guests do and whatever the board answers,
the generator is started at most as often as an epoch change is begun for another epoch than that of
the last change that succeeded. A change for that epoch, begun on a board that is not halted, makes
no call, changes nothing that is remembered, and is skipped. -/
theorem prepared_once (b : Board) {memory : Memory ν} {feed : Feed}
    (fresh : memory.lastEpoch = none) {es : List (Occurrence (b.errands (ν := ν)))}
    {s : Scene (b.errands (ν := ν))} (run : Scene.Runs (.quiet memory feed) es s) :
    generatorStarts es ≤ freshChanges es ∧
    ∀ before ctx since, es = before ++ .begins (.prepare ctx) :: since →
      (∀ e ∈ since, e.IsWithin) → lastPrepared before = some ctx.epoch →
      FoundRunning s.shared.memory (ownTalk since) →
      Once.Skips { memory, feed } before ctx since s := by
  refine ⟨(Once.sound_of_runs fresh run).starts, ?_⟩
  rintro before ctx since rfl within last running
  exact Once.skips_of_last fresh run within last running

/-! ### A search and a failed change in between -/

namespace Once

/-- An epoch with a light cache. -/
def cachedEpoch : EpochContext := { plainEpoch with lightCache := some ⟨#[0, 0, 0, 0]⟩ }

/-- An epoch is prepared; a search for it is stopped by a kick; then a change to another epoch fails
for want of a light cache. -/
def interlude : Rehearsal (uploadBoard.errands (ν := Rat)) :=
  .rehearse (.start 0 false) {} { SimulatedBoard.healthy with brokenMove := some 0 }
    [.begins (.prepare cachedEpoch), .goes .owner 300, .begins (.search plainWork),
      .goes .owner 60, .arrives 0 .kick, .goes (.guest 0) 5, .goes .owner 60,
      .begins (.prepare { plainEpoch with epoch := 2 }), .goes .owner 300]

end Once

/-- The guarantee at a change for the prepared epoch after that: there were two changes for another
epoch than the prepared one, and the generator was started once. -/
theorem skips_of_interlude :
    generatorStarts Once.interlude.occurrences = 1 ∧ freshChanges Once.interlude.occurrences = 2 ∧
    ∃ s, Scene.Runs (.quiet (.start 0 false) {})
        (Once.interlude.occurrences ++ [.begins (.prepare Once.cachedEpoch)]) s ∧
      Once.Skips { memory := .start 0 false, feed := {} } Once.interlude.occurrences
        Once.cachedEpoch [] s := by
  have run : Scene.Runs (.quiet (.start 0 false) {}) Once.interlude.occurrences
      Once.interlude.scene := Rehearsal.rehearse_runs ..
  obtain ⟨nobody, running, last, starts, changes⟩ :
      Once.interlude.scene.owner.isNone ∧ Once.interlude.scene.shared.memory.halted = false ∧
      lastPrepared Once.interlude.occurrences = some Once.cachedEpoch.epoch ∧
      generatorStarts Once.interlude.occurrences = 1 ∧
      freshChanges Once.interlude.occurrences = 2 := by decide +kernel
  have begun := run.snoc (.begins (R := uploadBoard.errands) (.prepare Once.cachedEpoch)
    (Option.isNone_iff_eq_none.mp nobody))
  refine ⟨starts, changes, _, begun, ?_⟩
  exact (prepared_once uploadBoard rfl begun).2 _ _ [] rfl (List.forall_mem_nil _) last running

end HashBoard
