import Mathlib.Data.List.Chain
import Mathlib.Data.List.Destutter
import HashBoard.Proofs.Phases.EpochChange
import HashBoard.Proofs.Scene.Rehearsal

/-!
# The phases follow the diagram

Whatever errands and guests do and whatever the board answers, the phases that onlookers are told
form a path of the diagram, a change that enters it leaves it at the right place, and the requests
that belong in a single phase are made in that phase.

One step keeps to the diagram because what is left of the owner's errand keeps to the watch, and
because others tell onlookers nothing of epochs (`Phases.leads_of_step`). The path is then put
together along the run (`Phases.isChain_phases`).
-/

namespace HashBoard

open Routine

variable {ν : Type}

/-- Between changes onlookers are told a phase between changes, and the epoch that is remembered. -/
structure Memory.Settled (m : Memory ν) : Prop where
  phase : m.status.phase.IsRest
  epoch : m.status.epoch = m.lastEpoch

/-- The phase that onlookers are told after some occurrences. -/
def phaseAfter {R : Repertoire ν} (sh : Shared ν) (es : List (Occurrence R)) : EpochPhase :=
  (sh.afterAll es).memory.status.phase

/-- The phases that onlookers are told, at first and after each occurrence. -/
def phases {R : Repertoire ν} (sh : Shared ν) (es : List (Occurrence R)) : List EpochPhase :=
  (es.scanl Shared.upon sh).map (·.memory.status.phase)

variable {R : Repertoire ν} {sh : Shared ν}

theorem phases_snoc (es : List (Occurrence R)) (e : Occurrence R) :
    phases sh (es ++ [e]) = phases sh es ++ [phaseAfter sh (es ++ [e])] := by
  rw [phases, List.scanl_append, List.map_append, phaseAfter, Shared.afterAll_snoc]
  rfl

theorem getLast?_phases (es : List (Occurrence R)) :
    (phases sh es).getLast? = some (phaseAfter sh es) := by
  rw [phases, List.getLast?_map, List.getLast?_scanl]
  rfl

/-- How a change ends that found the board in some phase, by what its owner asked. -/
structure EndsIn (found : EpochPhase) (talk : List (Answered ν))
    (a : Except BoardError EpochOutcome) (p : EpochPhase) : Prop where
  /-- If it entered its first phase, it ends in the last one exactly if it succeeds, and in the idle
  one exactly if it fails. -/
  entered : ⟨.note (.phase .preparing), ()⟩ ∈ talk →
    (p = .done ↔ ∃ outcome, a = .ok outcome) ∧ (p = .idle ↔ ∃ e, a = .error e)
  /-- Otherwise it was skipped, or refused by a halted board, and the phase is as it was. -/
  stayed : ⟨.note (.phase .preparing), ()⟩ ∉ talk →
    p = found ∧ (a = .ok .skipped ∨ a = .error .halted)

/-- The account of a change that has ended tells which phase it ended in. -/
theorem Phases.Ended.endsIn {s : Phases.Account} {found : EpochPhase} {talk : List (Answered ν)}
    {a : Except BoardError EpochOutcome} (h : Phases.Ended a s)
    (hstage : s.stage = (Phases.Stage.begun found).along talk) : EndsIn found talk a s.phase := by
  constructor
  · intro hentry
    rw [Phases.along_of_mem found hentry] at hstage
    cases h with
    | refused hfound => cases hfound.stage.symm.trans hstage
    | closed hclosed =>
      rw [hclosed.phase]
      cases a <;> simp [Phases.closing]
  · intro hentry
    rw [Phases.along_of_not_mem found hentry] at hstage
    cases h with
    | closed hclosed => cases hclosed.stage.symm.trans hstage
    | refused hfound ha =>
      cases hfound.stage.symm.trans hstage
      exact ⟨hfound.phase, ha⟩

variable [Quantity ν] {b : Board}

/-- How the phases follow the diagram along a run. -/
structure FollowsDiagram (strategy : CacheStrategy) (sh : Shared ν)
    (es : List (Occurrence (b.errands (ν := ν)))) (s : Scene (b.errands (ν := ν))) : Prop where
  /-- The phases that are told form a path of the diagram. -/
  path : (phases sh es).IsChain fun p q ↦ p = q ∨ p.Leads strategy q
  /-- What belongs in a single phase is asked in that phase. -/
  own : ∀ pre party said post, es = pre ++ .talks party said :: post →
    ∀ q ∈ said.request.ownPhase?, phaseAfter sh pre = q
  /-- A change that ended did so in the right phase. -/
  ends : ∀ before (ctx : EpochContext) since (a : Except BoardError EpochOutcome) later,
    es = before ++ .begins (Errand.prepare ctx) :: since ++ .ends (Errand.prepare ctx) a :: later →
    (∀ e ∈ since, e.IsWithin) →
    EndsIn (phaseAfter sh before) (ownTalk since) a
      (phaseAfter sh (before ++ .begins (Errand.prepare ctx) :: since))
  /-- Where no change is under way, onlookers are told the epoch that is remembered. -/
  outside : (∀ ctx p, s.owner ≠ some ⟨.prepare ctx, p⟩) → s.shared.memory.Settled

namespace Phases

variable {memory : Memory ν} {feed : Feed}
  {es before since : List (Occurrence (b.errands (ν := ν)))}
  {s t : Scene (b.errands (ν := ν))} {stage : Stage}

/-! ## The stage along a run -/

/-- The stage after an occurrence. -/
def Stage.after (sh : Shared ν) (stage : Stage) : Occurrence (b.errands (ν := ν)) → Stage
  | .begins (.prepare _) => .begun sh.memory.status.phase
  | .begins (.search _) | .ends .. => .none
  | .talks .owner said => stage.upon said.request
  | .talks .. | .arrives .. => stage

/-- The stage after some occurrences. -/
def stageAfter : Shared ν → Stage → List (Occurrence (b.errands (ν := ν))) → Stage
  | _, stage, [] => stage
  | sh, stage, e :: es => stageAfter (sh.upon e) (stage.after sh e) es

theorem stageAfter_append :
    stageAfter sh stage (before ++ since) =
      stageAfter (sh.afterAll before) (stageAfter sh stage before) since := by
  induction before generalizing sh stage with
  | nil => rfl
  | cons e before ih => exact ih

theorem stageAfter_snoc (e : Occurrence (b.errands (ν := ν))) :
    stageAfter sh stage (es ++ [e]) = (stageAfter sh stage es).after (sh.afterAll es) e :=
  stageAfter_append

/-- Within an errand only what the owner asks makes a difference. -/
theorem stageAfter_within (within : ∀ e ∈ since, e.IsWithin) :
    stageAfter sh stage since = stage.along (ownTalk since) := by
  induction since generalizing sh stage with
  | nil => rfl
  | cons e since ih =>
    obtain ⟨hwithin, hrest⟩ := List.forall_mem_cons.mp within
    cases e with
    | begins | ends => exact hwithin.elim
    | arrives => exact ih hrest
    | talks party said => cases party <;> exact ih hrest

/-- The stage within a change. -/
theorem stage_of_begun {ctx : EpochContext} (within : ∀ e ∈ since, e.IsWithin) :
    stageAfter sh stage (before ++ .begins (.prepare ctx) :: since) =
      (Stage.begun (phaseAfter sh before)).along (ownTalk since) := by
  rw [stageAfter_append, stageAfter, stageAfter_within within]
  rfl

/-! ## The account of a run -/

/-- The account of a run. -/
def view (sh : Shared ν) (es : List (Occurrence (b.errands (ν := ν)))) : Account :=
  .of (sh.afterAll es).memory (stageAfter sh .none es)

/-- How the account stands between errands. -/
structure Idle (s : Account) : Prop extends s.Settled where
  stage : s.stage = .none

/-- How the account stands when an errand has ended. -/
def Done : (job : (b.errands (ν := ν)).Job) → b.errands.Answer job → Account → Prop
  | .prepare _, x => Ended x
  | .search _, _ => Idle

theorem view_snoc (e : Occurrence (b.errands (ν := ν))) :
    view sh (es ++ [e]) = .of ((sh.afterAll es).upon e).memory
      ((stageAfter sh .none es).after (sh.afterAll es) e) := by
  rw [view, Shared.afterAll_snoc, stageAfter_snoc]

theorem view_snoc_own {said : Answered ν} :
    view sh (es ++ [.talks .owner said]) = .of (remembered (sh.afterAll es).memory said.request)
      ((stageAfter sh .none es).upon said.request) := by
  rw [view_snoc, Shared.upon, Shared.memory_after]
  rfl

/-- What bystanders do leaves what onlookers are told of epochs. -/
theorem view_snoc_others {e : Occurrence (b.errands (ν := ν))} (he : e.IsOthers)
    (h : (sh.afterAll es).memory.Follows ((sh.afterAll es).upon e).memory) :
    view sh (es ++ [e]) = view sh es := by
  have hstage : (stageAfter sh .none es).after (sh.afterAll es) e = stageAfter sh .none es := by
    cases e with
    | begins | ends => exact he.elim
    | arrives => rfl
    | talks party said =>
      cases party with
      | owner => exact absurd rfl he
      | kicker | guest => rfl
  rw [view_snoc, hstage, view, Account.of, h.status.phase, h.status.epoch, h.lastEpoch]
  rfl

/-- An errand that ended leaves the account idle. -/
theorem idle_of_done {job : (b.errands (ν := ν)).Job} {x : b.errands.Answer job}
    (h : Done job x (view sh es)) : Idle (view sh (es ++ [.ends job x])) := by
  rw [view_snoc]
  cases job with
  | search work => exact ⟨⟨h.phase, h.told⟩, rfl⟩
  | prepare ctx =>
    have hended : Ended x (view sh es) := h
    cases hended with
    | refused hfound => exact ⟨⟨hfound.phase ▸ hfound.rest, hfound.told⟩, rfl⟩
    | closed hclosed =>
      refine ⟨⟨hclosed.phase.symm ▸ ?_, hclosed.told⟩, rfl⟩
      cases x with
      | ok outcome => exact .inr rfl
      | error e => exact .inl rfl

/-- Along every run the account is idle where the owner is, and what is left of an errand ensures
what the whole errand does. -/
theorem standing_of_runs (settled : memory.Settled) (run : Scene.Runs (.quiet memory feed) es s) :
    s.Standing (watch b.settings.cacheStrategy ν) Idle Done (view { memory, feed } es) := by
  refine run.upkeep_alone _ (fun _ _ h ↦ h) rfl ⟨⟨settled.phase, settled.epoch⟩, rfl⟩ ?_ ?_ ?_ ?_
  · rintro pre job - hidle
    rw [view_snoc]
    cases job with
    | prepare ctx => exact ensures_prepareEpoch b ctx ⟨rfl, hidle.told, rfl, hidle.phase⟩
    | search work =>
      have settled : Idle (.of ({ memory, feed : Shared ν }.afterAll pre).memory .none) :=
        ⟨⟨hidle.phase, hidle.told⟩, rfl⟩
      exact ensures_kept settled (fun _ ↦ settled.toSettled)
        (Board.only_search roomToSearch_spares b)
  · rintro pre job x - hpost
    exact idle_of_done hpost
  · intro pre t u r x _ _ _ _
    exact ⟨_, _, rfl, view_snoc_own⟩
  · intro pre t u e hr hs _ he
    have hfollows := hs.follows (hr.orderly (Scene.orderly_quiet memory feed)) he
    rw [hs.shared_eq, hr.shared_eq] at hfollows
    exact view_snoc_others he hfollows

/-! ## One step -/

/-- The phase does not change where nothing is said. -/
theorem phaseAfter_silent {e : Occurrence (b.errands (ν := ν))} (he : e.said? = .none) :
    phaseAfter sh (es ++ [e]) = phaseAfter sh es := by
  rw [phaseAfter, Shared.afterAll_snoc, Shared.upon_silent _ he, phaseAfter]

theorem phaseAfter_talks {party : Party} {said : Answered ν} :
    phaseAfter sh (es ++ [.talks party said]) =
      (remembered (sh.afterAll es).memory said.request).status.phase := by
  rw [phaseAfter, Shared.afterAll_snoc, Shared.upon, Shared.memory_after]

/-- What is asked in a run may be asked in the phase there is. -/
theorem fits_of_runs (settled : memory.Settled) {party : Party} {said : Answered ν}
    (run : Scene.Runs (.quiet memory feed) es s) (hs : Scene.Step s (.talks party said) t) :
    Fits b.settings.cacheStrategy (phaseAfter { memory, feed } es) said.request := by
  by_cases hparty : party = .owner
  · subst hparty
    have standing := standing_of_runs settled run
    cases hs with
    | owner howner hp hx => exact (standing.2 _ _ howner).allows_of_steps hp
  · obtain ⟨hmodest, -⟩ := (run.orderly (Scene.orderly_quiet memory feed)).bystander_asks
      (r := said.request) hs hparty
    constructor
    · intro m hm
      exact .inl ((hmodest.follows m).status.phase.trans hm)
    · rw [Request.ownPhase?_of_modest hmodest]
      nofun

/-- A step keeps the phase or goes along an arrow. -/
theorem leads_of_step (settled : memory.Settled) {e : Occurrence (b.errands (ν := ν))}
    (run : Scene.Runs (.quiet memory feed) es s) (hs : Scene.Step s e t) :
    phaseAfter { memory, feed } es = phaseAfter { memory, feed } (es ++ [e]) ∨
      (phaseAfter { memory, feed } es).Leads b.settings.cacheStrategy
        (phaseAfter { memory, feed } (es ++ [e])) := by
  cases e with
  | begins | ends | arrives => exact .inl (phaseAfter_silent rfl).symm
  | talks party said =>
    rw [phaseAfter_talks]
    exact ((fits_of_runs settled run hs).leads _ rfl).imp_left Eq.symm

/-! ## A whole run -/

theorem isChain_phases (settled : memory.Settled) (run : Scene.Runs (.quiet memory feed) es s) :
    (phases { memory, feed } es).IsChain fun p q ↦
      p = q ∨ p.Leads b.settings.cacheStrategy q := by
  induction es using List.reverseRecOn generalizing s with
  | nil => exact .singleton _
  | append_singleton es e ih =>
    obtain ⟨t, upTo, last⟩ := run.of_snoc
    rw [phases_snoc, List.isChain_append, getLast?_phases]
    refine ⟨ih upTo, .singleton _, ?_⟩
    rintro _ ⟨⟩ _ ⟨⟩
    exact leads_of_step settled upTo last

/-- A change ends in the right phase. -/
theorem endsIn_of_runs (settled : memory.Settled) {ctx : EpochContext}
    {a : Except BoardError EpochOutcome}
    (run : Scene.Runs (.quiet memory feed) (before ++ .begins (Errand.prepare ctx) :: since) s)
    (hs : Scene.Step s (.ends (Errand.prepare ctx) a) t) (within : ∀ e ∈ since, e.IsWithin) :
    EndsIn (phaseAfter { memory, feed } before) (ownTalk since) a
      (phaseAfter { memory, feed } (before ++ .begins (Errand.prepare ctx) :: since)) := by
  have standing := standing_of_runs settled run
  refine Ended.endsIn (s := view _ _) ?_ (stage_of_begun within)
  cases hs with
  | ends howner he => exact (standing.2 _ _ howner).of_ends he

/-- Where no change is under way the account is settled. -/
theorem settled_of_runs (settled : memory.Settled) (run : Scene.Runs (.quiet memory feed) es s)
    (outside : ∀ ctx p, s.owner ≠ some ⟨.prepare ctx, p⟩) : s.shared.memory.Settled := by
  have standing := standing_of_runs settled run
  suffices h : (view { memory, feed } es).Settled by
    rw [run.shared_eq]
    exact ⟨h.phase, h.told⟩
  cases howner : s.owner with
  | none => exact (standing.1 howner).toSettled
  | some job =>
    obtain ⟨job, p⟩ := job
    cases job with
    | prepare ctx => exact absurd howner (outside ctx p)
    | search work =>
      refine (standing.2 _ p howner).safe (fun _ (hidle : Idle _) _ ↦ hidle.toSettled) ?_
      obtain ⟨before, since, rfl, within, -⟩ := run.begun_of_owner rfl howner
      rw [view, Account.of, stageAfter_append, stageAfter, stageAfter_within within]
      exact along_none _

end Phases

/-- **The phases follow the diagram.** Whatever errands and guests do and whatever the board
answers, the phases that onlookers are told form a path of the diagram. The generator is started
while generating only, device memory is copied while duplicating only, and the ranges of the mixers
are programmed while the items are partitioned only. A change that enters its first phase ends in
the last one exactly if it succeeds and in the idle one exactly if it fails, and every other change
leaves the phase as it was. Where no change is under way, onlookers are told the epoch that is
remembered. -/
theorem follows_diagram (b : Board) {memory : Memory ν} {feed : Feed} (settled : memory.Settled)
    {es : List (Occurrence (b.errands (ν := ν)))} {s : Scene (b.errands (ν := ν))}
    (run : Scene.Runs (.quiet memory feed) es s) :
    FollowsDiagram b.settings.cacheStrategy { memory, feed } es s where
  path := Phases.isChain_phases settled run
  own := by
    rintro pre party said post rfl
    obtain ⟨t, u, upTo, step⟩ := run.of_append_cons
    exact (Phases.fits_of_runs settled upTo step).own
  ends := by
    rintro before ctx since a later rfl within
    obtain ⟨t, u, upTo, step⟩ := run.of_append_cons
    exact Phases.endsIn_of_runs settled upTo step within
  outside := Phases.settled_of_runs settled run

/-! ### A change that succeeds, one that fails, and one that is skipped -/

namespace Phases

/-- An epoch is prepared with a light cache from the host; a change to another epoch fails for want
of a light cache; then the first epoch is asked for again. -/
def threeChanges : Rehearsal (uploadBoard.errands (ν := Rat)) :=
  let cached : EpochContext := { plainEpoch with lightCache := some ⟨#[0, 0, 0, 0]⟩ }
  .rehearse (.start 0 false) {} { SimulatedBoard.healthy with brokenMove := some 0 }
    [.begins (.prepare cached), .goes .owner 300,
      .begins (.prepare { plainEpoch with epoch := 2 }), .goes .owner 300,
      .begins (.prepare cached), .goes .owner 10]

end Phases

/-- The guarantee there, and the phases that onlookers were told. -/
theorem follows_of_threeChanges :
    (phases { memory := .start 0 false } Phases.threeChanges.occurrences).destutter (· ≠ ·) =
      [.idle, .preparing, .cacheUpload, .itemsPartitioned, .generating, .duplicating, .done,
        .preparing, .cacheUpload, .idle] ∧
    FollowsDiagram .upload { memory := .start 0 false } Phases.threeChanges.occurrences
      Phases.threeChanges.scene :=
  ⟨by decide +kernel, follows_diagram uploadBoard ⟨.inl rfl, rfl⟩ (Rehearsal.rehearse_runs ..)⟩

end HashBoard
