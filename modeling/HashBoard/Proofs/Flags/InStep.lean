import HashBoard.Proofs.Flags.Account
import HashBoard.Proofs.Scene.Rehearsal

/-!
# Halted boards and busy boards

Errands and guests in any order leave the two flags in step, and a halt is for good. So an epoch
change that is begun on a halted board is told of the halt by the first thing it asks, and the only
other thing it does is to say so.
-/

namespace HashBoard

open Routine

variable {ν : Type} [Quantity ν]

namespace Flags

variable {b : Board}

/-! ## The account of a run -/

/-- Whether an epoch change is under way. -/
def isPreparing (es : List (Occurrence (b.errands (ν := ν)))) : Bool :=
  es.foldl (fun on e ↦ match e with
    | .begins (.prepare _) => true
    | .begins (.search _) | .ends .. => false
    | .arrives .. | .talks .. => on) false

theorem isPreparing_snoc (es : List (Occurrence (b.errands (ν := ν))))
    (e : Occurrence (b.errands (ν := ν))) :
    isPreparing (es ++ [e]) = match e with
      | .begins (.prepare _) => true
      | .begins (.search _) | .ends .. => false
      | .arrives .. | .talks .. => isPreparing es := by
  rw [isPreparing, List.foldl_append]
  rfl

/-- The account of a run. -/
def view (sh : Shared ν) (es : List (Occurrence (b.errands (ν := ν)))) : Account ν where
  memory := (sh.afterAll es).memory
  preparing := isPreparing es

variable {memory : Memory ν} {feed : Feed}
  {es : List (Occurrence (b.errands (ν := ν)))} {s : Scene (b.errands (ν := ν))}

/-- Along every run the flags are in step, and what is left of an errand keeps them so. -/
theorem standing_of_runs (start : memory.busy = memory.halted)
    (run : Scene.Runs (.quiet memory feed) es s) :
    s.Standing (watch ν) Account.Even (fun _ _ ↦ Account.Even) (view { memory, feed } es) := by
  refine run.upkeep rfl start ?_ ?_ ?_ ?_ ?_ ?_
  · intro pre job _ hidle
    have even : (view (b := b) { memory, feed } (pre ++ [.begins job])).Even := by
      rw [Account.Even, view, Shared.afterAll_snoc]
      exact hidle
    cases job with
    | prepare ctx =>
      have preparing :
          (view (b := b) { memory, feed } (pre ++ [.begins (.prepare ctx)])).preparing :=
        isPreparing_snoc pre _
      exact ensures_prepareEpoch b ctx even preparing
    | search work => exact ensures_search b work even
  · intro pre job a _ hpost
    rw [view, Shared.afterAll_snoc]
    exact hpost
  · intro pre t u r x _ _ _ _
    refine ⟨?_, isPreparing_snoc pre _⟩
    rw [view, Shared.afterAll_snoc]
    exact Shared.memory_after _ _ _
  · intro pre t u e runs hs _ he
    constructor
    · have hfollows := hs.follows (runs.orderly (Scene.orderly_quiet memory feed)) he
      rw [runs.shared_eq, (runs.snoc hs).shared_eq] at hfollows
      exact hfollows
    · rw [view, view, isPreparing_snoc]
      cases e with
      | begins | ends => exact he.elim
      | arrives | talks => rfl
  · intro a a' hd ha
    exact (leads_of_drifts hd).even ha
  · intro job x a a' hd ha
    exact (leads_of_drifts hd).even ha

theorem inStep_of_runs (start : memory.busy = memory.halted)
    (run : Scene.Runs (.quiet memory feed) es s) : (view { memory, feed } es).InStep := by
  have hstanding := standing_of_runs start run
  cases howner : s.owner with
  | none => exact (hstanding.1 howner).inStep
  | some job => exact (hstanding.2 job.1 job.2 howner).safe fun _ ha ↦ ha.inStep

theorem busy_of_halted (start : memory.busy = memory.halted)
    (run : Scene.Runs (.quiet memory feed) es s) (halted : s.shared.memory.halted) :
    s.shared.memory.busy := by
  rw [run.shared_eq] at halted ⊢
  exact (inStep_of_runs start run).busy halted

/-- An epoch change that is under way is what the owner is at. -/
theorem isPreparing_iff (run : Scene.Runs (.quiet memory feed) es s) :
    isPreparing es ↔ ∃ ctx p, s.owner = some ⟨.prepare ctx, p⟩ := by
  refine run.invariant (I := fun es s ↦ isPreparing es ↔ ∃ ctx p, s.owner = some ⟨.prepare ctx, p⟩)
    ?_ ?_
  · exact ⟨nofun, nofun⟩
  · intro pre t e u _ hs ih
    rw [isPreparing_snoc]
    cases hs with
    | begins job =>
      cases job with
      | prepare ctx => exact ⟨fun _ ↦ ⟨ctx, _, rfl⟩, fun _ ↦ rfl⟩
      | search work => exact ⟨nofun, nofun⟩
    | ends => exact ⟨nofun, nofun⟩
    | arrives | kicker | guest => exact ih
    | owner howner _ _ =>
      rw [howner] at ih
      refine ih.trans ?_
      constructor
      · rintro ⟨ctx, p, h⟩
        cases h
        exact ⟨ctx, _, rfl⟩
      · rintro ⟨ctx, p, h⟩
        cases h
        exact ⟨ctx, _, rfl⟩

/-! ## A halt is for good -/

/-- Nobody takes a halt back. -/
theorem halted_of_step (start : memory.busy = memory.halted)
    (run : Scene.Runs (.quiet memory feed) es s) {e : Occurrence (b.errands (ν := ν))}
    {t : Scene (b.errands (ν := ν))} (hs : Scene.Step s e t) (halted : s.shared.memory.halted) :
    t.shared.memory.halted := by
  have hstanding := standing_of_runs start run
  have orderly := run.orderly (Scene.orderly_quiet memory feed)
  have beside (he : e.IsOthers) : t.shared.memory.halted := (hs.follows orderly he).halted halted
  cases hs with
  | begins | ends => exact halted
  | arrives => exact beside trivial
  | kicker => exact beside nofun
  | guest => exact beside nofun
  | @owner job p q r x howner hp _ =>
    have keeps : KeepsHalt r := (hstanding.2 _ _ howner).allows_of_steps hp
    rw [Shared.memory_after]
    exact keeps _ halted

theorem halted_of_prefix (start : memory.busy = memory.halted)
    (run : Scene.Runs (.quiet memory feed) es s) {pre : List (Occurrence (b.errands (ν := ν)))}
    (hpre : pre <+: es) (halted : (({ memory, feed } : Shared ν).afterAll pre).memory.halted) :
    s.shared.memory.halted := by
  induction run with
  | nil =>
    rw [List.prefix_nil.mp hpre] at halted
    exact halted
  | @snoc t u es e run hs ih =>
    rcases List.prefix_concat_iff.mp hpre with rfl | hpre
    · rw [(run.snoc hs).shared_eq]
      exact halted
    · exact halted_of_step start run hs (ih hpre)

/-! ## Refusing -/

/-- What an epoch change asks and is answered on a halted board. -/
def refusal (ctx : EpochContext) (m : Memory ν) : List (Answered ν) :=
  [⟨.memory, m⟩, ⟨.note (.haltedEpoch ctx.epoch), ()⟩]

omit [Quantity ν] in
theorem mem_refusal_iff {ctx : EpochContext} {m : Memory ν} {said : Answered ν} :
    said ∈ refusal ctx m ↔ said = ⟨.memory, m⟩ ∨ said = ⟨.note (.haltedEpoch ctx.epoch), ()⟩ := by
  rw [refusal, List.mem_cons, List.mem_singleton]

/-- An epoch change that is told of a halt is somewhere in its refusal. -/
theorem refusal_of_path {ctx : EpochContext} {talk : List (Answered ν)}
    {p : Routine ν (Except BoardError EpochOutcome)} (hp : Path (b.prepareEpoch ctx) talk p)
    (told : ∀ m, ⟨.memory, m⟩ ∈ talk → m.halted) {sh : Shared ν} (halted : sh.memory.halted) :
    ∃ m rest, refusal ctx m = talk ++ rest ∧ sh.Tells rest ∧ Run p rest (.error .halted) ∧
      ∀ a, Ends p a → a = .error .halted := by
  rw [Board.prepareEpoch_eq] at hp
  cases hp with
  | nil =>
    refine ⟨sh.memory, refusal ctx sh.memory, rfl, ⟨rfl, trivial, trivial⟩,
      ⟨.done (.error .halted), .cons (.ask ..) ?_, .done _⟩, nofun⟩
    rw [if_pos halted]
    exact .cons (.ask ..) (.nil _)
  | cons hs hp =>
    obtain ⟨rfl, rfl⟩ := steps_ask hs
    rename_i talk m
    have hm : m.halted := told m (.head _)
    simp only [hm, if_true] at hp
    cases hp with
    | nil =>
      exact ⟨m, [⟨.note (.haltedEpoch ctx.epoch), ()⟩], rfl, ⟨trivial, trivial⟩,
        ⟨.done (.error .halted), .cons (.ask ..) (.nil _), .done _⟩, nofun⟩
    | cons hs hp =>
      obtain ⟨rfl, rfl⟩ := steps_ask hs
      cases hp with
      | nil =>
        refine ⟨m, [], rfl, trivial, ⟨.done (.error .halted), .nil _, .done _⟩, ?_⟩
        intro a ha
        exact (ends_done_iff.mp ha).symm
      | cons hs _ => exact absurd hs not_steps_done

/-- An epoch change that was begun on a halted board, after some occurrences, as it stands after
some more. -/
structure Refused (sh : Shared ν) (before : List (Occurrence (b.errands (ν := ν))))
    (ctx : EpochContext) (since : List (Occurrence (b.errands (ν := ν))))
    (s : Scene (b.errands (ν := ν))) : Prop where
  /-- It made no call. -/
  silent : ∀ said ∈ ownTalk since, ∀ c, said.request ≠ .call c
  /-- It changed nothing that is shared, the status included. -/
  untouched : ∀ said ∈ ownTalk since, ∀ sh : Shared ν, sh.after .owner said.request = sh
  /-- The board is as busy as it was. -/
  busy : s.shared.memory.busy = (sh.afterAll before).memory.busy
  /-- The last epoch is what it was. -/
  lastEpoch : s.shared.memory.lastEpoch = (sh.afterAll before).memory.lastEpoch
  /-- It can go on by itself and refuse. -/
  returns : ∃ rest : List (Answered ν), ∃ t, rest.length ≤ 2 ∧ Scene.Runs { shared := sh }
    (before ++ .begins (.prepare ctx) :: since ++ rest.map (.talks .owner) ++
      [.ends (.prepare ctx) (.error .halted)]) t
  /-- It ends in no other way. -/
  answer : ∀ a t, Scene.Step s (.ends (.prepare ctx) a) t → a = .error .halted

theorem refused_of_halted (start : memory.busy = memory.halted) {ctx : EpochContext}
    {before since : List (Occurrence (b.errands (ν := ν)))}
    (run : Scene.Runs (.quiet memory feed) (before ++ .begins (.prepare ctx) :: since) s)
    (within : ∀ e ∈ since, e.IsWithin)
    (halted : (({ memory, feed } : Shared ν).afterAll before).memory.halted) :
    Refused { memory, feed } before ctx since s := by
  obtain ⟨p, howner, hpath⟩ := run.owner_of_begun within
  have now : s.shared.memory.halted :=
    halted_of_prefix start run (List.prefix_append _ _) halted
  have told : ∀ m, ⟨.memory, m⟩ ∈ ownTalk since → m.halted := by
    intro m hm
    have run' := run
    rw [List.append_cons] at run'
    obtain ⟨pre, hbefore, hpre, hpermits⟩ := run'.permits_of_mem hm
    obtain ⟨t, ht⟩ := run'.of_prefix hpre
    have := halted_of_prefix start ht ((List.prefix_append _ _).trans hbefore) halted
    rw [ht.shared_eq] at this
    rw [show m = _ from hpermits]
    exact this
  obtain ⟨m, rest, hrefusal, htells, ⟨q, hq, hends⟩, hanswer⟩ := refusal_of_path hpath told now
  have hmem : ∀ said ∈ ownTalk since, said ∈ refusal ctx m := by
    intro said hsaid
    rw [hrefusal]
    exact List.mem_append_left _ hsaid
  have untouched : ∀ said ∈ ownTalk since, ∀ sh : Shared ν,
      sh.after .owner said.request = sh := by
    intro said hsaid sh
    rcases mem_refusal_iff.mp (hmem said hsaid) with rfl | rfl <;> rfl
  have hbefore : (({ memory, feed } : Shared ν).afterAll before).memory.busy := by
    obtain ⟨t, ht⟩ := run.of_prefix (List.prefix_append before _)
    exact (inStep_of_runs start ht).busy halted
  constructor
  · intro said hsaid c
    rcases mem_refusal_iff.mp (hmem said hsaid) with rfl | rfl <;> exact nofun
  · exact untouched
  · rw [busy_of_halted start run now, hbefore]
  · refine (run.follows (Scene.orderly_quiet memory feed) ?_).lastEpoch
    intro e he
    rcases List.mem_cons.mp he with rfl | he
    · exact .inr fun _ ↦ rfl
    · refine Scene.spared_of_within within (fun said hsaid m ↦ ?_) e he
      rcases mem_refusal_iff.mp (hmem said hsaid) with rfl | rfl <;> rfl
  · obtain ⟨t, ht, htowner, -⟩ := run.of_path howner hq htells
    refine ⟨rest, _, ?_, ht.snoc (.ends htowner hends)⟩
    have hlength := congrArg List.length hrefusal
    rw [refusal, List.length_append, List.length_cons, List.length_singleton] at hlength
    omega
  · intro a t hs
    cases hs with
    | ends howner' he =>
      rw [howner] at howner'
      cases howner'
      exact hanswer a he

end Flags

/-- **Halted and busy stay in step.** Whatever errands and guests do, a halted board is busy, a busy
board is halted or its epoch is being changed, and no halt is taken back. An epoch change that is
begun on a halted board makes no call, changes nothing, and returns with the halt as its error. -/
theorem flags_inStep (b : Board) {memory : Memory ν} {feed : Feed}
    (start : memory.busy = memory.halted) {es : List (Occurrence (b.errands (ν := ν)))}
    {s : Scene (b.errands (ν := ν))} (run : Scene.Runs (.quiet memory feed) es s) :
    (s.shared.memory.halted → s.shared.memory.busy) ∧
    (s.shared.memory.busy →
      s.shared.memory.halted ∨ ∃ ctx p, s.owner = some ⟨.prepare ctx, p⟩) ∧
    (∀ pre, pre <+: es → (({ memory, feed } : Shared ν).afterAll pre).memory.halted →
      s.shared.memory.halted) ∧
    ∀ before ctx since, es = before ++ .begins (.prepare ctx) :: since →
      (∀ e ∈ since, e.IsWithin) →
      (({ memory, feed } : Shared ν).afterAll before).memory.halted →
      Flags.Refused { memory, feed } before ctx since s := by
  refine ⟨Flags.busy_of_halted start run, ?_, ?_, ?_⟩
  · intro busy
    rw [run.shared_eq] at busy ⊢
    rcases (Flags.inStep_of_runs start run).reason busy with halted | preparing
    · exact .inl halted
    · exact .inr ((Flags.isPreparing_iff run).mp preparing)
  · intro pre hpre halted
    exact Flags.halted_of_prefix start run hpre halted
  · rintro before ctx since rfl within halted
    exact Flags.refused_of_halted start run within halted

/-! ### An epoch change after a halt -/

namespace Flags

/-- An epoch. -/
def lateEpoch : EpochContext where
  epoch := 1
  dagSize := 1_073_739_904
  lightSize := 16_776_896
  seed := .zero
  lightCache := none

/-- A guest samples telemetry on a board whose stacks are not calibrated, which halts the board. -/
def uncalibrated : Rehearsal (plainBoard.errands (ν := Rat)) :=
  .rehearse (.start 0 false) {} {} [.arrives 0 (.telemetry plainBoard), .goes (.guest 0) 40]

end Flags

/-- The guarantee at an epoch change that is begun after a guest halted the board. -/
theorem refused_of_uncalibrated :
    ∃ s, Scene.Runs (.quiet (.start 0 false) {})
        (Flags.uncalibrated.occurrences ++ [.begins (.prepare Flags.lateEpoch)]) s ∧
      s.shared.memory.busy ∧
      Flags.Refused { memory := .start 0 false, feed := {} } Flags.uncalibrated.occurrences
        Flags.lateEpoch [] s := by
  have run : Scene.Runs (.quiet (.start 0 false) {}) Flags.uncalibrated.occurrences
      Flags.uncalibrated.scene := Rehearsal.rehearse_runs ..
  have nobody : Flags.uncalibrated.scene.owner.isNone := by decide +kernel
  have halted : Flags.uncalibrated.scene.shared.memory.halted := by decide +kernel
  have begun := run.snoc (.begins (R := plainBoard.errands) (.prepare Flags.lateEpoch)
    (Option.isNone_iff_eq_none.mp nobody))
  obtain ⟨hbusy, -, -, hrefused⟩ := flags_inStep plainBoard rfl begun
  refine ⟨_, begun, hbusy halted, hrefused _ _ [] rfl (List.forall_mem_nil _) ?_⟩
  rw [run.shared_eq] at halted
  exact halted

end HashBoard
