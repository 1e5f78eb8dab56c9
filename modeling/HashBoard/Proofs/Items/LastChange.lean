import HashBoard.Proofs.Items.EpochChange
import HashBoard.Proofs.Scene.Rehearsal

/-!
# What a successful epoch change answers for

An epoch change that is answered with success answers for the two registers that hold the item
count and its reciprocal. They are set up for the change that was begun last, and a change is begun
before it can fail; but the epoch that is remembered is that of the last change that succeeded. So a
change that is skipped for the remembered epoch finds the registers of whatever was tried in
between.

The statement is about every history of epoch changes and searches, with guests at any time, on a
board that is faithful about the two registers. It says exactly when the registers are right.
-/

namespace HashBoard

open Routine Items

variable {ν : Type} {R : Repertoire ν}

/-- An item count and a reciprocal are what an epoch needs. -/
def EpochContext.IsSetUp (ctx : EpochContext) (count reciprocal : Word) : Prop :=
  count.toNat = ctx.dagSize.toNat / 128 ∧ reciprocal = (Dag.itemReciprocal count).toUInt32

namespace Dag

/-- Half a tebibyte; the item count of a smaller dataset fits into a register. -/
def sizeLimit : Nat := 0x80_0000_0000

theorem toNat_items {size : UInt64} (h : size.toNat < sizeLimit) :
    (items size).toNat = size.toNat / 128 := by
  have hdiv : (size / itemBytes).toNat = size.toNat / 128 := UInt64.toNat_div size itemBytes
  rw [sizeLimit] at h
  rw [items, UInt64.toNat_toUInt32, hdiv]
  omega

end Dag

theorem Modest.keeps {r : Request ν} (h : Modest r) : Keeps r := by
  cases h with
  | quiet h => exact keeps_of_isQuiet h
  | coreFlags value => exact keeps_write (by decide) (by decide)
  | coreOff | powerOff => exact keeps_write (by decide) (by decide)
  | books h => exact keeps_books h
  | halt | newWork => exact ⟨spares_revise _, fun _ ↦ rfl⟩
  | _ => exact ⟨⟨rfl, fun _ ↦ ⟨rfl, rfl⟩⟩, fun _ ↦ rfl⟩

namespace Items

/-! ## The account of a run -/

/-- The account of a run, from what the registers held at first. -/
def view (count reciprocal : Word) (sh : Shared ν) (es : List (Occurrence R)) : Account ν where
  count := contents Reg.itemCount count (talkOf es)
  reciprocal := contents Reg.itemReciprocal reciprocal (talkOf es)
  memory := (sh.afterAll es).memory
  last := lastBegun (talkOf es)

/-- The board is faithful about both registers in what was said. -/
def Trusted (count reciprocal : Word) (talk : List (Answered ν)) : Prop :=
  Faithful Reg.itemCount count talk ∧ Faithful Reg.itemReciprocal reciprocal talk

instance (count reciprocal : Word) (talk : List (Answered ν)) :
    Decidable (Trusted count reciprocal talk) := inferInstanceAs (Decidable (_ ∧ _))

variable {count reciprocal : Word} {sh : Shared ν} {es : List (Occurrence R)}

theorem acts_view {r : Request ν} {x : Reply r} (hx : (sh.afterAll es).Permits r x)
    (trusted : Trusted count reciprocal (talkOf (es ++ [.talks .owner ⟨r, x⟩]))) :
    (watch ν).acts (view count reciprocal sh es) r x
      (view count reciprocal sh (es ++ [.talks .owner ⟨r, x⟩])) := by
  rw [Trusted, talkOf_snoc_talks, faithful_append, faithful_append] at trusted
  refine ⟨Shared.recalls_of_permits hx, trusted.1.2.1, trusted.2.2.1, ?_, ?_, ?_, ?_⟩
  · simp only [view, talkOf_snoc_talks, contents_snoc]
  · simp only [view, talkOf_snoc_talks, contents_snoc]
  · simp only [view, Shared.afterAll_snoc]
    exact Shared.memory_after _ _ _
  · simp only [view, talkOf_snoc_talks, lastBegun_snoc]

/-- Bystanders leave the registers and the last epoch alone, and begin no change. -/
theorem drifts_view [Quantity ν] {s₀ s t : Scene R} {e : Occurrence R} (orderly : s₀.Orderly)
    (run : Scene.Runs s₀ es s) (hs : Scene.Step s e t) (he : e.IsOthers) :
    (watch ν).drifts (view count reciprocal s₀.shared es)
      (view count reciprocal s₀.shared (es ++ [e])) := by
  cases e with
  | begins | ends => exact he.elim
  | arrives n purpose =>
    simp only [view, Shared.afterAll_snoc, talkOf_snoc_arrives]
    exact ⟨⟨rfl, rfl, rfl⟩, rfl⟩
  | talks p said =>
    obtain ⟨r, x⟩ := said
    obtain ⟨hmodest, -⟩ := (run.orderly orderly).bystander_asks hs he
    obtain ⟨⟨hbegun, hleaves⟩, hmem⟩ := hmodest.keeps
    simp only [view, Shared.afterAll_snoc, talkOf_snoc_talks, contents_snoc, lastBegun_snoc]
    refine ⟨⟨by simp [(hleaves x).1], by simp [(hleaves x).2], by simp [hbegun]⟩, ?_⟩
    exact (congrArg Memory.lastEpoch (Shared.memory_after _ p r)).trans (hmem _)

/-- How the account stands when an errand has ended. -/
def Done [Quantity ν] (b : Board) (size : Word → UInt64) :
    (job : (b.errands (ν := ν)).Job) → b.errands.Answer job → Account ν → Prop
  | .prepare ctx, a, s => Ended size ctx a s ∧ ctx.dagSize = size ctx.epoch
  | .search _, _, s => s.Current size

/-- Along every run on a faithful board the registers are those of the change that was begun last,
but for what an epoch change under way has yet to do. -/
theorem standing_of_runs [Quantity ν] (b : Board) {size : Word → UInt64} {memory : Memory ν}
    (fresh : memory.lastEpoch = none) {feed : Feed} {es : List (Occurrence (b.errands (ν := ν)))}
    {s : Scene b.errands} (run : Scene.Runs (.quiet memory feed) es s)
    (sizes : ∀ ctx, .begins (.prepare ctx) ∈ es → ctx.dagSize = size ctx.epoch)
    (trusted : Trusted count reciprocal (talkOf es)) :
    s.Standing (watch ν) (Account.Current size) (Done b size)
      (view count reciprocal { memory, feed } es) := by
  have hidle : (view count reciprocal { memory, feed } ([] : List (Occurrence b.errands))).Current
      size := by
    refine ⟨fun epoch h ↦ ?_, fun _ ↦ fresh⟩
    cases h
  refine run.upkeep rfl hidle ?_ ?_ ?_ ?_ ?_ ?_
  · intro pre job hpre hidle
    have hsame : (view count reciprocal { memory, feed } (pre ++ [.begins job])).Current size := by
      simpa only [view, Shared.afterAll_snoc, Shared.upon, talkOf_snoc_begins] using hidle
    cases job with
    | prepare ctx =>
      have hbegun : .begins (.prepare ctx) ∈ es := hpre.subset (by simp)
      have hsize := sizes ctx hbegun
      exact (ensures_prepareEpoch b hsize hsame).mono fun a t ht ↦ ⟨ht, hsize⟩
    | search work =>
      refine (ensures_drifts (Board.only_search roomToSearch_keeps b) _).mono fun a t hd ↦ ?_
      exact current_of_drifts hd hsame
  · intro pre job a _ hpost
    have hcurrent : (view count reciprocal { memory, feed } pre).Current size := by
      cases job with
      | prepare ctx => exact hpost.1.1
      | search work => exact hpost
    simpa only [view, Shared.afterAll_snoc, Shared.upon, talkOf_snoc_ends] using hcurrent
  · intro pre t u r x hr _ hpre hx
    obtain ⟨post, hpost⟩ := hpre
    rw [hr.shared_eq] at hx
    refine acts_view hx ?_
    rw [Trusted, ← hpost, talkOf_append, faithful_append, faithful_append] at trusted
    exact ⟨trusted.1.1, trusted.2.1⟩
  · intro pre t u e hr hs _ he
    exact drifts_view (Scene.orderly_quiet memory feed) hr hs he
  · exact fun _ _ hd hs ↦ current_of_drifts hd hs
  · intro job a s t hd hs
    cases job with
    | prepare ctx =>
      obtain ⟨⟨hcurrent, hskipped, hchanged⟩, hsize⟩ := hs
      refine ⟨⟨current_of_drifts hd hcurrent, ?_, ?_⟩, hsize⟩
      · exact fun h ↦ hd.1.last ▸ hskipped h
      · exact fun outcome h hne ↦ hd.1.last ▸ hchanged outcome h hne
    | search work => exact current_of_drifts hd hs

end Items

/-- **A successful epoch change is right about the change that was begun last.** When an epoch
change is answered with success, the registers are set up for its epoch if and only if the dataset
of the epoch whose change was begun last has as many items. After a change that was not skipped they
always are. -/
theorem isSetUp_iff_begun [Quantity ν] (b : Board) {size : Word → UInt64}
    (small : ∀ epoch, (size epoch).toNat < Dag.sizeLimit) {memory : Memory ν}
    (fresh : memory.lastEpoch = none) {feed : Feed} {count reciprocal : Word}
    {es : List (Occurrence (b.errands (ν := ν)))} {s : Scene b.errands} {ctx : EpochContext}
    {outcome : EpochOutcome}
    (run : Scene.Runs (.quiet memory feed) (es ++ [.ends (.prepare ctx) (.ok outcome)]) s)
    (sizes : ∀ ctx, .begins (.prepare ctx) ∈ es → ctx.dagSize = size ctx.epoch)
    (trusted : Trusted count reciprocal (talkOf es)) :
    (ctx.IsSetUp (contents Reg.itemCount count (talkOf es))
        (contents Reg.itemReciprocal reciprocal (talkOf es)) ↔
      ∃ epoch, lastBegun (talkOf es) = some epoch ∧
        (size epoch).toNat / 128 = ctx.dagSize.toNat / 128) ∧
    (outcome ≠ .skipped → ctx.IsSetUp (contents Reg.itemCount count (talkOf es))
      (contents Reg.itemReciprocal reciprocal (talkOf es))) := by
  obtain ⟨t, run, last⟩ := run.of_snoc
  have hstanding := standing_of_runs b fresh run sizes trusted
  have hdone : Done b size (.prepare ctx) (.ok outcome)
      (view count reciprocal { memory, feed } es) := by
    cases last with
    | ends howner he => exact (hstanding.2 _ _ howner).of_ends he
  obtain ⟨⟨hcurrent, hskipped, hchanged⟩, hsize⟩ := hdone
  have hlast : ∃ epoch, lastBegun (talkOf es) = some epoch := by
    rw [← Option.ne_none_iff_exists']
    by_cases hskip : outcome = .skipped
    · exact hskipped (by rw [hskip])
    · intro hnone
      have hsome := hchanged outcome rfl hskip
      rw [show (view count reciprocal { memory, feed } es).last = none from hnone] at hsome
      cases hsome
  obtain ⟨epoch, hepoch⟩ := hlast
  obtain ⟨hcount, hrecip⟩ := hcurrent.1 epoch hepoch
  have hright : ctx.IsSetUp (contents Reg.itemCount count (talkOf es))
      (contents Reg.itemReciprocal reciprocal (talkOf es)) ↔
      (size epoch).toNat / 128 = ctx.dagSize.toNat / 128 := by
    have hc : contents Reg.itemCount count (talkOf es) = Dag.items (size epoch) := hcount
    have hr : contents Reg.itemReciprocal reciprocal (talkOf es) =
      (Dag.itemReciprocal (Dag.items (size epoch))).toUInt32 := hrecip
    rw [EpochContext.IsSetUp, hc, hr, Dag.toNat_items (small epoch)]
    exact and_iff_left rfl
  constructor
  · rw [hright]
    constructor
    · exact fun h ↦ ⟨epoch, hepoch, h⟩
    · rintro ⟨epoch', hepoch', h⟩
      rw [hepoch] at hepoch'
      cases hepoch'
      exact h
  · intro hne
    have hsame : some epoch = some ctx.epoch := hepoch.symm.trans (hchanged outcome rfl hne)
    rw [hright, hsize, Option.some.inj hsame]

/-! ### A change that failed in between -/

namespace Items

/-- An epoch without a light cache. -/
def bareEpoch (epoch : Word) (dagSize lightSize : UInt64) : EpochContext where
  epoch
  dagSize
  lightSize
  seed := .zero
  lightCache := none

/-- Sizes of the datasets of the first two epochs. -/
def datasetSize (epoch : Word) : UInt64 := if epoch = 1 then 1_073_739_904 else 1_082_130_304

/-- The board holds the dataset of epoch 1 and is prepared for it; then a change to epoch 2 fails
for want of a light cache; then the board is asked for epoch 1 again. -/
def failedBetween : Rehearsal (uploadBoard.errands (ν := Rat)) :=
  .rehearse (.start 0 false) {} { registers := [(Reg.dagStatus, 0x8000_0001)] }
    [.begins (.prepare (bareEpoch 1 (datasetSize 1) 16_776_896)), .goes .owner 200,
      .begins (.prepare (bareEpoch 2 (datasetSize 2) 16_907_456)), .goes .owner 200,
      .begins (.prepare (bareEpoch 1 (datasetSize 1) 16_776_896)), .goes .owner 5]

/-- The change to epoch 1 is skipped. -/
def isSkip : Occurrence (uploadBoard.errands (ν := Rat)) → Bool
  | .ends (.prepare ctx) (.ok .skipped) => ctx.epoch = 1 ∧ ctx.dagSize = datasetSize 1
  | _ => false

/-- The contexts of all changes that are begun have the size of their epoch. -/
def isSized : Occurrence (uploadBoard.errands (ν := Rat)) → Bool
  | .begins (.prepare ctx) => ctx.dagSize = datasetSize ctx.epoch
  | _ => true

theorem toNat_datasetSize (epoch : Word) : (datasetSize epoch).toNat < Dag.sizeLimit := by
  rw [datasetSize]
  split <;> decide

theorem failedBetween_sized (ctx : EpochContext)
    (h : .begins (.prepare ctx) ∈ failedBetween.before) : ctx.dagSize = datasetSize ctx.epoch := by
  have all : failedBetween.before.all isSized := by decide +kernel
  simpa [isSized] using List.all_eq_true.mp all _ h

theorem failedBetween_trusted : Trusted 0 0 (talkOf failedBetween.before) := by decide +kernel

theorem failedBetween_skips : ∃ ctx, ctx.dagSize = datasetSize 1 ∧
    Scene.Runs (.quiet (.start 0 false) {})
      (failedBetween.before ++ [.ends (.prepare ctx) (.ok .skipped)]) failedBetween.scene := by
  have run : Scene.Runs (.quiet (.start 0 false) {}) failedBetween.occurrences
      failedBetween.scene := Rehearsal.rehearse_runs ..
  have skips : failedBetween.lastPasses isSkip := by decide +kernel
  obtain ⟨e, htest, hlast⟩ := Rehearsal.occurrences_of_lastPasses skips
  rw [hlast] at run
  unfold isSkip at htest
  split at htest
  · rename_i ctx
    exact ⟨ctx, (of_decide_eq_true htest).2, run⟩
  · cases htest

end Items

/-- The equivalence at a change that was skipped after another one had failed: the change that was
begun last is that to epoch 2, and the item count is that of epoch 2. -/
theorem not_isSetUp_of_failedBetween :
    ∃ ctx, Scene.Runs (.quiet (.start 0 false) {})
        (failedBetween.before ++ [.ends (.prepare ctx) (.ok .skipped)]) failedBetween.scene ∧
      lastBegun (talkOf failedBetween.before) = some 2 ∧
      ¬ctx.IsSetUp (contents Reg.itemCount 0 (talkOf failedBetween.before))
        (contents Reg.itemReciprocal 0 (talkOf failedBetween.before)) := by
  obtain ⟨ctx, hsize, run⟩ := failedBetween_skips
  have begun : lastBegun (talkOf failedBetween.before) = some 2 := by decide +kernel
  have hiff := (isSetUp_iff_begun uploadBoard toNat_datasetSize rfl run failedBetween_sized
    failedBetween_trusted).1
  refine ⟨ctx, run, begun, fun hset ↦ ?_⟩
  obtain ⟨epoch, hepoch, hsame⟩ := hiff.mp hset
  rw [begun] at hepoch
  cases hepoch
  rw [hsize] at hsame
  exact absurd hsame (by decide)

/-- Not every successful epoch change finds the board set up for its epoch. -/
theorem success_not_setUp :
    ¬∀ (b : Board) (size : Word → UInt64) (memory : Memory Rat) (count reciprocal : Word)
      (es : List (Occurrence (b.errands (ν := Rat)))) (s : Scene (b.errands (ν := Rat)))
      (ctx : EpochContext) (outcome : EpochOutcome), (∀ epoch, (size epoch).toNat < Dag.sizeLimit) →
      memory.lastEpoch = none →
      Scene.Runs (.quiet memory {}) (es ++ [.ends (.prepare ctx) (.ok outcome)]) s →
      (∀ ctx, .begins (.prepare ctx) ∈ es → ctx.dagSize = size ctx.epoch) →
      Trusted count reciprocal (talkOf es) →
      ctx.IsSetUp (contents Reg.itemCount count (talkOf es))
        (contents Reg.itemReciprocal reciprocal (talkOf es)) := by
  intro always
  obtain ⟨ctx, hsize, run⟩ := failedBetween_skips
  have hset := always _ datasetSize _ 0 0 _ _ ctx .skipped toNat_datasetSize rfl run
    failedBetween_sized failedBetween_trusted
  have hcount : (contents Reg.itemCount 0 (talkOf failedBetween.before)).toNat = 8_454_143 := by
    decide +kernel
  rw [EpochContext.IsSetUp, hcount, hsize] at hset
  exact absurd hset.1 (by decide)

end HashBoard
