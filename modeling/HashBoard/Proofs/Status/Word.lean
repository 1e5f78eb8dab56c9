import Mathlib.Data.List.Induction
import HashBoard.Proofs.Scene.Rehearsal
import HashBoard.Proofs.Status.EpochChange

/-!
# What the word on the board is worth

The word that says which epoch the resident dataset belongs to outlives the driver that wrote it,
and a later epoch change takes it at its word. The main statement says what it is worth: at the time
it was written the dataset was complete if and only if nothing was swallowed on the way, and every
change that finds a dataset resident goes back to such a write.

The second half is about several lifetimes of the driver on the same board, with nothing said about
its replies but that it shows no word of a resident dataset that was not written to it before.
-/

namespace HashBoard

open Routine Board Status

variable {ν : Type}

/-! ## Lifetimes of a driver -/

section Progress

variable [Quantity ν] {b : Board}

/-- What an occurrence adds to how far the call under way has got with a dataset. -/
def Progress.upon (s : Progress) : Occurrence (b.errands (ν := ν)) → Progress
  | .begins (.prepare ctx) => { epoch := some ctx.epoch }
  | .begins (.search _) => {}
  | .talks .owner said => s.after said
  | _ => s

/-- How far the call under way has got with a dataset. -/
def progress (es : List (Occurrence (b.errands (ν := ν)))) : Progress :=
  es.foldl Progress.upon {}

@[simp] theorem progress_snoc (es : List (Occurrence (b.errands (ν := ν))))
    (e : Occurrence (b.errands (ν := ν))) : progress (es ++ [e]) = (progress es).upon e := by
  rw [progress, List.foldl_append]
  rfl

end Progress

/-- A run of the errands of a board, from the start of the driver on. -/
structure Lifetime (ν : Type) [Quantity ν] (b : Board) where
  /-- What is remembered of the board at first. -/
  memory : Memory ν
  /-- The feed of work at first. -/
  feed : Feed
  /-- What occurs. -/
  occurred : List (Occurrence (b.errands (ν := ν)))
  /-- The scene at the end. -/
  scene : Scene (b.errands (ν := ν))
  /-- It is a run. -/
  runs : Scene.Runs (.quiet memory feed) occurred scene

/-- Somewhere in a lifetime a word of a resident dataset is written, by a call that has got so
far. -/
def Lifetime.Writes [Quantity ν] {b : Board} (life : Lifetime ν b) (value : Word) (s : Progress) :
    Prop :=
  ∃ pre said post, life.occurred = pre ++ .talks .owner said :: post ∧
    said.request.marks = some value ∧ s = progress pre

/-- What was asked and answered in lifetimes after another, each with its own settings. -/
def talkOfAll [Quantity ν] (history : List ((b : Board) × Lifetime ν b)) : List (Answered ν) :=
  history.flatMap fun life ↦ talkOf life.2.occurred

/-- The word that a reply shows. -/
def Answered.shown : Answered ν → Option Word
  | ⟨.call (.read addr), .ok value⟩ => if addr = Reg.dagStatus then some value else none
  | _ => none

/-- A reply that shows the word of a resident dataset only if it was written. -/
def Answered.IsAuthentic (written : List Word) (said : Answered ν) : Prop :=
  ∀ value ∈ said.shown, value &&& Reg.dagStatusValid ≠ 0 → value ∈ written

/-- Replies that show the word of a resident dataset only if it was written before. -/
def Authentic : (written : List Word) → List (Answered ν) → Prop
  | _, [] => True
  | written, said :: talk =>
    said.IsAuthentic written ∧ Authentic (said.request.marks.toList ++ written) talk

instance (written : List Word) (said : Answered ν) : Decidable (said.IsAuthentic written) :=
  Option.decidableForallMem said.shown

def Authentic.decide : (written : List Word) → (talk : List (Answered ν)) →
    Decidable (Authentic written talk)
  | _, [] => .isTrue trivial
  | written, said :: talk =>
    have := Authentic.decide (said.request.marks.toList ++ written) talk
    inferInstanceAs (Decidable (said.IsAuthentic written ∧ Authentic _ talk))

instance (written : List Word) (talk : List (Answered ν)) : Decidable (Authentic written talk) :=
  Authentic.decide written talk

/-- A word that is shown was written before. -/
theorem Authentic.written {written : List Word} {talk talk' : List (Answered ν)} {value : Word}
    (h : Authentic written (talk ++ ⟨.call (.read Reg.dagStatus), .ok value⟩ :: talk'))
    (hvalid : value &&& Reg.dagStatusValid ≠ 0) :
    value ∈ written ∨ ∃ said ∈ talk, said.request.marks = some value := by
  induction talk generalizing written with
  | nil => exact .inl (h.1 value rfl hvalid)
  | cons said talk ih =>
    rcases ih h.2 with hmem | ⟨said', hsaid, hmarks⟩
    · rcases List.mem_append.mp hmem with hnow | hbefore
      · exact .inr ⟨said, .head talk, Option.mem_toList.mp hnow⟩
      · exact .inl hbefore
    · exact .inr ⟨said', .tail said hsaid, hmarks⟩

/-! ## The account of a lifetime -/

namespace Status

theorem shown_after {s : Progress} {said : Answered ν} {value : Word}
    (h : (s.after said).shown = some value) :
    s.shown = some value ∨ said = ⟨.call (.read Reg.dagStatus), .ok value⟩ := by
  unfold Progress.after at h
  split at h
  case h_3 =>
    split at h
    · exact .inl h
    · split at h
      · rename_i haddr
        subst haddr
        cases h
        exact .inr rfl
      · exact .inl h
  case h_4 | h_5 | h_7 => exact .inl h
  all_goals split at h <;> exact .inl h

theorem unmarked_of_modest {r : Request ν} (h : Modest r) : Unmarked r := by
  cases h with
  | quiet h => exact (idles_of_isQuiet h).1
  | coreFlags value => exact unmarked_write (by decide)
  | coreOff | powerOff => exact unmarked_write (by decide)
  | _ => rfl

variable [Quantity ν] {b : Board} {memory : Memory ν} {feed : Feed}
  {es pre : List (Occurrence (b.errands (ν := ν)))} {s : Scene (b.errands (ν := ν))}

/-- What the word was last read as was read in the run. -/
theorem mem_of_shown {value : Word} (h : (progress es).shown = some value) :
    (⟨.call (.read Reg.dagStatus), .ok value⟩ : Answered ν) ∈ talkOf es := by
  induction es using List.reverseRecOn with
  | nil => cases h
  | append_singleton es e ih =>
    rw [progress_snoc] at h
    rw [talkOf_append]
    cases e with
    | begins job => cases job <;> cases h
    | ends | arrives => exact List.mem_append_left _ (ih h)
    | talks p said =>
      cases p with
      | owner =>
        rcases shown_after h with hbefore | hnow
        · exact List.mem_append_left _ (ih hbefore)
        · exact List.mem_append_right _ (hnow ▸ .head [])
      | kicker | guest => exact List.mem_append_left _ (ih h)

omit [Quantity ν] in
theorem roomToSearch_unmarked {work : Work} :
    RoomToSearch (Unmarked : Request ν → Prop) work where
  quiet _ h := (idles_of_isQuiet h).1
  programmed _ _ _ := rfl
  stall := rfl
  slots _ _ := rfl
  checks _ _ := rfl
  interrupts _ _ := rfl
  looks := rfl
  tunes _ := rfl
  averages _ _ := rfl
  books _ _ := rfl
  searching _ := rfl
  halt := rfl
  acquire := rfl
  release := rfl
  writes value addr h := by
    refine unmarked_write ?_
    rintro rfl
    exact absurd h (by decide)
  header := rfl
  target _ := rfl
  submits _ _ := rfl

/-- How the account stands when an errand has ended. -/
def Done (b : Board) :
    (job : (b.errands (ν := ν)).Job) → b.errands.Answer job → Progress → Prop
  | .prepare ctx, a, s => a = .ok .resident → s.Shows ctx.epoch
  | .search _, _, _ => True

theorem standing_of_runs (run : Scene.Runs (.quiet memory feed) es s) :
    s.Standing (watch ν b) (fun _ ↦ True) (Done b) (progress es) := by
  refine run.upkeep rfl trivial ?_ ?_ ?_ ?_ ?_ ?_
  · intro pre job _ _
    rw [progress_snoc]
    cases job with
    | prepare ctx => exact ensures_prepareEpoch ctx ⟨rfl, rfl, rfl, rfl, rfl⟩
    | search work => exact ensures_unmarked (Board.only_search roomToSearch_unmarked b) _
  · exact fun _ _ _ _ _ ↦ trivial
  · intro pre t u r x _ _ _ _
    rw [progress_snoc]
    rfl
  · intro pre t u e _ _ _ he
    rw [progress_snoc]
    cases e with
    | begins | ends => exact he.elim
    | arrives => rfl
    | talks p said =>
      cases p with
      | owner => exact absurd rfl he
      | kicker | guest => rfl
  · exact fun _ _ _ _ ↦ trivial
  · intro job a s t hd hs
    rw [show t = s from hd]
    exact hs

/-- Whoever writes a word of a resident dataset is the owner, where it says what it should. -/
theorem marked_of_runs {p : Party} {said : Answered ν} {value : Word}
    (run : Scene.Runs (.quiet memory feed) (pre ++ [.talks p said]) s)
    (hmarks : said.request.marks = some value) : p = .owner ∧ Marked b value (progress pre) := by
  obtain ⟨t, before, last⟩ := run.of_snoc
  obtain ⟨r, x⟩ := said
  have howner : p = .owner := by
    by_contra hp
    have orderly := before.orderly (Scene.orderly_quiet memory feed)
    obtain ⟨hmodest, -⟩ := orderly.bystander_asks last hp
    rw [unmarked_of_modest hmodest] at hmarks
    cases hmarks
  subst howner
  refine ⟨rfl, ?_⟩
  cases last with
  | owner howner hp _ =>
    exact ((standing_of_runs before).2 _ _ howner).allows_of_steps hp value hmarks

/-- A change that finds a dataset resident was shown the word for it. -/
theorem shows_of_runs {ctx : EpochContext}
    (run : Scene.Runs (.quiet memory feed) (pre ++ [.ends (.prepare ctx) (.ok .resident)]) s) :
    (progress pre).Shows ctx.epoch := by
  obtain ⟨t, before, last⟩ := run.of_snoc
  cases last with
  | ends howner he => exact ((standing_of_runs before).2 _ _ howner).of_ends he rfl

end Status

theorem Lifetime.Writes.marked [Quantity ν] {b : Board} {life : Lifetime ν b} {value : Word}
    {s : Progress} (h : life.Writes value s) : Marked b value s := by
  obtain ⟨pre, said, post, hoccurred, hmarks, rfl⟩ := h
  have hprefix : pre ++ [.talks .owner said] <+: life.occurred := by
    rw [hoccurred]
    exact ⟨post, by simp⟩
  obtain ⟨t, run⟩ := life.runs.of_prefix hprefix
  exact (marked_of_runs run hmarks).2

/-- A word that was written in a lifetime was written by the owner. -/
theorem Lifetime.writes_of_mem [Quantity ν] {b : Board} {life : Lifetime ν b} {value : Word}
    {said : Answered ν} (h : said ∈ talkOf life.occurred)
    (hmarks : said.request.marks = some value) :
    ∃ s, life.Writes value s := by
  obtain ⟨e, he, hsaid⟩ := List.mem_filterMap.mp h
  obtain ⟨pre, post, hoccurred⟩ := List.append_of_mem he
  cases e with
  | begins | ends | arrives => cases hsaid
  | talks p said' =>
    cases hsaid
    have hprefix : pre ++ [.talks p said] <+: life.occurred := by
      rw [hoccurred]
      exact ⟨post, by simp⟩
    obtain ⟨t, run⟩ := life.runs.of_prefix hprefix
    obtain ⟨rfl, -⟩ := marked_of_runs run hmarks
    exact ⟨progress pre, pre, said, post, hoccurred, hmarks, rfl⟩

/-- **What the word on the board is worth.** A word of a resident dataset is written only by a call
for its epoch, and then the dataset is complete if and only if no failure was swallowed on the way.
A change that finds a dataset resident, in this lifetime of the driver or in a later one, goes back
to such a write for an epoch with the same low half. -/
theorem written_marked_and_resident_written [Quantity ν] {b : Board} (life : Lifetime ν b) :
    (∀ value s, life.Writes value s → Marked b value s) ∧
    ∀ before pre ctx, Authentic [] (talkOfAll (before ++ [⟨b, life⟩])) →
      life.occurred = pre ++ [.ends (.prepare ctx) (.ok .resident)] →
      ∃ earlier ∈ before ++ [⟨b, life⟩], ∃ value s, earlier.2.Writes value s ∧
        Marked earlier.1 value s ∧
        value &&& (0xffff : Word) = ctx.epoch &&& (0xffff : Word) := by
  refine ⟨fun value s h ↦ h.marked, fun before pre ctx authentic hoccurred ↦ ?_⟩
  have run := life.runs
  rw [hoccurred] at run
  -- the change was shown a word, the word was written before, and whoever wrote it was an owner
  obtain ⟨value, hshown, hvalid, hepoch⟩ := shows_of_runs run
  have hread : (⟨.call (.read Reg.dagStatus), .ok value⟩ : Answered ν) ∈
      talkOfAll (before ++ [⟨b, life⟩]) := by
    refine List.mem_flatMap.mpr ⟨⟨b, life⟩, by simp, ?_⟩
    rw [hoccurred, talkOf_append]
    exact List.mem_append_left _ (mem_of_shown hshown)
  obtain ⟨talk, talk', htalk⟩ := List.append_of_mem hread
  rw [htalk] at authentic
  obtain ⟨said, hsaid, hmarks⟩ := (authentic.written hvalid).resolve_left List.not_mem_nil
  have hmem : said ∈ talkOfAll (before ++ [⟨b, life⟩]) := by
    rw [htalk]
    exact List.mem_append_left _ hsaid
  obtain ⟨earlier, hearlier, hin⟩ := List.mem_flatMap.mp hmem
  obtain ⟨s, hwrites⟩ := Lifetime.writes_of_mem hin hmarks
  exact ⟨earlier, hearlier, value, s, hwrites, hwrites.marked, hepoch⟩

/-! ### A copy that failed -/

namespace Status

/-- An epoch with an empty light cache. -/
def smallEpoch : EpochContext where
  epoch := 7
  dagSize := 1_132_459_136
  lightSize := 17_694_272
  seed := .zero
  lightCache := some .empty

/-- The first copy fails, the word is written, and the driver stops there. -/
def failedCopy : Rehearsal (uploadBoard.errands (ν := Rat)) :=
  .rehearse (.start 0 false) {} { brokenMove := some 0 }
    [.begins (.prepare smallEpoch), .goes .owner 96]

/-- The driver is started again, and finds the word on the board. -/
def restarted : Rehearsal (uploadBoard.errands (ν := Rat)) :=
  .rehearse (.start 0 false) {} { registers := [(Reg.dagStatus, 0x8000_0007)] }
    [.begins (.prepare smallEpoch), .goes .owner 200]

/-- The lifetime in which a copy fails. -/
def brokenOff : Lifetime Rat uploadBoard where
  memory := .start 0 false
  feed := {}
  occurred := failedCopy.occurrences
  scene := failedCopy.scene
  runs := Rehearsal.rehearse_runs ..

/-- The lifetime after that. -/
def afterwards : Lifetime Rat uploadBoard where
  memory := .start 0 false
  feed := {}
  occurred := restarted.occurrences
  scene := restarted.scene
  runs := Rehearsal.rehearse_runs ..

/-- The lifetimes before the restart. -/
def brokenHistory : List ((b : Board) × Lifetime Rat b) := [⟨uploadBoard, brokenOff⟩]

/-- The word is written. -/
def isMark : Occurrence (uploadBoard.errands (ν := Rat)) → Bool
  | .talks .owner said => said.request.marks = some 0x8000_0007
  | _ => false

/-- The dataset of epoch 7 is found resident. -/
def isFound : Occurrence (uploadBoard.errands (ν := Rat)) → Bool
  | .ends (.prepare ctx) (.ok .resident) => ctx.epoch = 7
  | _ => false

theorem brokenOff_writes : brokenOff.Writes 0x8000_0007 (progress failedCopy.before) := by
  have marks : failedCopy.lastPasses isMark := by decide +kernel
  obtain ⟨e, htest, hlast⟩ := Rehearsal.occurrences_of_lastPasses marks
  unfold isMark at htest
  split at htest
  · rename_i said
    exact ⟨failedCopy.before, said, [], hlast, of_decide_eq_true htest, rfl⟩
  · cases htest

theorem afterwards_resident : ∃ ctx, ctx.epoch = 7 ∧
    afterwards.occurred = restarted.before ++ [.ends (.prepare ctx) (.ok .resident)] := by
  have found : restarted.lastPasses isFound := by decide +kernel
  obtain ⟨e, htest, hlast⟩ := Rehearsal.occurrences_of_lastPasses found
  unfold isFound at htest
  split at htest
  · rename_i ctx
    exact ⟨ctx, of_decide_eq_true htest, hlast⟩
  · cases htest

end Status

/-- What the word is worth after a copy failed: nothing, and the next lifetime takes it for the
dataset of epoch 7. -/
theorem resident_of_failedCopy :
    ¬(progress failedCopy.before).IsComplete uploadBoard ∧
      ∃ earlier ∈ brokenHistory ++ [⟨uploadBoard, afterwards⟩], ∃ value s,
        earlier.2.Writes value s ∧ Marked earlier.1 value s ∧
          value &&& (0xffff : Word) = 7 := by
  constructor
  · have hswallowed : ¬(progress failedCopy.before).swallowed = false := by decide +kernel
    have hmarked := (written_marked_and_resident_written brokenOff).1 _ _ brokenOff_writes
    exact fun hcomplete ↦ hswallowed (hmarked.2.mp hcomplete)
  · obtain ⟨ctx, hepoch, hresident⟩ := afterwards_resident
    have authentic : Authentic [] (talkOfAll (brokenHistory ++ [⟨uploadBoard, afterwards⟩])) := by
      decide +kernel
    have hworth := (written_marked_and_resident_written afterwards).2 _ _ ctx authentic hresident
    rw [hepoch] at hworth
    exact hworth

/-- Not every word of a resident dataset is written for a dataset that is complete. -/
theorem marked_not_complete :
    ¬∀ (b : Board) (life : Lifetime Rat b) (value : Word) (s : Progress),
      life.Writes value s → s.IsComplete b := by
  intro always
  have hcomplete := always uploadBoard brokenOff _ _ brokenOff_writes
  have hincomplete : ¬(progress failedCopy.before).IsComplete uploadBoard := by decide +kernel
  exact hincomplete hcomplete

end HashBoard
