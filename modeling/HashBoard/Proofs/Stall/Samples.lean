import Mathlib.Data.List.Chain
import HashBoard.Proofs.Search.Progress

/-!
# Samples of the stall counter

A round of a search that gets as far as having its nonces samples the stall counter once, and
compares the sample with the one before. Nothing else in a search reads this counter. So the samples
of the rounds that led to another one are one for each, and no two neighbours are the same
(`samples_of_laps`); only the last round of a search can find the counter where it stood.
-/

namespace HashBoard

variable {ν : Type}

/-- The sample of the stall counter that a reply gives; zero if the counter could not be read. -/
def Answered.stallSample? (said : Answered ν) : Option Word :=
  (said.told? Reg.stallCount).map fun
    | .ok word => word
    | .error _ => 0

/-- The samples of the stall counter. -/
def stallSamples (talk : List (Answered ν)) : List Word := talk.filterMap Answered.stallSample?

namespace Stall

open Routine Board

variable {talk : List (Answered ν)} {b : Board} {work : Work}

theorem stallSamples_append (talk talk' : List (Answered ν)) :
    stallSamples (talk ++ talk') = stallSamples talk ++ stallSamples talk' := List.filterMap_append

theorem stallSamples_flatten {rounds : List (List (Answered ν))} {ws : List Word}
    (h : rounds.map stallSamples = ws.map ([·])) : stallSamples rounds.flatten = ws := by
  have hflatten : stallSamples rounds.flatten = (rounds.map stallSamples).flatten :=
    List.filterMap_flatten
  rw [hflatten, h]
  exact List.flatMap_singleton' ws

/-! ## Where the counter is not sampled -/

/-- A request other than one to read the stall counter. -/
def Unsampled (r : Request ν) : Prop := r ≠ .call (.read Reg.stallCount)

theorem stallSamples_eq_nil (h : ∀ said ∈ talk, Unsampled said.request) :
    stallSamples talk = [] := by
  rw [stallSamples, List.filterMap_eq_nil_iff]
  intro said hs
  rw [Answered.stallSample?, told?_of_ne (h said hs), Option.map_none]

theorem stallSamples_append_left {silent : List (Answered ν)}
    (h : ∀ said ∈ silent, Unsampled said.request) (talk : List (Answered ν)) :
    stallSamples (silent ++ talk) = stallSamples talk := by
  rw [stallSamples_append, stallSamples_eq_nil h, List.nil_append]

theorem unsampled_of_isQuiet {r : Request ν} (h : r.isQuiet) : Unsampled r := by
  rintro rfl
  have htelling : Reg.stallCount ∈ Reg.telling := by decide
  simp [Request.isQuiet, htelling] at h

theorem unsampled_note (event : Event ν) : Unsampled (.note event) := nofun

theorem roomToRun_unsampled : RoomToRun (Unsampled : Request ν → Prop) work where
  quiet _ := unsampled_of_isQuiet
  programmed _ _ _ := nofun
  looks := nofun
  books _ _ := nofun
  searching _ := nofun
  halt := nofun
  acquire := nofun
  release := nofun
  writes _ _ _ := nofun
  header := nofun
  target _ := nofun

theorem roomToGather_unsampled : RoomToGather (Unsampled : Request ν → Prop) where
  quiet _ := unsampled_of_isQuiet
  slots addr haddr := by
    have hnone : Reg.slots.all (· ≠ Reg.stallCount) := by decide
    intro heq
    cases heq
    exact of_decide_eq_true (List.all_eq_true.mp hnone _ haddr) rfl
  interrupts _ _ := nofun
  acquire := nofun
  release := nofun
  clears := nofun

/-! ## One sample -/

/-- With stall detection the counter is sampled once, and compared with the last sample. -/
theorem samples_of_run_checkStall (enabled : b.settings.skipStallDetection = false)
    {last : Option Word} {stall : Bool × Option Word} (run : Run (b.checkStall last) talk stall) :
    ∃ w, stallSamples talk = [w] ∧ stall = (decide (last = some w), some w) := by
  rw [checkStall, if_neg (by rw [enabled]; exact Bool.false_ne_true)] at run
  obtain ⟨counting, count, _, rfl, hcounting, hdone⟩ := run_bind_iff.mp run
  obtain ⟨rfl, rfl⟩ := run_done_iff.mp hdone
  obtain ⟨reading, x, more, rfl, hreading, hmore⟩ := run_bind_iff.mp hcounting
  obtain ⟨notes, rfl, hnotes⟩ := exists_of_run_read hreading
  have silent : ∀ said ∈ notes, Unsampled said.request := by
    intro said hs
    obtain ⟨event, hevent⟩ := hnotes said hs
    rw [hevent]
    exact unsampled_note event
  refine ⟨count, ?_, rfl⟩
  rw [List.append_nil, List.cons_append, ← List.singleton_append, stallSamples_append,
    stallSamples_append_left silent]
  cases x with
  | ok word =>
    obtain ⟨rfl, rfl⟩ := run_done_iff.mp hmore
    rfl
  | error fault =>
    obtain ⟨_, _, rfl, hzero⟩ := (run_ask_iff (r := .note _)).mp hmore
    obtain ⟨rfl, rfl⟩ := run_done_iff.mp hzero
    rfl

/-! ## The other parts of a round -/

theorem unsampled_countChecks (c : CheckCounter) :
    (countChecks c : Routine ν _).Only Unsampled := by
  refine only_countChecks (fun _ ↦ unsampled_of_isQuiet) c fun addr haddr heq ↦ ?_
  have hnone : Reg.checks.all (· ≠ Reg.stallCount) := by decide
  cases heq
  exact of_decide_eq_true (List.all_eq_true.mp hnone _ haddr) rfl

theorem unsampled_reports (b : Board) (work : Work) (nonces : List UInt64) :
    (forEach (b.report work) nonces : Routine ν _).Only Unsampled :=
  only_forEach fun nonce _ ↦
    only_report (fun _ ↦ unsampled_of_isQuiet) b work nonce fun _ _ ↦ nofun

variable [Quantity ν] {r r' : Round} {nonces : List UInt64}

theorem unsampled_keepAccount (delta : UInt64) (found : Nat) (elapsed t : Micros) :
    (keepAccount delta found elapsed t : Routine ν _).Only Unsampled :=
  only_keepAccount (fun _ ↦ unsampled_of_isQuiet) (fun _ ↦ nofun) (fun _ _ ↦ nofun) _ _ _ _

theorem unsampled_watchIfDue (b : Board) (watched t : Micros) :
    (b.watchIfDue watched t : Routine ν _).Only Unsampled := by
  have room : RoomToWatch (Unsampled : Request ν → Prop) :=
    { quiet := fun _ ↦ unsampled_of_isQuiet
      books := fun _ _ ↦ nofun
      halt := nofun
      coreFlags := fun _ ↦ nofun
      coreOff := nofun
      powerOff := nofun }
  exact only_watchIfDue room b watched t

/-- Once its nonces are there, a round samples the counter once. -/
theorem samples_of_finish (enabled : b.settings.skipStallDetection = false)
    (f : Finish (ν := ν) b work r nonces) :
    ∃ w, stallSamples f.said = [w] ∧ f.stall = (decide (r.stall = some w), some w) := by
  obtain ⟨w, hw, hstall⟩ := samples_of_run_checkStall enabled f.run_sampling
  refine ⟨w, ?_, hstall⟩
  rw [Finish.said, stallSamples_append, hw, stallSamples_eq_nil, List.append_nil]
  simp only [List.forall_mem_append, List.forall_mem_cons]
  refine ⟨(unsampled_countChecks _).of_run f.run_checking,
    (unsampled_reports b work nonces).of_run f.run_handing, unsampled_of_isQuiet rfl,
    (unsampled_keepAccount _ _ _ _).of_run f.run_telling,
    (unsampled_watchIfDue b r.watched f.t).of_run f.run_watching, ?_⟩
  split
  · exact List.forall_mem_singleton.mpr (unsampled_note _)
  · exact List.forall_mem_nil _

omit [Quantity ν] in
/-- The head of a round, and what gathers its nonces, does not sample the counter. -/
theorem unsampled_of_gathering {m : Memory ν} {gathering : List (Answered ν)}
    {y : Except BoardError (List UInt64)} (hgather : Run b.gatherNonces gathering y) :
    ∀ said ∈ ⟨.memory, m⟩ :: ⟨.isCancelled, false⟩ :: gathering, Unsampled said.request := by
  simp only [List.forall_mem_cons]
  exact ⟨nofun, nofun, (only_gatherNonces roomToGather_unsampled b).of_run hgather⟩

/-- A round that leads to another one found the counter elsewhere than it stood. -/
theorem samples_of_lap (enabled : b.settings.skipStallDetection = false)
    (run : Run (b.searchRound work r) talk (.inl r')) :
    ∃ w, stallSamples talk = [w] ∧ r.stall ≠ some w ∧ r'.stall = some w := by
  cases roundCourse_of_run run with
  | @finished m gathering nonces x f hwork hgather hx =>
    obtain ⟨w, hw, hstall⟩ := samples_of_finish enabled f
    refine ⟨w, ?_, ?_⟩
    · rw [← hw]
      exact stallSamples_append_left (unsampled_of_gathering hgather) f.said
    · rw [Finish.outcome, hstall] at hx
      split at hx
      · cases hx
      · rename_i hmoves
        cases hx
        exact ⟨of_decide_eq_false (Bool.eq_false_iff.mpr hmoves), rfl⟩

/-- The samples of rounds that led to one another are one for each, and no two neighbours are the
same. -/
theorem samples_of_laps (enabled : b.settings.skipStallDetection = false)
    {laps : List (List (Answered ν))} (h : Laps (b.searchRound work) r laps r') :
    ∃ ws : List Word, laps.map stallSamples = ws.map ([·]) ∧
      (r.stall.toList ++ ws).IsChain (· ≠ ·) ∧ r'.stall = (r.stall.toList ++ ws).getLast? := by
  induction h with
  | nil r =>
    refine ⟨[], rfl, ?_, ?_⟩
    · cases r.stall <;> simp
    · cases r.stall <;> rfl
  | @cons r r' r'' lap laps run _ ih =>
    obtain ⟨w, hw, hmoved, hstall⟩ := samples_of_lap enabled run
    obtain ⟨ws, hws, hchain, hlast⟩ := ih
    -- the laps that follow compare their first sample with the one of this lap
    rw [hstall] at hchain hlast
    refine ⟨w :: ws, ?_, ?_, ?_⟩
    · rw [List.map_cons, List.map_cons, hw, hws]
    · cases hbefore : r.stall with
      | none => exact hchain
      | some v =>
        rw [hbefore] at hmoved
        exact List.isChain_cons_cons.mpr ⟨fun heq ↦ hmoved (congrArg some heq), hchain⟩
    · rw [hlast]
      cases r.stall <;> rfl

end Stall

end HashBoard
