import HashBoard.Proofs.Scene.Rehearsal
import HashBoard.Proofs.Tally.Averages

/-!
# Which deltas are right

The board counts checks in a counter that lives as long as the board, and advances here by the same
step with every sample. A search looks at it through a counter of its own. So there are two kinds of
deltas that are wrong: the first one of a search, which is everything the board counted so far, and
a second wrap within one search, which is told as nearly everything there can be. All others are
right, and the averages are made of the same deltas as the tuning is told.
-/

namespace HashBoard

open Routine

variable {ν : Type}

/-! ## A counter that ticks -/

/-- A reply of a check counter that stands at `c`, which is not zero, with zero in the high word. -/
def Answered.Ticks (c : Word) : Answered ν → Prop
  | ⟨.call (.read addr), .ok value⟩ =>
    (addr = Reg.checksLo → value = c ∧ value ≠ 0) ∧ (addr = Reg.checksHi → value = 0)
  | ⟨.call (.read addr), .error _⟩ => addr ∉ Reg.checks
  | _ => True

/-- Where a check counter stands after something was said: it advances with every sample. -/
def Answered.ticked (step c : Word) : Answered ν → Word
  | ⟨.call (.read addr), _⟩ => if addr = Reg.checksLo then c + step else c
  | _ => c

/-- Replies of a board whose check counter stands at `c` and advances by a step with every sample.
-/
def Ticking (step : Word) : (c : Word) → List (Answered ν) → Prop
  | _, [] => True
  | c, said :: talk => said.Ticks c ∧ Ticking step (said.ticked step c) talk

instance (c : Word) (said : Answered ν) : Decidable (said.Ticks c) :=
  decidable_of_iff
    (match said with
      | ⟨.call (.read addr), .ok value⟩ =>
        (addr = Reg.checksLo → value = c ∧ value ≠ 0) ∧ (addr = Reg.checksHi → value = 0)
      | ⟨.call (.read addr), .error _⟩ => addr ∉ Reg.checks
      | _ => true : Bool) <| by
    unfold Answered.Ticks
    split <;> simp [Decidable.imp_iff_not_or]

def Ticking.decide (step : Word) : (c : Word) → (talk : List (Answered ν)) →
    Decidable (Ticking step c talk)
  | _, [] => .isTrue trivial
  | c, said :: talk =>
    have := Ticking.decide step (said.ticked step c) talk
    inferInstanceAs (Decidable (said.Ticks c ∧ Ticking step _ talk))

instance (step c : Word) (talk : List (Answered ν)) : Decidable (Ticking step c talk) :=
  Ticking.decide step c talk

theorem Ticking.of_append {step c : Word} {talk talk' : List (Answered ν)}
    (h : Ticking step c (talk ++ talk')) : Ticking step c talk := by
  induction talk generalizing c with
  | nil => trivial
  | cons said talk ih => exact ⟨h.1, ih h.2⟩

/-- A sample is the only thing that a counter ticks for. -/
theorem Answered.samples_of_ticks {c : Word} {said : Answered ν} (h : said.Ticks c) (step : Word) :
    samples [said] = [] ∧ said.ticked step c = c ∨
      samples [said] = [c] ∧ c ≠ 0 ∧ said.ticked step c = c + step := by
  obtain ⟨r, x⟩ := said
  cases r with
  | call request =>
    cases request with
    | read addr =>
      by_cases haddr : addr = Reg.checksLo
      · subst haddr
        cases x with
        | error fault => exact absurd (by decide) h
        | ok value =>
          obtain ⟨rfl, hne⟩ := h.1 rfl
          exact .inr ⟨rfl, hne, rfl⟩
      · refine .inl ⟨?_, if_neg haddr⟩
        cases x <;> simp [samples, haddr]
    | _ => exact .inl ⟨rfl, rfl⟩
  | _ => exact .inl ⟨rfl, rfl⟩

theorem Answered.Ticks.counts {c : Word} {said : Answered ν} (h : said.Ticks c) : said.Counts := by
  unfold Answered.Ticks at h
  split at h
  · exact h.2
  · exact h
  · rename_i hok herror
    unfold Answered.Counts
    split
    · exact absurd rfl (hok _ _)
    · exact absurd rfl (herror _ _)
    · trivial

/-- The samples of a counter that ticks go up by the step. -/
theorem Ticking.samples {step c : Word} {talk : List (Answered ν)} (h : Ticking step c talk) :
    Counts talk ∧ (∀ lo ∈ samples talk, lo ≠ 0) ∧ (∀ lo ∈ (samples talk).head?, lo = c) ∧
      (samples talk).IsChain fun lo lo' ↦ lo' = lo + step := by
  induction talk generalizing c with
  | nil => simp [Counts, HashBoard.samples]
  | cons said talk ih =>
    obtain ⟨hcounts, hnonzero, hhead, hchain⟩ := ih h.2
    have hsplit : HashBoard.samples (said :: talk) =
        HashBoard.samples [said] ++ HashBoard.samples talk := samples_append [said] talk
    refine ⟨List.forall_mem_cons.mpr ⟨h.1.counts, hcounts⟩, ?_⟩
    rw [hsplit]
    rcases Answered.samples_of_ticks h.1 step with ⟨hnone, hstay⟩ | ⟨hone, hne, hstep⟩
    · rw [hnone, List.nil_append, ← hstay]
      exact ⟨hnonzero, hhead, hchain⟩
    · rw [hone]
      rw [hstep] at hhead
      refine ⟨List.forall_mem_cons.mpr ⟨hne, hnonzero⟩, by simp, ?_⟩
      exact List.isChain_cons.mpr ⟨hhead, hchain⟩

/-! ## Samples and deltas of a run -/

namespace Tally

variable [Quantity ν] {b : Board} {memory : Memory ν} {feed : Feed}
  {es before since : List (Occurrence (b.errands (ν := ν)))} {s : Scene (b.errands (ν := ν))}

/-- Only the owner samples the check counter. -/
theorem samples_talkOf (run : Scene.Runs (.quiet memory feed) (before ++ since) s) :
    samples (talkOf since) = samples (ownTalk since) :=
  run.filterMap_talkOf (Scene.orderly_quiet memory feed) fun said h ↦ by
    have hnone := (aside_of_modest h).samples_eq (x := said.reply)
    exact List.filterMap_eq_nil_iff.mp hnone said (.head _)

/-- Only searches tell the tuning, and each tells what a new counter makes of its samples. -/
theorem tells_of_tune {party : Party} {delta : UInt64} {x : Unit}
    (run : Scene.Runs (.quiet memory feed) (es ++ [.talks party ⟨.tune delta, x⟩]) s)
    (counts : Counts (talkOf es)) :
    ∃ work, ∃ before since : List (Occurrence (b.errands (ν := ν))),
      es = before ++ .begins (.search work) :: since ∧ (∀ e ∈ since, e.IsWithin) ∧
        deltas (ownTalk since) ++ [delta] = CheckCounter.tally {} (samples (ownTalk since)) := by
  have hne : ¬Modest (.tune delta : Request ν) := fun h ↦ (aside_of_modest h).tune delta rfl
  obtain ⟨rfl, job, before, since, rfl, hwithin, p, q, hpath, hp⟩ :=
    run.begun_of_asked (Scene.orderly_quiet memory feed) rfl hne
  cases job with
  | prepare ctx =>
    have hprepare : (b.prepareEpoch ctx : Routine ν _).Only Spares :=
      Board.only_prepareEpoch roomToPrepare_spares b ctx
    have hall := hprepare.of_path (hpath.append (.cons hp (.nil _)))
    exact absurd rfl ((hall _ (List.mem_append_right _ (.head _))).tune delta)
  | search work =>
    refine ⟨work, before, since, rfl, hwithin, ?_⟩
    refine (ensures_search b work).guard_of_path hpath hp delta rfl fun said hsaid ↦ counts said ?_
    rw [List.append_cons, talkOf_append]
    exact List.mem_append_right _ (ownTalk_subset since hsaid)

omit [Quantity ν] in
/-- A delta that is told is owed for the last sample of the search. -/
theorem length_of_tells {talk : List (Answered ν)} {delta : UInt64}
    (h : deltas talk ++ [delta] = CheckCounter.tally {} (samples talk)) :
    (samples talk).length = (deltas talk).length + 1 := by
  rw [← CheckCounter.length_tally (c := {}), ← h, List.length_append]
  rfl

/-- What was told was sampled. -/
theorem samples_ne_nil (run : Scene.Runs (.quiet memory feed) es s) (counts : Counts (talkOf es))
    (told : deltas (talkOf es) ≠ []) : samples (talkOf es) ≠ [] := by
  obtain ⟨earlier, delta, x, later, htalk⟩ := exists_tune told
  obtain ⟨pre, party, post, rfl, rfl, -⟩ := talkOf_eq_append_cons htalk
  rw [List.append_cons] at run
  obtain ⟨t, upTo⟩ := run.of_prefix (List.prefix_append _ post)
  rw [talkOf_append] at counts ⊢
  obtain ⟨work, before, since, rfl, -, htells⟩ := tells_of_tune upTo counts.of_append
  obtain ⟨t, upTo, -⟩ := upTo.of_snoc
  rw [List.append_cons] at upTo ⊢
  rw [talkOf_append _ since, samples_append, samples_append, samples_talkOf upTo]
  have hlength := length_of_tells htells
  intro hnil
  simp only [List.append_eq_nil_iff] at hnil
  rw [hnil.1.2] at hlength
  cases hlength

/-- Only the owner tells the tuning. -/
theorem deltas_talkOf (run : Scene.Runs (.quiet memory feed) (before ++ since) s) :
    deltas (talkOf since) = deltas (ownTalk since) :=
  run.filterMap_talkOf (Scene.orderly_quiet memory feed) fun said h ↦ by
    have hnone := deltas_eq_nil (aside_of_modest h).tune said.reply
    exact List.filterMap_eq_nil_iff.mp hnone said (.head _)

/-- The sample before the first one of a search lies one step back. -/
theorem exists_previous {step c lo : Word}
    (run : Scene.Runs (.quiet memory feed) (before ++ since) s)
    (ticks : Ticking step c (talkOf (before ++ since)))
    (told : deltas (talkOf (before ++ since)) ≠ []) (own : samples (ownTalk since) = [lo])
    (first : deltas (ownTalk since) = []) : ∃ previous, previous ≠ 0 ∧ lo = previous + step := by
  obtain ⟨counts, nonzero, -, chain⟩ := ticks.samples
  rw [talkOf_append] at counts told
  rw [talkOf_append, samples_append, samples_talkOf run, own] at nonzero chain
  rw [deltas_append, deltas_talkOf run, first, List.append_nil] at told
  obtain ⟨t, upTo⟩ := run.of_prefix (List.prefix_append before since)
  have hne := samples_ne_nil upTo counts.of_append told
  obtain ⟨earlier, previous, hearlier⟩ := (List.eq_nil_or_concat' _).resolve_left hne
  rw [hearlier] at nonzero chain
  have hpair : [previous, lo].IsChain fun lo lo' ↦ lo' = lo + step :=
    chain.infix ⟨earlier, [], by simp⟩
  exact ⟨previous, nonzero previous (by simp), by simpa using hpair⟩

/-- A delta that was not the first one to be told is the step of the board, unless its sample was
the first of its search or relapses. -/
theorem delta_iff_of_tells {step c : Word} {delta : UInt64}
    (run : Scene.Runs (.quiet memory feed) (before ++ since) s)
    (ticks : Ticking step c (talkOf (before ++ since)))
    (told : deltas (talkOf (before ++ since)) ≠ [])
    (tells : deltas (ownTalk since) ++ [delta] = CheckCounter.tally {} (samples (ownTalk since))) :
    delta = step.toUInt64 ↔
      2 ≤ (samples (ownTalk since)).length ∧ ¬Relapses (samples (ownTalk since)) := by
  obtain ⟨counts, nonzero, -, chain⟩ := ticks.samples
  rw [talkOf_append, samples_append, samples_talkOf run] at nonzero chain
  have hlength := length_of_tells tells
  have hne : samples (ownTalk since) ≠ [] := List.ne_nil_of_length_eq_add_one hlength
  obtain ⟨earlier, lo, hown⟩ := (List.eq_nil_or_concat' _).resolve_left hne
  have hnonzero : ∀ lo' ∈ earlier ++ [lo], lo' ≠ 0 := fun lo' h ↦
    nonzero lo' (List.mem_append_right _ (hown ▸ h))
  have hdelta : delta = ((CheckCounter.afterAll {} earlier).advance lo 0).2 := by
    rw [hown, CheckCounter.tally_snoc] at tells
    exact List.singleton_inj.mp (List.append_inj' tells rfl).2
  rcases List.eq_nil_or_concat' earlier with rfl | ⟨earlier, previous, rfl⟩
  · -- the first sample of a search is taken for everything since zero
    have hfirst : deltas (ownTalk since) = [] := by
      rw [hown] at hlength
      exact List.length_eq_zero_iff.mp (Nat.succ.inj hlength).symm
    obtain ⟨previous, hprevious, hlo⟩ := exists_previous run ticks told hown hfirst
    have hzero : CheckCounter.afterAll {} [] = {} := rfl
    rw [hdelta, hzero, CheckCounter.delta_first (hnonzero lo (by simp)), hown]
    refine iff_of_false (fun h ↦ hprevious ?_) (fun h ↦ absurd h.1 (by simp))
    have hstep : previous + step = step := hlo.symm.trans (UInt32.toUInt64_inj.mp h)
    simpa using hstep
  · rw [hown] at chain
    have hpair : [previous, lo].IsChain fun lo lo' ↦ lo' = lo + step :=
      chain.infix ⟨samples (talkOf before) ++ earlier, [], by simp⟩
    rw [List.append_assoc, List.singleton_append] at hnonzero hown
    have hlo : lo = previous + step := by simpa using hpair
    rw [hdelta, CheckCounter.delta_iff hnonzero hlo, hown]
    simp

end Tally

/-- **Which deltas are right.** Let the check counter of the board advance by a step with every
sample, and never be zero. Then a delta that is told after another one is that step if and only if
its sample is not the first one of its search, and does not wrap after an earlier sample of the same
search did. The averages are made of the deltas that are told, in order, but for one that may be
owed. -/
theorem deltas_right_iff [Quantity ν] {b : Board} {memory : Memory ν} {feed : Feed}
    {es : List (Occurrence (b.errands (ν := ν)))} {s : Scene (b.errands (ν := ν))} {step c : Word}
    (run : Scene.Runs (.quiet memory feed) es s) (ticks : Ticking step c (talkOf es)) :
    (∀ earlier party delta later, es = earlier ++ .talks party ⟨.tune delta, ()⟩ :: later →
      deltas (talkOf earlier) ≠ [] →
        ∃ work, ∃ before since : List (Occurrence (b.errands (ν := ν))),
          earlier = before ++ .begins (.search work) :: since ∧ (∀ e ∈ since, e.IsWithin) ∧
            (delta = step.toUInt64 ↔
              2 ≤ (samples (ownTalk since)).length ∧ ¬Relapses (samples (ownTalk since)))) ∧
      ∃ entries : List (Recorded ν), s.shared.memory.averager = memory.averager.recordAll entries ∧
        (deltas (talkOf es) = entries.map Recorded.delta ∨
          ∃ owed, deltas (talkOf es) = entries.map Recorded.delta ++ [owed]) := by
  constructor
  · rintro earlier party delta later rfl told
    rw [List.append_cons] at run
    obtain ⟨t, upTo⟩ := run.of_prefix (List.prefix_append _ later)
    have hticks : Ticking step c (talkOf earlier) := by
      rw [talkOf_append] at ticks
      exact ticks.of_append
    obtain ⟨work, before, since, rfl, hwithin, htells⟩ :=
      Tally.tells_of_tune upTo hticks.samples.1
    obtain ⟨t, upTo, -⟩ := upTo.of_snoc
    refine ⟨work, before, since, rfl, hwithin, ?_⟩
    rw [List.append_cons] at upTo hticks told
    exact Tally.delta_iff_of_tells upTo hticks told htells
  · rw [run.shared_eq]
    rcases Tally.safe_of_runs run with
      ⟨entries, haverager, htold⟩ | ⟨owed, entries, haverager, htold⟩
    · exact ⟨entries, haverager, .inl (htold.trans (List.append_nil _))⟩
    · exact ⟨entries, haverager, .inr ⟨owed, htold⟩⟩

/-! ### A counter that wraps once, and one that wraps twice -/

namespace Tally

/-- A search on a board that counts more than half of what its counter holds with every sample. -/
def fastSearch (steps : Nat) : Rehearsal (plainBoard.errands (ν := Rat)) :=
  .rehearse (.start 0 false) {}
    { SimulatedBoard.healthy with
      registers := [(Reg.checksLo, 1000)]
      steps := [(Reg.stallCount, 1), (Reg.checksLo, 3_000_000_000)] }
    [.begins (.search plainWork), .goes .owner steps]

/-- The tuning is told a delta that passes a test. -/
def tells (test : UInt64 → Bool) : Occurrence (plainBoard.errands (ν := Rat)) → Bool
  | .talks _ ⟨.tune delta, _⟩ => test delta
  | _ => false

theorem tune_of_tells {test : UInt64 → Bool} {e : Occurrence (plainBoard.errands (ν := Rat))}
    (h : tells test e) : ∃ party delta, e = .talks party ⟨.tune delta, ()⟩ ∧ test delta := by
  unfold tells at h
  split at h
  · exact ⟨_, _, rfl, h⟩
  · cases h

end Tally

/-- The guarantee for the sample with which the counter wraps for the first time. -/
theorem step_told_at_first_wrap : ∃ s : Scene (plainBoard.errands (ν := Rat)), ∃ party work,
    ∃ es since : List (Occurrence (plainBoard.errands (ν := Rat))),
      es = .begins (.search work) :: since ++ [.talks party ⟨.tune 3_000_000_000, ()⟩] ∧
      Scene.Runs (.quiet (.start 0 false) {}) es s ∧ Ticking 3_000_000_000 1000 (talkOf es) ∧
      Wrapped (samples (ownTalk since)) := by
  have run : Scene.Runs (.quiet (.start 0 false) {}) (Tally.fastSearch 62).occurrences
      (Tally.fastSearch 62).scene := Rehearsal.rehearse_runs ..
  have htells : (Tally.fastSearch 62).lastPasses (Tally.tells fun _ ↦ true) := by decide +kernel
  have single : Rehearsal.isSingleJob (Tally.fastSearch 62).before := by decide +kernel
  have ticks : Ticking 3_000_000_000 1000 (talkOf (Tally.fastSearch 62).occurrences) := by
    decide +kernel
  have told : deltas (talkOf (Tally.fastSearch 62).before) ≠ [] := by decide +kernel
  have hsamples : samples (ownTalk (Tally.fastSearch 62).before) =
      [1000] ++ [3_000_001_000, 1_705_033_704] := by decide +kernel
  obtain ⟨e, htest, hlast⟩ := Rehearsal.occurrences_of_lastPasses htells
  obtain ⟨party, delta, rfl, -⟩ := Tally.tune_of_tells htest
  rw [hlast] at run ticks
  generalize (Tally.fastSearch 62).before = es at run ticks single told hsamples
  obtain ⟨work, before, since, rfl, -, hright⟩ :=
    (deltas_right_iff run ticks).1 es party delta [] rfl told
  obtain rfl := Rehearsal.eq_nil_of_isSingleJob single
  change samples (ownTalk since) = _ at hsamples
  have hone : ¬Relapses (samples (ownTalk since)) := by
    rw [hsamples, CheckCounter.relapses_snoc]
    decide
  obtain rfl : delta = 3_000_000_000 := hright.mpr ⟨by rw [hsamples]; decide, hone⟩
  refine ⟨_, party, work, _, since, rfl, run, ticks, ?_⟩
  rw [hsamples]
  decide

/-- The guarantee fails for a counter that wraps a second time. -/
theorem other_delta_told : ∃ s : Scene (plainBoard.errands (ν := Rat)), ∃ party delta,
    ∃ es : List (Occurrence (plainBoard.errands (ν := Rat))),
      Scene.Runs (.quiet (.start 0 false) {}) (es ++ [.talks party ⟨.tune delta, ()⟩]) s ∧
      Ticking 3_000_000_000 1000 (talkOf es) ∧ deltas (talkOf es) ≠ [] ∧ delta ≠ 3_000_000_000 := by
  have run : Scene.Runs (.quiet (.start 0 false) {}) (Tally.fastSearch 78).occurrences
      (Tally.fastSearch 78).scene := Rehearsal.rehearse_runs ..
  have htells : (Tally.fastSearch 78).lastPasses (Tally.tells (· ≠ 3_000_000_000)) := by
    decide +kernel
  have ticks : Ticking 3_000_000_000 1000 (talkOf (Tally.fastSearch 78).before) := by
    decide +kernel
  have told : deltas (talkOf (Tally.fastSearch 78).before) ≠ [] := by decide +kernel
  obtain ⟨e, htest, hlast⟩ := Rehearsal.occurrences_of_lastPasses htells
  obtain ⟨party, delta, rfl, hother⟩ := Tally.tune_of_tells htest
  rw [hlast] at run
  generalize (Tally.fastSearch 78).before = es at run ticks told
  exact ⟨_, party, delta, es, run, ticks, told, by simpa using hother⟩

end HashBoard
