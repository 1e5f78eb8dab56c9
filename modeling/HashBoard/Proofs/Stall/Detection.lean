import Mathlib.Data.List.Range
import HashBoard.Proofs.Stall.Ending

/-!
# When a search finds its core standing still

A search compares each sample of the stall counter with the one before, across the times at which it
gives the lock away. Whoever answers, it ends for a core that stands still in the round that takes
the first sample which is the same as the one before, and in no other: unless it ended before, for a
reason seen at the head of a round or a fault that the settings make fatal. A reason seen at the
head of a round ends it at once, without another wait and without another sample. Without stall
detection the counter is never sampled, and no search ends for it (`detectsStalls`).
-/

namespace HashBoard

open Routine Board

variable {ν : Type}

/-- The stall counter shows some words, sample after sample. -/
def Answering.Shows (reply : Answering ν) (counter : Nat → Word) : Prop :=
  ∀ s, (⟨.call (.read Reg.stallCount), reply s (.call (.read Reg.stallCount))⟩ :
    Answered ν).stallSample? = some (counter (stallSamples s).length)

/-- A counter stands still for the first time after the sample with some number. -/
structure StandsFirst (counter : Nat → Word) (n : Nat) : Prop where
  moves : ∀ i < n, counter i ≠ counter (i + 1)
  stands : counter n = counter (n + 1)

/-- The first samples of a counter, one in each of some rounds. -/
def oneEach (counter : Nat → Word) (n : Nat) : List (List Word) :=
  ((List.range n).map counter).map ([·])

/-- The rounds of a search, and what it ended with, if its counter stands still for the first time
after the sample with some number. -/
inductive Detected [Quantity ν] (b : Board) (work : Work) (counter : Nat → Word) (n : Nat)
    (opening : List (Answered ν)) : List (List (Answered ν)) → Except BoardError SearchExit → Prop
  /-- The work could not be programmed, and the settings made that fatal. -/
  | unprogrammed {cause : String} : b.settings.dieOnError →
    Detected b work counter n opening [] (.error (.escalated cause))
  /-- It ended earlier. -/
  | early {laps : List (List (Answered ν))} {last : List (Answered ν)}
    {a : Except BoardError SearchExit} : laps.length < n + 2 →
    laps.map stallSamples = oneEach counter laps.length → stallSamples last = [] →
    EndsEarly b last a → Detected b work counter n opening (laps ++ [last]) a
  /-- It sampled the counter until the sample after that one, and did everything else in the last
  round as well. -/
  | stalled {laps : List (List (Answered ν))} {last : List (Answered ν)} {r : Round} {t : Micros} :
    laps.length = n + 1 → (laps ++ [last]).map stallSamples = oneEach counter (n + 2) →
    Underway b work opening laps r → Finishes b work r t last →
    Detected b work counter n opening (laps ++ [last]) (.ok .stalled)

/-- Searches find out that their core stands still, as soon as the stall counter tells, and only
then. -/
structure DetectsStalls [Quantity ν] (b : Board) (work : Work) : Prop where
  /-- A search whose counter stands still at some time comes to its end, whoever answers. -/
  ends : b.settings.skipStallDetection = false → ∀ (reply : Answering ν) counter n,
    reply.Shows counter → StandsFirst counter n → ∃ opening rounds closing a,
      reply.Gives [] (opening ++ (rounds.flatten ++ closing)) ∧
        Course b work opening rounds closing a
  /-- It ends in the round that takes the second of two samples that are the same, if nothing else
  ended it before. -/
  detects : b.settings.skipStallDetection = false → ∀ (reply : Answering ν) counter n,
    reply.Shows counter → StandsFirst counter n → ∀ opening rounds closing a,
      reply.Gives [] (opening ++ (rounds.flatten ++ closing)) →
        Course b work opening rounds closing a →
          Detected b work counter n opening rounds a ∧
            stallSamples opening = [] ∧ stallSamples closing = []
  /-- Whatever else was said, no search ends for a core that stands still but there. -/
  only : b.settings.skipStallDetection = false → ∀ talk : List (Answered ν),
    Run (b.search work) talk (.ok .stalled) → ∃ earlier w,
      stallSamples talk = earlier ++ [w, w] ∧ (earlier ++ [w]).IsChain (· ≠ ·)
  /-- A reason to look for other work that is seen at the head of a round ends the search. -/
  newWork : ∀ opening laps r (m : Memory ν) q, Underway b work opening laps r → m.newWork →
    Path (b.search work) (opening ++ (laps.flatten ++ [⟨.memory, m⟩])) q →
      q.Settles Direct (· = .ok .newWork)
  /-- Where there is none, so does a request to shut down. -/
  shutdown : ∀ opening laps r (m : Memory ν) q, Underway b work opening laps r →
    m.newWork = false →
    Path (b.search work) (opening ++ (laps.flatten ++ [⟨.memory, m⟩, ⟨.isCancelled, true⟩])) q →
      q.Settles Direct (· = .ok .shutdown)
  /-- Without stall detection the counter is not sampled. -/
  disabled : b.settings.skipStallDetection →
    (∀ (talk : List (Answered ν)) q, Path (b.search work) talk q → stallSamples talk = []) ∧
      ∀ talk : List (Answered ν), ¬Run (b.search work) talk (.ok .stalled)

section Standing

variable {counter : Nat → Word} {n k : Nat}

/-- A counter that moves from each sample to the next one has not stood still yet. -/
theorem StandsFirst.lt (h : StandsFirst counter n)
    (moves : ∀ i < k - 1, counter i ≠ counter (i + 1)) : k < n + 2 := by
  by_contra hle
  exact moves n (by omega) h.stands

/-- It stands still only once for the first time. -/
theorem StandsFirst.eq (h : StandsFirst counter n) (h' : StandsFirst counter k) :
    k = n := by
  rcases Nat.lt_trichotomy k n with hlt | heq | hlt
  · exact absurd h'.stands (h.moves k hlt)
  · exact heq
  · exact absurd h.stands (h'.moves n hlt)

end Standing

namespace Stall

variable {reply : Answering ν} {counter : Nat → Word} {n : Nat} {s talk : List (Answered ν)}

/-! ## The samples -/

/-- What is sampled is what the counter shows. -/
theorem samples_of_gives (shows : reply.Shows counter) (gives : reply.Gives s talk) :
    stallSamples talk =
      (List.range' (stallSamples s).length (stallSamples talk).length).map counter := by
  induction talk generalizing s with
  | nil => rfl
  | cons said talk ih =>
    obtain ⟨request, x⟩ := said
    obtain ⟨hx, hgives⟩ := gives
    have later := ih hgives
    rw [stallSamples_append, List.length_append] at later
    rw [← List.singleton_append, stallSamples_append]
    by_cases hrequest : request = .call (.read Reg.stallCount)
    · subst hrequest
      obtain rfl : x = reply s _ := hx
      have hsample : stallSamples [(⟨.call (.read Reg.stallCount), reply s _⟩ : Answered ν)] =
          [counter (stallSamples s).length] := by
        rw [stallSamples, List.filterMap_cons, shows s]
        rfl
      rw [hsample] at later ⊢
      rw [List.length_append, List.length_singleton, Nat.add_comm 1, List.range'_succ,
        List.map_cons]
      exact congrArg _ later
    · have hnone : stallSamples [(⟨request, x⟩ : Answered ν)] = [] :=
        stallSamples_eq_nil (List.forall_mem_singleton.mpr hrequest)
      rw [hnone] at later ⊢
      exact later

/-- Neighbours among the first samples of a counter are different if it moves from each to the
next. -/
theorem isChain_iff : ((List.range n).map counter).IsChain (· ≠ ·) ↔
    ∀ i < n - 1, counter i ≠ counter (i + 1) := by
  rw [List.isChain_map, List.isChain_range]

variable [Quantity ν] {b : Board} {work : Work} {opening : List (Answered ν)}
  {laps : List (List (Answered ν))} {r : Round}

/-- What a search has sampled that is about to start another round. -/
theorem samples_of_underway (enabled : b.settings.skipStallDetection = false)
    (shows : reply.Shows counter) (gives : reply.Gives [] (opening ++ laps.flatten))
    (h : Underway b work opening laps r) :
    stallSamples (opening ++ laps.flatten) = (List.range laps.length).map counter ∧
      laps.map stallSamples = oneEach counter laps.length ∧
      (∀ i < laps.length - 1, counter i ≠ counter (i + 1)) ∧
      r.stall = ((List.range laps.length).map counter).getLast? := by
  obtain ⟨t, hopening, hlaps⟩ := h
  obtain ⟨ws, hws, hchain, hlast⟩ := samples_of_laps enabled hlaps
  have silent := (only_opening (b := b) roomToRun_unsampled).of_run hopening
  have hall : stallSamples (opening ++ laps.flatten) = ws := by
    rw [stallSamples_append_left silent, stallSamples_flatten hws]
  have hlength : ws.length = laps.length := by
    have hsame := congrArg List.length hws
    rw [List.length_map, List.length_map] at hsame
    exact hsame.symm
  have hshown := samples_of_gives shows gives
  have hnone : (stallSamples ([] : List (Answered ν))).length = 0 := rfl
  rw [hall, hlength, hnone, ← List.range_eq_range'] at hshown
  subst hshown
  exact ⟨hall, hws, isChain_iff.mp hchain, hlast⟩

/-! ## Where it ends -/

theorem exists_course (enabled : b.settings.skipStallDetection = false)
    (shows : reply.Shows counter) (stands : StandsFirst counter n) :
    ∃ opening rounds closing a, reply.Gives [] (opening ++ (rounds.flatten ++ closing)) ∧
      Course b work opening rounds closing a := by
  rcases ended_or_underway b work reply (n + 2) with hended | ⟨opening, laps, r, gives, h, hlength⟩
  · exact hended
  · obtain ⟨-, -, hmoves, -⟩ := samples_of_underway enabled shows gives h
    exact absurd (stands.lt hmoves) (by omega)

theorem detected_of_course (enabled : b.settings.skipStallDetection = false)
    (shows : reply.Shows counter) (stands : StandsFirst counter n)
    {rounds : List (List (Answered ν))} {closing : List (Answered ν)}
    {a : Except BoardError SearchExit}
    (gives : reply.Gives [] (opening ++ (rounds.flatten ++ closing)))
    (course : Course b work opening rounds closing a) :
    Detected b work counter n opening rounds a := by
  cases course with
  | failed hopening hclosing =>
    obtain ⟨hdie, cause, rfl⟩ := (settles_opening.of_run hopening).2 _ rfl
    exact .unprogrammed hdie
  | @ended _ last laps t r _ hopening hlaps hlast hclosing =>
    rw [List.flatten_append, List.flatten_singleton, List.append_assoc, ← List.append_assoc,
      Answering.gives_append] at gives
    have underway : Underway b work opening laps r := ⟨t, hopening, hlaps⟩
    obtain ⟨hall, heach, hmoves, hstall⟩ := samples_of_underway enabled shows gives.1 underway
    rcases last_round enabled hlast with ⟨hnone, hearly⟩ | ⟨w, hw, hbefore, rfl, t', hfinishes⟩
    · exact .early (stands.lt hmoves) heach hnone hearly
    · have hshown := samples_of_gives shows (Answering.gives_append.mp gives.2).1
      rw [List.nil_append, hw, hall, List.length_map, List.length_range] at hshown
      obtain rfl : w = counter laps.length := by simpa using hshown
      rw [hbefore] at hstall
      -- the sample before was taken in the last lap, so there is one
      obtain ⟨k, hk⟩ : ∃ k, laps.length = k + 1 := by
        refine Nat.exists_eq_succ_of_ne_zero fun hzero ↦ ?_
        rw [hzero] at hstall
        cases hstall
      rw [hk, List.range_succ, List.map_append, List.map_singleton, List.getLast?_concat] at hstall
      have hfirst : StandsFirst counter k := by
        refine ⟨fun i hi ↦ hmoves i (by omega), ?_⟩
        exact (Option.some.inj hstall).symm
      obtain rfl := stands.eq hfirst
      refine .stalled hk ?_ underway hfinishes
      rw [List.map_append, List.map_singleton, heach, hw, hk, oneEach, oneEach,
        List.range_succ (n := k + 1), List.map_append, List.map_append, List.map_singleton,
        List.map_singleton]

/-! ## Whatever was said -/

/-- A search that ended for a core that stands still found two samples the same, and no two before
them. -/
theorem exists_samples_of_run (enabled : b.settings.skipStallDetection = false)
    (run : Run (b.search work) talk (.ok .stalled)) :
    ∃ earlier w, stallSamples talk = earlier ++ [w, w] ∧ (earlier ++ [w]).IsChain (· ≠ ·) := by
  obtain ⟨opening, rounds, closing, rfl, course⟩ := Board.exists_course run
  obtain ⟨hopening, hclosing⟩ := course.outside roomToRun_unsampled
  rw [stallSamples_append_left hopening, stallSamples_append, stallSamples_eq_nil hclosing,
    List.append_nil]
  cases course with
  | ended _ hlaps hlast _ =>
    obtain ⟨ws, hws, hchain, hstall⟩ := samples_of_laps enabled hlaps
    rcases last_round enabled hlast with ⟨-, hearly⟩ | ⟨w, hw, hbefore, -⟩
    · cases hearly
    · rw [hbefore] at hstall
      obtain ⟨earlier, rfl⟩ := List.getLast?_eq_some_iff.mp hstall.symm
      refine ⟨earlier, w, ?_, hchain⟩
      rw [List.flatten_append, List.flatten_singleton, stallSamples_append,
        stallSamples_flatten hws, hw, List.append_assoc]
      rfl

/-! ## Without stall detection -/

theorem unsampled_searchRound (disabled : b.settings.skipStallDetection) (r : Round) :
    (b.searchRound work r : Routine ν _).Only Unsampled := by
  refine (only_request (unsampled_of_isQuiet (r := .memory) rfl)).bind fun m ↦ ?_
  split
  · trivial
  · refine (only_request (roomToRun_unsampled : RoomToRun _ work).looks).bind fun _ ↦ ?_
    split
    · trivial
    · refine (only_gatherNonces roomToGather_unsampled b).bind fun x ↦ ?_
      cases x with
      | error e => trivial
      | ok nonces =>
        have skips : (b.checkStall r.stall : Routine ν _).Only Unsampled := by
          rw [checkStall, if_pos disabled]
          trivial
        refine skips.bind fun stall ↦ ?_
        refine (unsampled_countChecks r.checks).bind fun count ↦ ?_
        refine (unsampled_reports b work nonces).bind fun _ ↦ ?_
        refine (only_request (unsampled_of_isQuiet (r := .now) rfl)).bind fun t ↦ ?_
        refine (unsampled_keepAccount _ _ _ _).bind fun _ ↦ ?_
        refine (unsampled_watchIfDue b r.watched t).bind fun watched ↦ ?_
        split
        · exact (only_request (unsampled_note _)).bind fun _ ↦ trivial
        · trivial

theorem unsampled_search (disabled : b.settings.skipStallDetection) :
    (b.search work : Routine ν _).Only Unsampled := by
  have room : RoomToRun (Unsampled : Request ν → Prop) work := roomToRun_unsampled
  rw [search_eq]
  refine (only_opening room).bind fun x ↦ ?_
  cases x with
  | error e => exact only_closing room _
  | ok t => exact ⟨unsampled_searchRound disabled, only_closing room⟩

theorem not_run_stalled (disabled : b.settings.skipStallDetection) :
    ¬Run (b.search work) talk (.ok .stalled) := by
  intro run
  obtain ⟨opening, rounds, closing, rfl, course⟩ := Board.exists_course run
  cases course with
  | ended _ _ hlast _ =>
    generalize hx : (.inr (.ok .stalled) : Round ⊕ Except BoardError SearchExit) = x at hlast
    cases roundCourse_of_run hlast with
    | newWork | shutdown | failed => cases hx
    | finished f hwork hgather hout =>
      have skips := f.run_sampling
      rw [checkStall, if_pos disabled] at skips
      obtain ⟨-, hstall⟩ := run_done_iff.mp skips
      rw [hout, Finish.outcome, ← hstall] at hx
      cases hx

end Stall

/-- **Stall detection is exact.** Whoever answers, searches find out that their core stands still
where the stall counter first shows the same word twice, and nowhere else. -/
theorem detectsStalls [Quantity ν] (b : Board) (work : Work) : DetectsStalls (ν := ν) b work where
  ends enabled _ _ _ shows stands := Stall.exists_course enabled shows stands
  detects enabled reply counter n shows stands opening rounds closing a gives course := by
    obtain ⟨hopening, hclosing⟩ := course.outside Stall.roomToRun_unsampled
    exact ⟨Stall.detected_of_course enabled shows stands gives course,
      Stall.stallSamples_eq_nil hopening, Stall.stallSamples_eq_nil hclosing⟩
  only enabled _ run := Stall.exists_samples_of_run enabled run
  newWork _ _ _ _ _ h hwork path := Stall.settles_of_newWork h hwork path
  shutdown _ _ _ _ _ h hwork path := Stall.settles_of_shutdown h hwork path
  disabled disabled :=
    ⟨fun _ _ path ↦ Stall.stallSamples_eq_nil ((Stall.unsampled_search disabled).of_path path),
      fun _ ↦ Stall.not_run_stalled disabled⟩

/-! ### A core that never moves -/

/-- Somebody who finds every register at zero, and nothing to complain of. -/
def Stall.unmoved : Answering Rat := fun _ r ↦
  match r with
  | .connect _ => .ok ()
  | .call c =>
    match c with
    | .read _ => .ok 0
    | .awaitInterrupt .. => .ok none
    | .kick | .disconnect => ()
    | .setTimeout _ | .enableInterrupts _ | .write .. | .writeBulk .. | .upload .. | .move .. =>
      .ok ()
  | .memory => .start 0 false
  | .now | .nextSerial | .subscribe | .tuningStage => 0
  | .errorRate => 0
  | .isCancelled | .loadTune .. | .fileExists _ | .submit _ | .tick _ => false
  | .intensityOverride | .latestWork | .nextChange _ | .epochContext _ => none
  | .outlast _ => .time
  | .acquire | .release | .revise _ | .sleep _ | .sleepUntil _ | .cancel | .wake | .park _ | .tune _
  | .startTune _ | .publish _ | .closeFeed | .startKicker _ | .stopKicker | .giveUp _ | .settle
  | .note _ | .outside _ => ()

/-- The second sample gives it away. -/
theorem detectsStalls_unmoved : ∃ opening rounds closing,
    Course (ν := Rat) plainBoard plainWork opening rounds closing (.ok .stalled) ∧
      rounds.map stallSamples = [[0], [0]] := by
  have exact := detectsStalls (ν := Rat) plainBoard plainWork
  have shows : Stall.unmoved.Shows fun _ ↦ 0 := fun _ ↦ rfl
  have stands : StandsFirst (fun _ ↦ 0) 0 := ⟨nofun, rfl⟩
  obtain ⟨opening, rounds, closing, a, gives, course⟩ :=
    exact.ends rfl Stall.unmoved _ 0 shows stands
  obtain ⟨detected, -, -⟩ :=
    exact.detects rfl Stall.unmoved _ 0 shows stands opening rounds closing a gives course
  cases detected with
  | unprogrammed hdie => cases hdie
  | stalled _ hsamples _ _ => exact ⟨opening, _, closing, course, hsamples⟩
  | early _ _ _ hearly =>
    cases hearly with
    | escalated hdie => cases hdie
    | @newWork m hwork =>
      obtain ⟨_, hm⟩ := gives.reply_eq (by simp : (⟨.memory, m⟩ : Answered Rat) ∈ _)
      obtain rfl : m = .start 0 false := hm
      cases hwork
    | @shutdown m _ =>
      obtain ⟨_, hcancelled⟩ := gives.reply_eq
        (by simp : (⟨.isCancelled, true⟩ : Answered Rat) ∈ _)
      cases hcancelled

end HashBoard
