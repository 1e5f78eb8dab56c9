import HashBoard.Proofs.Board.Brief
import HashBoard.Proofs.Routine.Laps
import HashBoard.Proofs.Routine.Reads
import HashBoard.Proofs.Search.Rounds

/-!
# The course of a search

A search programs its work, goes through its rounds, and stops the core. A round looks around at its
head, gathers nonces, and finishes: it samples the stall counter, counts the checks, hands over what
was found, tells tuning and averages, and watches the board if it is time to. Every run of a search
is told of in these parts.

A round that has its nonces needs nothing more to come to its end; neither does a search that has
left its rounds.
-/

namespace HashBoard.Board

open Routine

variable {ν : Type} [Quantity ν]

/-! ## The parts of a search -/

/-- Takes the lock and programs the work; gives the time at which the first round starts. -/
def opening (b : Board) (work : Work) : Routine ν (Except BoardError Micros) := do
  acquire
  match ← b.programWork work with
  | .error e => pure (.error e)
  | .ok () => do
    reviseStatus fun s ↦ { s with searching := true }
    let t ← now
    pure (.ok t)

omit [Quantity ν] in
/-- Stops the core and gives the lock back. -/
def closing (result : Except BoardError SearchExit) :
    Routine ν (Except BoardError SearchExit) := do
  stopCore
  release
  reviseStatus fun s ↦ { s with searching := false }
  match result with
  | .ok exit => note (.searchEnded exit)
  | .error e => note (.searchFailed e)
  pure result

/-- What a search remembers when it starts its first round. -/
def Round.first (t : Micros) : Round := { sampled := t, watched := t }

theorem search_eq (b : Board) (work : Work) :
    (b.search work : Routine ν _) = (b.opening work).bind fun
      | .error e => closing (.error e)
      | .ok t => .loop (Round.first t) (b.searchRound work) closing := by
  simp only [search, runSearch, opening, bind_eq, bind_assoc]
  congr 1
  funext _
  congr 1
  funext x
  cases x with
  | error e => rfl
  | ok => rfl

variable {b : Board} {work : Work} {r : Round} {talk : List (Answered ν)}

theorem asks_searchRound : Asks (b.searchRound (ν := ν) work) := fun _ _ ↦ not_ends_ask

/-- The course of a search that ended: what was said before its first round, in each of its rounds,
and after the last one. -/
inductive Course (b : Board) (work : Work) : (opening : List (Answered ν)) →
    (rounds : List (List (Answered ν))) → (closing : List (Answered ν)) →
    Except BoardError SearchExit → Prop
  /-- The work could not be programmed. -/
  | failed {opening closing : List (Answered ν)} {e : BoardError} :
    Run (b.opening work) opening (.error e) → Run (Board.closing (.error e)) closing (.error e) →
    Course b work opening [] closing (.error e)
  /-- The last round had a reason to end the search. -/
  | ended {opening closing last : List (Answered ν)} {laps : List (List (Answered ν))} {t : Micros}
    {r : Round} {a : Except BoardError SearchExit} :
    Run (b.opening work) opening (.ok t) → Laps (b.searchRound work) (Round.first t) laps r →
    Run (b.searchRound work r) last (.inr a) → Run (Board.closing a) closing a →
    Course b work opening (laps ++ [last]) closing a

omit [Quantity ν] in
theorem eq_of_run_closing {result a : Except BoardError SearchExit}
    (run : Run (closing result) talk a) : a = result := by
  obtain ⟨_, _, _, rfl, -, hrelease⟩ := run_bind_iff.mp run
  obtain ⟨_, _, rfl, hrevise⟩ := (run_ask_iff (r := .release)).mp hrelease
  obtain ⟨_, _, rfl, hnote⟩ := (run_ask_iff (r := .revise _)).mp hrevise
  cases result with
  | ok exit =>
    obtain ⟨_, _, rfl, hend⟩ := (run_ask_iff (r := .note _)).mp hnote
    exact (run_done_iff.mp hend).2.symm
  | error e =>
    obtain ⟨_, _, rfl, hend⟩ := (run_ask_iff (r := .note _)).mp hnote
    exact (run_done_iff.mp hend).2.symm

/-- Every search that ended took its course. -/
theorem exists_course {a : Except BoardError SearchExit} (run : Run (b.search work) talk a) :
    ∃ opening rounds closing, talk = opening ++ (rounds.flatten ++ closing) ∧
      Course b work opening rounds closing a := by
  rw [search_eq] at run
  obtain ⟨opening, x, rest, rfl, hopening, hrest⟩ := run_bind_iff.mp run
  cases x with
  | error e =>
    obtain rfl := eq_of_run_closing hrest
    exact ⟨opening, [], rest, rfl, .failed hopening hrest⟩
  | ok t =>
    obtain ⟨laps, r, last, a', closing, rfl, hlaps, hlast, hclosing⟩ :=
      exists_of_run_loop asks_searchRound hrest
    obtain rfl := eq_of_run_closing hclosing
    refine ⟨opening, laps ++ [last], closing, ?_, .ended hopening hlaps hlast hclosing⟩
    simp

/-- Each part of the course of a search that is called a round is one. -/
theorem Course.exists_round {opening closing : List (Answered ν)}
    {rounds : List (List (Answered ν))} {a : Except BoardError SearchExit}
    (h : Course b work opening rounds closing a) :
    ∀ round ∈ rounds, ∃ r x, Run (b.searchRound work r) round x := by
  cases h with
  | failed => exact List.forall_mem_nil _
  | ended _ hlaps hlast _ =>
    refine List.forall_mem_append.mpr ⟨?_, List.forall_mem_singleton.mpr ⟨_, _, hlast⟩⟩
    exact hlaps.forall fun r r' lap hlap ↦ ⟨r, .inl r', hlap⟩

/-! ## What is asked outside the rounds -/

section Asks

variable {P : Request ν → Prop} (room : RoomToRun P work)
include room

omit [Quantity ν] in
theorem only_opening : (b.opening work : Routine ν _).Only P := by
  refine (only_request room.acquire).bind fun _ ↦ ?_
  refine (only_programWork room.toProgram b).bind fun x ↦ ?_
  cases x with
  | error e => trivial
  | ok =>
    refine (only_request (room.searching true)).bind fun _ ↦ ?_
    exact (only_request (room.quiet .now rfl)).bind fun t ↦ trivial

omit [Quantity ν] in
theorem only_closing (result : Except BoardError SearchExit) :
    (closing result : Routine ν _).Only P := by
  refine (only_stopCore room.quiet (fun value ↦ room.writes value _ (by decide))
    (room.writes _ _ (by decide))).bind fun _ ↦ ?_
  refine (only_request room.release).bind fun _ ↦ ?_
  refine (only_request (room.searching false)).bind fun _ ↦ ?_
  cases result with
  | ok exit => exact (only_note room.quiet rfl).bind fun _ ↦ trivial
  | error e => exact (only_note room.quiet rfl).bind fun _ ↦ trivial

/-- Nothing else is asked where a search is not in its rounds. -/
theorem Course.outside {opening closing : List (Answered ν)} {rounds : List (List (Answered ν))}
    {a : Except BoardError SearchExit} (h : Course b work opening rounds closing a) :
    (∀ said ∈ opening, P said.request) ∧ ∀ said ∈ closing, P said.request := by
  cases h with
  | failed hopening hclosing =>
    exact ⟨(only_opening room).of_run hopening, (only_closing room _).of_run hclosing⟩
  | ended hopening _ _ hclosing =>
    exact ⟨(only_opening room).of_run hopening, (only_closing room _).of_run hclosing⟩

end Asks

/-! ## The parts of a round -/

variable {nonces : List UInt64}

/-- What was said in a round from the moment at which its nonces were there, part by part. -/
structure Finish (b : Board) (work : Work) (r : Round) (nonces : List UInt64) where
  /-- Whether the core stands still, and the last sample of the stall counter. -/
  stall : Bool × Option Word
  /-- The check counter, and the checks since the sample before. -/
  count : CheckCounter × UInt64
  /-- The time. -/
  t : Micros
  /-- When telemetry was last sampled. -/
  watched : Micros
  /-- How the stall counter was sampled. -/
  sampling : List (Answered ν)
  /-- How the check counter was sampled. -/
  checking : List (Answered ν)
  /-- How the nonces were handed over. -/
  handing : List (Answered ν)
  /-- How tuning, averages and onlookers were told. -/
  telling : List (Answered ν)
  /-- How telemetry was sampled, if it was. -/
  watching : List (Answered ν)
  run_sampling : Run (b.checkStall r.stall) sampling stall
  run_checking : Run (countChecks r.checks) checking count
  run_handing : Run (forEach (b.report work) nonces) handing ()
  run_telling : Run (keepAccount count.2 nonces.length (t - r.sampled) t) telling ()
  run_watching : Run (b.watchIfDue r.watched t) watching watched

namespace Finish

/-- All of it. -/
def said (f : Finish (ν := ν) b work r nonces) : List (Answered ν) :=
  f.sampling ++ (f.checking ++ (f.handing ++ ⟨.now, f.t⟩ :: (f.telling ++ (f.watching ++
    if f.stall.1 then [⟨.note .coreStalled, ()⟩] else []))))

/-- What comes after the round. -/
def outcome (f : Finish (ν := ν) b work r nonces) : Round ⊕ Except BoardError SearchExit :=
  if f.stall.1 then .inr (.ok .stalled)
  else .inl { checks := f.count.1, stall := f.stall.2, sampled := f.t, watched := f.watched }

end Finish

/-- Nothing is asked but what there is room for. -/
theorem Finish.forall {P : Request ν → Prop} (room : RoomToFinish P work)
    (f : Finish b work r nonces) : ∀ said ∈ f.said, P said.request := by
  have quiet := room.quiet
  have hsampling := (only_checkStall quiet room.stall b r.stall).of_run f.run_sampling
  have hchecking := (only_countChecks quiet r.checks room.checks).of_run f.run_checking
  have hhanding := (only_forEach fun nonce _ ↦
    only_report quiet b work nonce room.submits).of_run f.run_handing
  have htelling := (only_keepAccount quiet room.tunes room.averages _ _ _ _).of_run f.run_telling
  have hwatching := (only_watchIfDue room.toRoomToWatch b r.watched f.t).of_run f.run_watching
  simp only [said, List.forall_mem_append, List.forall_mem_cons]
  refine ⟨hsampling, hchecking, hhanding, quiet _ rfl, htelling, hwatching, ?_⟩
  split
  · exact List.forall_mem_singleton.mpr (quiet _ rfl)
  · exact List.forall_mem_nil _

theorem finish_of_run {x : Round ⊕ Except BoardError SearchExit}
    (run : Run (b.finishRound work r nonces) talk x) :
    ∃ f : Finish b work r nonces, talk = f.said ∧ x = f.outcome := by
  obtain ⟨sampling, stall, _, rfl, hsampling, hcheck⟩ := run_bind_iff.mp run
  obtain ⟨checking, count, _, rfl, hchecking, hhand⟩ := run_bind_iff.mp hcheck
  obtain ⟨handing, _, _, rfl, hhanding, hnow⟩ := run_bind_iff.mp hhand
  obtain ⟨t, _, rfl, htell⟩ := (run_ask_iff (r := .now)).mp hnow
  rw [done_bind] at htell
  obtain ⟨telling, _, _, rfl, htelling, hwatch⟩ := run_bind_iff.mp htell
  obtain ⟨watching, watched, ending, rfl, hwatching, hend⟩ := run_bind_iff.mp hwatch
  refine ⟨⟨stall, count, t, watched, sampling, checking, handing, telling, watching, hsampling,
    hchecking, hhanding, htelling, hwatching⟩, ?_, ?_⟩
  all_goals
    split at hend
    · rename_i hstalled
      obtain ⟨_, _, rfl, hdone⟩ := (run_ask_iff (r := .note _)).mp hend
      obtain ⟨rfl, rfl⟩ := run_done_iff.mp hdone
      simp only [Finish.said, Finish.outcome, if_pos hstalled]
    · rename_i hmoves
      obtain ⟨rfl, rfl⟩ := run_done_iff.mp hend
      simp only [Finish.said, Finish.outcome, if_neg hmoves]

/-- Tuning is told the checks, and the averages and the number of solutions are kept. -/
theorem exists_of_run_keepAccount {delta : UInt64} {found : Nat} {elapsed t : Micros} {u : Unit}
    (run : Run (keepAccount delta found elapsed t) talk u) :
    ∃ errorRate m f,
      talk = [⟨.tune delta, ()⟩, ⟨.errorRate, errorRate⟩, ⟨.memory, m⟩, ⟨.revise f, ()⟩] ∧
        ∀ m' : Memory ν, (f m').averager = (m.averager.record delta t errorRate).1 ∧
          (f m').status.solutions = m'.status.solutions + found := by
  obtain ⟨_, _, rfl, hrate⟩ := (run_ask_iff (r := .tune _)).mp run
  obtain ⟨errorRate, _, rfl, hmemory⟩ := (run_ask_iff (r := .errorRate)).mp hrate
  obtain ⟨m, _, rfl, hrevise⟩ := (run_ask_iff (r := .memory)).mp hmemory
  obtain ⟨_, _, rfl, hend⟩ := (run_ask_iff (r := .revise _)).mp hrevise
  obtain ⟨rfl, -⟩ := run_done_iff.mp hend
  exact ⟨errorRate, m, _, rfl, fun _ ↦ ⟨rfl, rfl⟩⟩

/-- The course of a round that ended: what was said, and what comes after it. -/
inductive RoundCourse (b : Board) (work : Work) (r : Round) :
    List (Answered ν) → Round ⊕ Except BoardError SearchExit → Prop
  /-- There was a reason to look for other work. -/
  | newWork {m : Memory ν} : m.newWork →
    RoundCourse b work r [⟨.memory, m⟩] (.inr (.ok .newWork))
  /-- There was none, but shutdown was requested. -/
  | shutdown {m : Memory ν} : m.newWork = false →
    RoundCourse b work r [⟨.memory, m⟩, ⟨.isCancelled, true⟩] (.inr (.ok .shutdown))
  /-- The nonces could not be gathered. -/
  | failed {m : Memory ν} {gathering : List (Answered ν)} {e : BoardError} : m.newWork = false →
    Run b.gatherNonces gathering (.error e) →
    RoundCourse b work r (⟨.memory, m⟩ :: ⟨.isCancelled, false⟩ :: gathering) (.inr (.error e))
  /-- They were gathered, and the round was finished with them. -/
  | finished {m : Memory ν} {gathering : List (Answered ν)} {nonces : List UInt64}
    {x : Round ⊕ Except BoardError SearchExit} (f : Finish b work r nonces) : m.newWork = false →
    Run b.gatherNonces gathering (.ok nonces) → x = f.outcome →
    RoundCourse b work r (⟨.memory, m⟩ :: ⟨.isCancelled, false⟩ :: (gathering ++ f.said)) x

/-- Every round that ended took its course. -/
theorem roundCourse_of_run {x : Round ⊕ Except BoardError SearchExit}
    (run : Run (b.searchRound work r) talk x) : RoundCourse b work r talk x := by
  obtain ⟨m, more, rfl, hmore⟩ := (run_ask_iff (r := .memory)).mp run
  cases hwork : m.newWork with
  | true =>
    rw [done_bind, if_pos hwork] at hmore
    obtain ⟨rfl, rfl⟩ := run_done_iff.mp hmore
    exact .newWork hwork
  | false =>
    rw [done_bind, if_neg (by rw [hwork]; exact Bool.false_ne_true)] at hmore
    obtain ⟨cancelled, rest, rfl, hrest⟩ := (run_ask_iff (r := .isCancelled)).mp hmore
    cases cancelled with
    | true =>
      obtain ⟨rfl, rfl⟩ := run_done_iff.mp hrest
      exact .shutdown hwork
    | false =>
      rw [done_bind, if_neg Bool.false_ne_true] at hrest
      obtain ⟨gathering, y, last, rfl, hgather, hlast⟩ := run_bind_iff.mp hrest
      cases y with
      | error e =>
        obtain ⟨rfl, rfl⟩ := run_done_iff.mp hlast
        rw [List.append_nil]
        exact .failed hwork hgather
      | ok nonces =>
        obtain ⟨f, rfl, hx⟩ := finish_of_run hlast
        exact .finished f hwork hgather hx

end HashBoard.Board
