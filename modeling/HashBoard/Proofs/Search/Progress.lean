import HashBoard.Proofs.Search.Course

/-!
# A search comes to an end or goes on

No part of a search has a loop but the search itself: whoever answers, the work is programmed, a
round comes to its end, and so does what is done after the last round. So a search never gets stuck.
It comes to its end, or it goes through as many rounds as one likes (`ended_or_underway`).
-/

namespace HashBoard.Board

open Routine

variable {ν : Type} {b : Board} {work : Work}

/-! ## Programming the work -/

theorem brief_programTarget (boundary : Hash) :
    (programTarget work boundary : Routine ν _).Brief := by
  have nonce : (do
      tryWrite (work.startNonce >>> 32).toUInt32 Reg.startNonceHi "start nonce"
      tryWrite work.startNonce.toUInt32 Reg.startNonceLo "start nonce" : Routine ν Unit).Brief :=
    (brief_tryWrite _ _ _).bind fun _ ↦ brief_tryWrite _ _ _
  intro x
  cases x with
  | ok => exact nonce
  | error fault => exact (brief_note _).bind fun _ ↦ nonce

theorem brief_programBoundary (boundary : Hash) :
    (programBoundary work boundary : Routine ν _).Brief := by
  have rest : (programTarget work boundary : Routine ν _).Brief := brief_programTarget boundary
  rw [programBoundary]
  dsimp only
  split
  · exact (brief_note _).bind fun _ ↦ rest
  · exact rest

theorem brief_programJob : (programJob work : Routine ν _).Brief := by
  rw [programJob_eq]
  generalize Hash.effective work.boundary = boundary
  have rest : (programBoundary work boundary : Routine ν _).Brief := brief_programBoundary boundary
  intro x
  cases x with
  | ok => exact rest
  | error fault => exact fun _ ↦ rest

theorem brief_programPacing (intensity : Intensity) :
    (b.programPacing intensity : Routine ν _).Brief := by
  refine (brief_request _).bind fun _ ↦ (brief_write _ _).bind fun x ↦ ?_
  cases x with
  | ok => trivial
  | error fault => exact (brief_note _).bind fun _ ↦ brief_escalate _ _

theorem brief_programWork : (b.programWork work : Routine ν _).Brief := by
  refine brief_programJob.bind fun _ ↦ ?_
  refine Brief.bind (fun _ ↦ trivial) fun intensity ↦ ?_
  refine (brief_programPacing intensity).bind fun x ↦ ?_
  cases x with
  | error e => trivial
  | ok => exact (brief_tryWrite _ _ _).bind fun _ ↦ (brief_note _).bind fun _ ↦ trivial

theorem brief_opening : (b.opening work : Routine ν _).Brief := by
  refine (brief_request _).bind fun _ ↦ brief_programWork.bind fun x ↦ ?_
  cases x with
  | error e => trivial
  | ok => exact (brief_request _).bind fun _ ↦ (brief_request _).bind fun _ ↦ trivial

/-! ## One round -/

theorem brief_awaitInterrupt : (b.awaitInterrupt : Routine ν _).Brief := by
  refine (brief_request _).bind fun _ ↦ (brief_request _).bind fun answer ↦ ?_
  refine (brief_request _).bind fun _ ↦ ?_
  rcases answer with fault | nonce
  · refine (brief_note _).bind fun _ ↦ (brief_escalate _ _).bind fun x ↦ ?_
    cases x <;> trivial
  · cases nonce <;> trivial

theorem brief_readSlots (flags : Word) (n : Nat) (i : Word) :
    (readSlots flags n i : Routine ν _).Brief := by
  induction n generalizing i with
  | zero => trivial
  | succ n ih =>
    rw [readSlots]
    split
    · exact ih _
    · refine (brief_readOr _ _ _).bind fun hi ↦ (brief_readOr _ _ _).bind fun lo ↦ ?_
      exact (ih _).bind fun _ ↦ trivial

theorem brief_pollNonces : (pollNonces : Routine ν _).Brief := by
  refine (brief_readOr _ _ _).bind fun flags ↦ (brief_readSlots _ _ _).bind fun nonces ↦ ?_
  split
  · exact (brief_tryWrite _ _ _).bind fun _ ↦ trivial
  · trivial

theorem brief_gatherNonces : (b.gatherNonces : Routine ν _).Brief := by
  rw [gatherNonces]
  cases b.settings.nonceReporting with
  | interrupt => exact brief_awaitInterrupt
  | polled =>
    refine Brief.bind (fun _ _ _ ↦ trivial) fun _ ↦ ?_
    exact brief_pollNonces.bind fun _ ↦ trivial

theorem brief_checkStall (last : Option Word) : (b.checkStall last : Routine ν _).Brief := by
  rw [checkStall]
  split
  · trivial
  · refine Brief.bind (?_ : (_ : Routine ν Word).Brief) fun _ ↦ trivial
    refine (brief_read _).bind fun x ↦ ?_
    cases x with
    | ok count => trivial
    | error fault => exact (brief_note _).bind fun _ ↦ trivial

theorem brief_report (nonce : UInt64) : (b.report work nonce : Routine ν _).Brief := by
  refine (brief_note _).bind fun _ ↦ (brief_request _).bind fun foundAt ↦ fun taken ↦ ?_
  cases taken with
  | true => trivial
  | false => exact brief_note _

variable [Quantity ν] {r : Round}

theorem brief_watchIfDue (watched t : Micros) : (b.watchIfDue watched t : Routine ν _).Brief := by
  rw [watchIfDue]
  split
  · exact b.brief_checkTelemetry.bind fun _ ↦ trivial
  · trivial

theorem brief_finishRound (nonces : List UInt64) :
    (b.finishRound work r nonces : Routine ν _).Brief := by
  refine (brief_checkStall r.stall).bind fun stall ↦ ?_
  refine Brief.bind (?_ : (countChecks r.checks : Routine ν _).Brief) fun count ↦ ?_
  · exact (brief_readOr _ _ _).bind fun lo ↦ (brief_readOr _ _ _).bind fun hi ↦ trivial
  · refine (brief_forEach brief_report nonces).bind fun _ ↦ (brief_request _).bind fun t ↦ ?_
    refine Brief.bind (fun _ _ _ _ ↦ trivial) fun _ ↦ ?_
    refine (brief_watchIfDue r.watched t).bind fun watched ↦ ?_
    split
    · exact (brief_note _).bind fun _ ↦ trivial
    · trivial

theorem brief_searchRound (r : Round) : (b.searchRound work r : Routine ν _).Brief := by
  refine (brief_request _).bind fun m ↦ ?_
  split
  · trivial
  · refine (brief_request _).bind fun cancelled ↦ ?_
    split
    · trivial
    · refine brief_gatherNonces.bind fun x ↦ ?_
      cases x with
      | error e => trivial
      | ok nonces => exact brief_finishRound nonces

/-! ## The whole search -/

omit [Quantity ν] in
theorem brief_closing (result : Except BoardError SearchExit) :
    (closing result : Routine ν _).Brief := by
  refine brief_stopCore.bind fun _ ↦ (brief_request _).bind fun _ ↦ ?_
  refine (brief_request (.revise _)).bind fun _ ↦ ?_
  cases result with
  | ok exit => exact (brief_note _).bind fun _ ↦ trivial
  | error e => exact (brief_note _).bind fun _ ↦ trivial

/-- A search that went through some rounds and is about to start another one. -/
def Underway (b : Board) (work : Work) (opening : List (Answered ν))
    (laps : List (List (Answered ν))) (r : Round) : Prop :=
  ∃ t, Run (b.opening work) opening (.ok t) ∧
    Laps (b.searchRound work) (Round.first t) laps r

/-- The search in the middle of its next round. -/
theorem Underway.path {opening : List (Answered ν)} {laps : List (List (Answered ν))}
    (h : Underway b work opening laps r) {said : Answered ν} {talk : List (Answered ν)}
    {q : Routine ν (Round ⊕ Except BoardError SearchExit)}
    (hpart : Path (b.searchRound work r) (said :: talk) q) :
    Path (b.search work) (opening ++ (laps.flatten ++ said :: talk))
      (q.bind (again (b.searchRound work) closing)) := by
  obtain ⟨t, hopening, hlaps⟩ := h
  have rounds : Path (.loop (Round.first t) (b.searchRound work) closing)
      (laps.flatten ++ said :: talk) (q.bind (again (b.searchRound work) closing)) :=
    hlaps.path hpart
  obtain ⟨said', rest, hrest⟩ := List.exists_cons_of_ne_nil
    (List.append_ne_nil_of_right_ne_nil laps.flatten (List.cons_ne_nil said talk))
  rw [hrest] at rounds ⊢
  rw [search_eq]
  exact hopening.path rounds

/-- **A search does not get stuck.** Whoever answers, a search ends or goes through any number of
rounds. -/
theorem ended_or_underway (b : Board) (work : Work) (reply : Answering ν) (n : Nat) :
    (∃ opening rounds closing a, reply.Gives [] (opening ++ (rounds.flatten ++ closing)) ∧
      Course b work opening rounds closing a) ∨
    ∃ opening laps r, reply.Gives [] (opening ++ laps.flatten) ∧ Underway b work opening laps r ∧
      laps.length = n := by
  induction n with
  | zero =>
    obtain ⟨opening, x, hopening, gives⟩ := brief_opening.exists_run reply []
    cases x with
    | error e =>
      obtain ⟨closing, a, hclosing, hgives⟩ := (brief_closing (.error e)).exists_run reply opening
      obtain rfl := eq_of_run_closing hclosing
      refine .inl ⟨opening, [], closing, _, ?_, .failed hopening hclosing⟩
      exact Answering.gives_append.mpr ⟨gives, hgives⟩
    | ok t =>
      refine .inr ⟨opening, [], Round.first t, ?_, ⟨t, hopening, .nil _⟩, rfl⟩
      rw [List.flatten_nil, List.append_nil]
      exact gives
  | succ n ih =>
    rcases ih with hended | ⟨opening, laps, r, gives, ⟨t, hopening, hlaps⟩, rfl⟩
    · exact .inl hended
    · -- one round more, which leads to the next one or ends the search
      obtain ⟨round, x, hround, hgives⟩ := (brief_searchRound r).exists_run reply _
      have together := Answering.gives_append.mpr ⟨gives, hgives⟩
      rw [List.append_assoc, ← List.flatten_concat] at together
      cases x with
      | inl r' =>
        refine .inr ⟨opening, laps ++ [round], r', together, ⟨t, hopening, hlaps.snoc hround⟩, ?_⟩
        rw [List.length_append, List.length_singleton]
      | inr a =>
        obtain ⟨closing, a', hclosing, hends⟩ := (brief_closing a).exists_run reply _
        obtain rfl := eq_of_run_closing hclosing
        refine .inl ⟨opening, laps ++ [round], closing, _, ?_,
          .ended hopening hlaps hround hclosing⟩
        rw [← List.append_assoc]
        exact Answering.gives_append.mpr ⟨together, hends⟩

end HashBoard.Board
