import HashBoard.Proofs.Search.Asks

/-!
# A search round by round

A search is a loop around one thing that matters for what is counted: in each round it samples the
check counter, hands over what was found, and tells tuning and averages. Whatever is kept account
of, an invariant that the rest of a search keeps and that every count keeps is one of the whole
search.
-/

namespace HashBoard.Board

open Routine

variable {ν S : Type} [Quantity ν]

/-- Counts the checks of a round and hands its nonces over; gives the counter and the time. -/
def countRound (b : Board) (work : Work) (r : Round) (nonces : List UInt64) :
    Routine ν (CheckCounter × Micros) := do
  let (checks, delta) ← countChecks r.checks
  forEach (b.report work) nonces
  let t ← now
  keepAccount delta nonces.length (t - r.sampled) t
  pure (checks, t)

theorem finishRound_eq (b : Board) (work : Work) (r : Round) (nonces : List UInt64) :
    (b.finishRound work r nonces : Routine ν _) = (do
      let (stalled, stall) ← b.checkStall r.stall
      let (checks, t) ← b.countRound work r nonces
      let watched ← b.watchIfDue r.watched t
      if stalled then
        note .coreStalled
        pure (.inr (.ok .stalled))
      else pure (.inl { checks, stall, sampled := t, watched })) := by
  simp only [finishRound, countRound, bind_eq, bind_assoc, pure_eq, done_bind]

section

variable {W : Watch ν S} {P : Request ν → Prop} {J : CheckCounter → S → Prop}
  {K : CheckCounter → List UInt64 → S → Prop} {b : Board} {work : Work} {c : CheckCounter} {s : S}
  (keeps : ∀ {α : Type} {p : Routine ν α} {c s}, p.Only P → J c s → p.Ensures W (fun _ ↦ J c) s)

section Round

variable (room : RoomToRun P work)
  (gathers : ∀ c s, J c s → b.gatherNonces.Ensures W (fun
    | .ok nonces, t => K c nonces t
    | .error _, t => J c t) s)
  (samples : ∀ c nonces last s, K c nonces s →
    (b.checkStall last).Ensures W (fun _ ↦ K c nonces) s)
  (counts : ∀ r nonces s, K r.checks nonces s →
    (b.countRound work r nonces).Ensures W (fun x ↦ J x.1) s)
include keeps room gathers samples counts

omit gathers in
/-- After a round the invariant holds, of its counter if there is another round. -/
theorem ensures_finishRound_by_round (r : Round) (nonces : List UInt64)
    (hs : K r.checks nonces s) :
    (b.finishRound work r nonces).Ensures W (fun
      | .inl r, t => J r.checks t
      | .inr _, t => ∃ c, J c t) s := by
  rw [finishRound_eq]
  refine (samples r.checks nonces r.stall s hs).seq fun stall t ht ↦ ?_
  refine (counts r nonces t ht).seq fun counted t ht ↦ ?_
  refine (keeps (only_watchIfDue room.toWatch b r.watched counted.2) ht).seq fun watched t ht ↦ ?_
  split
  · exact (keeps (only_note room.quiet rfl) ht).seq fun _ u hu ↦ ⟨_, hu⟩
  · exact ht

theorem ensures_searchRound_by_round (r : Round) (hs : J r.checks s) :
    (b.searchRound work r).Ensures W (fun
      | .inl r, t => J r.checks t
      | .inr _, t => ∃ c, J c t) s := by
  refine (keeps (only_request (room.quiet .memory rfl)) hs).seq fun m t ht ↦ ?_
  split
  · exact ⟨_, ht⟩
  · refine (keeps (only_request room.looks) ht).seq fun cancelled t ht ↦ ?_
    split
    · exact ⟨_, ht⟩
    · refine (gathers r.checks t ht).seq ?_
      rintro (e | nonces) t ht
      · exact ⟨_, ht⟩
      · exact ensures_finishRound_by_round (J := J) (K := K) keeps room samples counts r nonces ht

/-- **A search by its rounds.** A search starts with a new counter. While the nonces of a round are
at hand, another invariant may hold. -/
theorem ensures_search_by_round (safe : ∀ c t, J c t → W.safe t) (hs : J {} s) :
    (b.search work).Ensures W (fun _ t ↦ ∃ c, J c t) s := by
  have runs {s : S} (hs : J {} s) : (b.runSearch work).Ensures W (fun _ t ↦ ∃ c, J c t) s := by
    refine (keeps (only_programWork room.toProgram b) hs).seq ?_
    rintro (e | -) t ht
    · exact ⟨_, ht⟩
    · refine (keeps (only_request (room.searching true)) ht).seq fun _ t ht ↦ ?_
      refine (keeps (only_request (room.quiet .now rfl)) ht).seq fun now t ht ↦ ?_
      refine ensures_repeating (fun r : Round ↦ J r.checks) ht fun r t ht ↦ ⟨safe _ _ ht, ?_⟩
      refine (ensures_searchRound_by_round (J := J) (K := K) keeps room gathers samples counts r
        ht).mono ?_
      rintro (r' | a) u hu <;> exact hu
  refine (keeps (only_request room.acquire) hs).seq fun _ t ht ↦ ?_
  refine (runs ht).seq fun result t ⟨c, ht⟩ ↦ ?_
  have stops : (stopCore : Routine ν Unit).Only P :=
    only_stopCore room.quiet (fun value ↦ room.writes value _ (by decide))
      (room.writes _ _ (by decide))
  refine (keeps stops ht).seq fun _ t ht ↦ ?_
  refine (keeps (only_request room.release) ht).seq fun _ t ht ↦ ?_
  refine (keeps (only_request (room.searching false)) ht).seq fun _ t ht ↦ ?_
  cases result with
  | ok exit => exact (keeps (only_note room.quiet rfl) ht).seq fun _ u hu ↦ ⟨c, hu⟩
  | error e => exact (keeps (only_note room.quiet rfl) ht).seq fun _ u hu ↦ ⟨c, hu⟩

end Round

include keeps

/-- **A search by its counts.** Only the counting of a round needs more than the rest. -/
theorem ensures_search_by_count (room : RoomToSeek P work)
    (counts : ∀ r nonces s, J r.checks s →
      (b.countRound work r nonces).Ensures W (fun x ↦ J x.1) s)
    (safe : ∀ c t, J c t → W.safe t) (hs : J {} s) :
    (b.search work).Ensures W (fun _ t ↦ ∃ c, J c t) s := by
  refine ensures_search_by_round (J := J) (K := fun c _ ↦ J c) keeps room.toRoomToRun
    (fun c s hs ↦ ?_)
    (fun c nonces last s hs ↦ keeps (only_checkStall room.quiet room.stall b last) hs) counts safe
    hs
  refine (keeps (only_gatherNonces room.toGather b) hs).mono ?_
  rintro (e | nonces) t ht <;> exact ht

end

end HashBoard.Board
