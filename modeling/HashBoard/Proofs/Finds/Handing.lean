import HashBoard.Proofs.Finds.Queue
import HashBoard.Proofs.Routine.Transcript
import HashBoard.Proofs.Scene.Memory
import HashBoard.Proofs.Search.Rounds

/-!
# What is taken is handed over

A search that is told of nonces by interrupts takes at most one in each round and hands it over in
the same round, whatever it is answered and however the search ends. Nobody else takes nonces or
hands anything over. So, along every run, the solutions that were handed over have the nonces that
were taken, in this order, and the next one that is handed over has the nonce that was taken last
(`owes_of_runs`).
-/

namespace HashBoard

/-- The solution that is handed over by a request. -/
def Answered.handed? {ν : Type} : Answered ν → Option Solution
  | ⟨.submit solution, _⟩ => some solution
  | _ => none

/-- The solutions that were handed over, whether or not anybody was there to get them. -/
def handedOver {ν : Type} (talk : List (Answered ν)) : List Solution :=
  talk.filterMap Answered.handed?

namespace Finds

open Routine Board

variable {ν α : Type} {s t talk : List (Answered ν)} {r : Request ν} {x : Reply r}
  {p : Routine ν α} {nonces : List UInt64}

/-- The nonces that were taken are those of the solutions that were handed over, and some more. -/
def Owes (nonces : List UInt64) (talk : List (Answered ν)) : Prop :=
  takenNonces talk = (handedOver talk).map (·.nonce) ++ nonces

/-- What is handed over has the nonce that is owed first. -/
def MayHand (talk : List (Answered ν)) (r : Request ν) : Prop :=
  ∀ solution, r = .submit solution → ∃ rest, Owes (solution.nonce :: rest) talk

/-! ## What leaves the account alone -/

/-- A request that neither waits for a nonce nor hands one over. -/
structure Aside (r : Request ν) : Prop where
  await : ∀ mask timeout, r ≠ .call (.awaitInterrupt mask timeout)
  submit : ∀ solution, r ≠ .submit solution

theorem Aside.taken?_eq (h : Aside r) : (⟨r, x⟩ : Answered ν).taken? = none := by
  cases r with
  | call c =>
    cases c with
    | awaitInterrupt mask timeout => exact absurd rfl (h.await mask timeout)
    | _ => rfl
  | _ => rfl

theorem Aside.handed?_eq (h : Aside r) : (⟨r, x⟩ : Answered ν).handed? = none := by
  cases r with
  | submit solution => exact absurd rfl (h.submit solution)
  | _ => rfl

theorem handedOver_append (talk talk' : List (Answered ν)) :
    handedOver (talk ++ talk') = handedOver talk ++ handedOver talk' := List.filterMap_append

theorem Owes.snoc (hs : Owes nonces s) (h : Aside r) : Owes nonces (s ++ [⟨r, x⟩]) := by
  have htaken : takenNonces [(⟨r, x⟩ : Answered ν)] = [] :=
    List.filterMap_cons_none h.taken?_eq
  have hhanded : handedOver [(⟨r, x⟩ : Answered ν)] = [] :=
    List.filterMap_cons_none h.handed?_eq
  rw [Owes, takenNonces_append, handedOver_append, htaken, hhanded, List.append_nil,
    List.append_nil]
  exact hs

theorem ensures_aside (h : p.Only Aside) (hs : Owes nonces s) :
    p.Ensures (guarded MayHand) (fun _ ↦ Owes nonces) s :=
  Ensures.guarded (h.keeps hs fun _ _ _ ht hr ↦ ht.snoc hr)
    (h.mono fun _ hr _ solution heq ↦ absurd heq (hr.submit solution))

theorem aside_of_isQuiet (h : r.isQuiet) : Aside r := by
  constructor
  · rintro mask timeout rfl
    cases h
  · rintro solution rfl
    cases h

theorem aside_of_modest (h : Modest r) : Aside r := by
  cases h with
  | quiet h => exact aside_of_isQuiet h
  | _ => exact ⟨nofun, nofun⟩

theorem roomToPrepare_aside : RoomToPrepare (Aside : Request ν → Prop) where
  quiet _ := aside_of_isQuiet
  preparing := ⟨nofun, nofun⟩
  enter := ⟨nofun, nofun⟩
  changing _ := ⟨nofun, nofun⟩
  clocks _ _ := ⟨nofun, nofun⟩
  clock _ := ⟨nofun, nofun⟩
  books _ _ := ⟨nofun, nofun⟩
  writes _ _ _ := ⟨nofun, nofun⟩
  stop := ⟨nofun, nofun⟩
  release := ⟨nofun, nofun⟩
  build :=
    { quiet := fun _ ↦ aside_of_isQuiet
      phases := fun _ ↦ ⟨nofun, nofun⟩
      overdue := fun _ ↦ ⟨nofun, nofun⟩
      enters := fun _ ↦ ⟨nofun, nofun⟩
      looks := ⟨nofun, nofun⟩
      acquire := ⟨nofun, nofun⟩
      release := ⟨nofun, nofun⟩
      status := ⟨nofun, nofun⟩
      writes := fun _ _ _ ↦ ⟨nofun, nofun⟩
      seed := fun _ ↦ ⟨nofun, nofun⟩
      uploads := fun _ _ ↦ ⟨nofun, nofun⟩
      moves := fun _ _ _ ↦ ⟨nofun, nofun⟩ }
  resident := ⟨nofun, nofun⟩
  epoch _ := ⟨nofun, nofun⟩
  startTune _ := ⟨nofun, nofun⟩
  busy _ := ⟨nofun, nofun⟩
  ready _ := ⟨nofun, nofun⟩

theorem roomToRun_aside {work : Work} : RoomToRun (Aside : Request ν → Prop) work where
  quiet _ := aside_of_isQuiet
  programmed _ _ _ := ⟨nofun, nofun⟩
  looks := ⟨nofun, nofun⟩
  books _ _ := ⟨nofun, nofun⟩
  searching _ := ⟨nofun, nofun⟩
  halt := ⟨nofun, nofun⟩
  acquire := ⟨nofun, nofun⟩
  release := ⟨nofun, nofun⟩
  writes _ _ _ := ⟨nofun, nofun⟩
  header := ⟨nofun, nofun⟩
  target _ := ⟨nofun, nofun⟩

/-! ## A round -/

/-- What a wait for an interrupt takes is owed. -/
theorem ensures_await (mask : Word) (timeout : Micros) (hs : Owes [] s) :
    (call (.awaitInterrupt mask timeout)).Ensures (guarded (MayHand (ν := ν))) (fun x ↦
      Owes (takenNonces [(⟨.call (.awaitInterrupt mask timeout), x⟩ : Answered ν)])) s := by
  refine Ensures.guarded ?_ (only_request fun _ _ ↦ nofun)
  refine (ensures_request _ s).mono ?_
  rintro x t rfl
  have hhanded : handedOver [(⟨.call (.awaitInterrupt mask timeout), x⟩ : Answered ν)] = [] := rfl
  rw [Owes, takenNonces_append, handedOver_append, hhanded, List.append_nil, hs, List.append_nil]

theorem ensures_gatherNonces {b : Board} (interrupts : b.settings.nonceReporting = .interrupt)
    (hs : Owes [] s) :
    b.gatherNonces.Ensures (guarded (MayHand (ν := ν)))
      (fun x ↦ Owes (x.toOption.getD [])) s := by
  have quiet : ∀ r : Request ν, r.isQuiet → Aside r := fun _ ↦ aside_of_isQuiet
  have aside {r : Request ν} (h : Aside r) {nonces : List UInt64} {s : List (Answered ν)}
      (hs : Owes nonces s) : (request r).Ensures (guarded MayHand) (fun _ ↦ Owes nonces) s :=
    ensures_aside (only_request h) hs
  rw [gatherNonces, interrupts]
  refine (aside roomToPrepare_aside.release hs).seq fun _ t ht ↦ ?_
  refine (ensures_await _ _ ht).seq fun answer t ht ↦ ?_
  refine (aside roomToPrepare_aside.build.acquire ht).seq fun _ t ht ↦ ?_
  rcases answer with fault | nonce
  · refine (aside (quiet (.note _) rfl) ht).seq fun _ t ht ↦ ?_
    refine (ensures_aside (only_escalate quiet b _ _) ht).seq fun x t ht ↦ ?_
    cases x <;> exact ht
  · cases nonce <;> exact ht

/-- The nonce that is owed first is handed over. -/
theorem ensures_report (b : Board) (work : Work) {nonce : UInt64} (hs : Owes (nonce :: nonces) s) :
    (b.report work nonce).Ensures (guarded (MayHand (ν := ν))) (fun _ ↦ Owes nonces) s := by
  have quiet : ∀ r : Request ν, r.isQuiet → Aside r := fun _ ↦ aside_of_isQuiet
  refine (ensures_aside (only_request (quiet (.note _) rfl)) hs).seq fun _ t ht ↦ ?_
  refine (ensures_aside (only_request (quiet .now rfl)) ht).seq fun foundAt t ht ↦ ?_
  refine ⟨trivial, ?_, ?_⟩
  · rintro solution ⟨⟩
    exact ⟨nonces, ht⟩
  · rintro somebody _ ⟨t, rfl, rfl⟩
    have htaken (x : Bool) (solution : Solution) :
        takenNonces [(⟨.submit solution, x⟩ : Answered ν)] = [] := rfl
    have hhanded (x : Bool) (solution : Solution) :
        handedOver [(⟨.submit solution, x⟩ : Answered ν)] = [solution] := rfl
    have settled : Owes nonces (t ++ [⟨.submit
        { nonce, work, foundAt, board := b.index }, somebody⟩]) := by
      rw [Owes, takenNonces_append, handedOver_append, htaken, hhanded, ht, List.append_nil,
        List.map_append, List.append_assoc]
      rfl
    cases somebody with
    | true => exact settled
    | false => exact ensures_aside (only_request (quiet _ rfl)) settled

theorem ensures_reports (b : Board) (work : Work) (hs : Owes nonces s) :
    (forEach (b.report work) nonces).Ensures (guarded (MayHand (ν := ν))) (fun _ ↦ Owes []) s := by
  induction nonces generalizing s with
  | nil => exact hs
  | cons nonce nonces ih => exact (ensures_report b work hs).seq fun _ t ht ↦ ih ht

variable [Quantity ν]

theorem ensures_countRound (b : Board) (work : Work) (r : Round) (hs : Owes nonces s) :
    (b.countRound work r nonces).Ensures (guarded (MayHand (ν := ν))) (fun _ ↦ Owes []) s := by
  have quiet : ∀ r : Request ν, r.isQuiet → Aside r := fun _ ↦ aside_of_isQuiet
  have counts : (countChecks r.checks : Routine ν _).Only Aside :=
    only_countChecks quiet r.checks fun _ _ ↦ ⟨nofun, nofun⟩
  refine (ensures_aside counts hs).seq fun checks t ht ↦ ?_
  refine (ensures_reports b work ht).seq fun _ t ht ↦ ?_
  refine (ensures_aside (only_request (quiet .now rfl)) ht).seq fun now t ht ↦ ?_
  have keeps : (keepAccount checks.2 nonces.length (now - r.sampled) now : Routine ν Unit).Only
      Aside := only_keepAccount quiet (fun _ ↦ ⟨nofun, nofun⟩) (fun _ _ ↦ ⟨nofun, nofun⟩) _ _ _ _
  exact (ensures_aside keeps ht).seq fun _ t ht ↦ ht

/-! ## The errands -/

/-- An errand hands over what it takes. -/
theorem ensures_errand {b : Board} (interrupts : b.settings.nonceReporting = .interrupt)
    (job : (b.errands (ν := ν)).Job) (hs : Owes [] s) :
    (b.errands.routine job).Ensures (guarded (MayHand (ν := ν))) (fun _ ↦ Owes []) s := by
  cases job with
  | prepare ctx => exact ensures_aside (only_prepareEpoch roomToPrepare_aside b ctx) hs
  | search work =>
    have quiet : ∀ r : Request ν, r.isQuiet → Aside r := fun _ ↦ aside_of_isQuiet
    refine (ensures_search_by_round (J := fun _ ↦ Owes []) (K := fun _ ↦ Owes) ensures_aside
      roomToRun_aside (fun _ t ht ↦ ?_)
      (fun _ _ last _ ↦ ensures_aside (only_checkStall quiet ⟨nofun, nofun⟩ b last))
      (fun r _ _ ↦ ensures_countRound b work r) (fun _ _ _ ↦ trivial) hs).mono ?_
    · refine (ensures_gatherNonces interrupts ht).mono ?_
      rintro (e | nonces) u hu <;> exact hu
    · exact fun _ _ ⟨_, ht⟩ ↦ ht

/-! ## Along a run -/

section Runs

variable {b : Board} {memory : Memory ν} {feed : Feed}
  {es : List (Occurrence (b.errands (ν := ν)))} {u : Scene (b.errands (ν := ν))}

/-- Along a run nothing is owed where the owner has no errand, and what is left of an errand hands
over what it takes. -/
theorem standing_of_runs (interrupts : b.settings.nonceReporting = .interrupt)
    (run : Scene.Runs (.quiet memory feed) es u) :
    u.Standing (guarded MayHand) (Owes []) (fun _ _ ↦ Owes []) (ownTalk es) := by
  refine run.upkeep_alone _ (fun _ _ h ↦ h) rfl rfl ?_ ?_ ?_ ?_
  · intro pre job _ hidle
    rw [ownTalk_append]
    exact ensures_errand interrupts job ((List.append_nil _).symm ▸ hidle)
  · intro pre job a _ hpost
    rw [ownTalk_append]
    exact (List.append_nil _).symm ▸ hpost
  · intro pre t u r x _ _ _ _
    exact ownTalk_snoc_own pre _
  · intro pre t u e _ _ _ he
    exact ownTalk_snoc_others pre he

/-- Only the owner takes nonces and hands them over. -/
theorem takenNonces_talkOf (run : Scene.Runs (.quiet memory feed) es u) :
    takenNonces (talkOf es) = takenNonces (ownTalk es) :=
  run.filterMap_allTalk (Scene.orderly_quiet memory feed) fun _ h ↦ (aside_of_modest h).taken?_eq

theorem handedOver_talkOf (run : Scene.Runs (.quiet memory feed) es u) :
    handedOver (talkOf es) = handedOver (ownTalk es) :=
  run.filterMap_allTalk (Scene.orderly_quiet memory feed) fun _ h ↦ (aside_of_modest h).handed?_eq

/-- **What is handed over next is what was taken last.** -/
theorem owes_of_runs (interrupts : b.settings.nonceReporting = .interrupt) {party : Party}
    {solution : Solution} {x : Bool}
    (run : Scene.Runs (.quiet memory feed) (es ++ [.talks party ⟨.submit solution, x⟩]) u) :
    ∃ rest, Owes (solution.nonce :: rest) (talkOf es) := by
  obtain ⟨t, upTo, last⟩ := run.of_snoc
  have hmodest : ¬Modest (.submit solution : Request ν) :=
    fun h ↦ (aside_of_modest h).submit solution rfl
  obtain ⟨rfl, -⟩ := run.begun_of_asked (Scene.orderly_quiet memory feed) rfl hmodest
  have standing := standing_of_runs interrupts upTo
  cases last with
  | owner howner hp _ =>
    simp only [Owes, takenNonces_talkOf upTo, handedOver_talkOf upTo]
    exact (standing.2 _ _ howner).allows_of_steps hp solution rfl

end Runs

end Finds

end HashBoard
