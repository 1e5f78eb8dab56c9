import HashBoard.Proofs.Finds.Handing
import HashBoard.Proofs.Finds.Slots
import HashBoard.Proofs.Search.Course

/-!
# What some talk yields

What some talk yields are the nonces that were taken by interrupts, the solutions that were handed
over, and what was added to the number of solutions that onlookers are told. What one thing after
another yields adds up. Most of what a search asks yields nothing; gathering takes nonces, and
finishing a round with some nonces yields the solutions for them.
-/

namespace HashBoard

open Routine

variable {ν : Type}

/-- A request adds to the number of solutions, whatever that was. -/
def Request.Adds (r : Request ν) (n : Nat) : Prop :=
  ∀ m, (remembered m r).status.solutions = m.status.solutions + n

/-- What is added to the number of solutions by one request after another. -/
inductive AddsUp : List (Answered ν) → Nat → Prop
  | nil : AddsUp [] 0
  | cons {said : Answered ν} {talk : List (Answered ν)} {n k : Nat} : said.request.Adds n →
    AddsUp talk k → AddsUp (said :: talk) (n + k)

namespace Finds

open Board

variable {talk talk' : List (Answered ν)} {taken taken' : List UInt64}
  {handed handed' : List Solution} {n k : Nat} {r : Request ν} {said : Answered ν}

/-! ## Adding up -/

theorem addsUp_singleton (h : said.request.Adds n) : AddsUp [said] n := .cons h .nil

theorem addsUp_cons_zero (h : said.request.Adds 0) (h' : AddsUp talk n) :
    AddsUp (said :: talk) n := Nat.zero_add n ▸ .cons h h'

theorem addsUp_append (h : AddsUp talk n) (h' : AddsUp talk' k) :
    AddsUp (talk ++ talk') (n + k) := by
  induction h with
  | nil =>
    rw [Nat.zero_add]
    exact h'
  | cons hsaid _ ih =>
    rw [Nat.add_assoc]
    exact .cons hsaid ih

theorem addsUp_zero (h : ∀ said ∈ talk, said.request.Adds 0) : AddsUp talk 0 := by
  induction talk with
  | nil => exact .nil
  | cons said talk ih =>
    obtain ⟨hsaid, htalk⟩ := List.forall_mem_cons.mp h
    exact addsUp_cons_zero hsaid (ih htalk)

theorem addsUp_snoc (h : AddsUp (talk ++ [said]) k) :
    ∃ i j, AddsUp talk i ∧ said.request.Adds j ∧ k = i + j := by
  induction talk generalizing k with
  | nil =>
    cases h with
    | cons hsaid hnil =>
      cases hnil
      exact ⟨0, _, .nil, hsaid, Nat.add_comm _ _⟩
  | cons said' talk ih =>
    cases h with
    | cons hsaid' hrest =>
      obtain ⟨i, j, htalk, hsaid, rfl⟩ := ih hrest
      exact ⟨_, j, .cons hsaid' htalk, hsaid, (Nat.add_assoc _ _ _).symm⟩

/-- What some talk yields. -/
structure Yields (taken : List UInt64) (handed : List Solution) (n : Nat)
    (talk : List (Answered ν)) : Prop where
  taken : takenNonces talk = taken
  handed : handedOver talk = handed
  adds : AddsUp talk n

theorem Yields.append (h : Yields taken handed n talk) (h' : Yields taken' handed' k talk') :
    Yields (taken ++ taken') (handed ++ handed') (n + k) (talk ++ talk') := by
  refine ⟨?_, ?_, addsUp_append h.adds h'.adds⟩
  · rw [takenNonces_append, h.taken, h'.taken]
  · rw [handedOver_append, h.handed, h'.handed]

/-- A request that takes nothing, hands nothing over, and adds nothing. -/
structure Still (r : Request ν) : Prop extends Aside r where
  adds : r.Adds 0

theorem still_of_isQuiet (h : r.isQuiet) : Still r :=
  ⟨aside_of_isQuiet h, fun m ↦ congrArg (·.status.solutions) (remembered_of_isQuiet h m)⟩

theorem yields_nothing (h : ∀ said ∈ talk, Still said.request) : Yields [] [] 0 talk where
  taken := List.filterMap_eq_nil_iff.mpr fun said hs ↦ (h said hs).taken?_eq
  handed := List.filterMap_eq_nil_iff.mpr fun said hs ↦ (h said hs).handed?_eq
  adds := addsUp_zero fun said hs ↦ (h said hs).adds

theorem still_isCancelled : Still (.isCancelled : Request ν) := ⟨⟨nofun, nofun⟩, fun _ ↦ rfl⟩

theorem roomToRun_still {work : Work} : RoomToRun (Still : Request ν → Prop) work where
  quiet _ := still_of_isQuiet
  programmed _ _ _ := ⟨⟨nofun, nofun⟩, fun _ ↦ rfl⟩
  looks := still_isCancelled
  books _ h := ⟨⟨nofun, nofun⟩, fun m ↦ (h m).status.solutions⟩
  searching _ := ⟨⟨nofun, nofun⟩, fun _ ↦ rfl⟩
  halt := ⟨⟨nofun, nofun⟩, fun _ ↦ rfl⟩
  acquire := ⟨⟨nofun, nofun⟩, fun _ ↦ rfl⟩
  release := ⟨⟨nofun, nofun⟩, fun _ ↦ rfl⟩
  writes _ _ _ := ⟨⟨nofun, nofun⟩, fun _ ↦ rfl⟩
  header := ⟨⟨nofun, nofun⟩, fun _ ↦ rfl⟩
  target _ := ⟨⟨nofun, nofun⟩, fun _ ↦ rfl⟩

/-! ## Gathering -/

/-- Gathering hands nothing over. -/
theorem handedOver_of_run_gatherNonces {b : Board} {y : Except BoardError (List UInt64)}
    (run : Run b.gatherNonces talk y) : handedOver talk = [] ∧ AddsUp talk 0 := by
  have room : RoomToGather fun r : Request ν ↦ (∀ solution, r ≠ .submit solution) ∧ r.Adds 0 :=
    { quiet := fun r h ↦ ⟨(still_of_isQuiet h).submit, (still_of_isQuiet h).adds⟩
      slots := fun _ _ ↦ ⟨nofun, fun _ ↦ rfl⟩
      interrupts := fun _ _ ↦ ⟨nofun, fun _ ↦ rfl⟩
      acquire := ⟨nofun, fun _ ↦ rfl⟩
      release := ⟨nofun, fun _ ↦ rfl⟩
      clears := ⟨nofun, fun _ ↦ rfl⟩ }
  have hall := (only_gatherNonces room b).of_run run
  refine ⟨List.filterMap_eq_nil_iff.mpr fun said hs ↦ ?_,
    addsUp_zero fun said hs ↦ (hall said hs).2⟩
  obtain ⟨r, x⟩ := said
  cases r with
  | submit solution => exact absurd rfl ((hall _ hs).1 solution)
  | _ => rfl

/-- A wait for an interrupt gathers what it takes. -/
theorem takenNonces_of_run_gatherNonces {b : Board} {y : Except BoardError (List UInt64)}
    (interrupts : b.settings.nonceReporting = .interrupt) (run : Run b.gatherNonces talk y) :
    takenNonces talk = y.toOption.getD [] := by
  obtain ⟨q, hp, he⟩ := run
  have ensures := (ensures_gatherNonces (s := []) interrupts rfl).along (fun _ _ _ ↦ rfl) hp
  have howes := ensures.of_ends he
  rw [List.nil_append, Owes, (handedOver_of_run_gatherNonces ⟨q, hp, he⟩).1] at howes
  exact howes

/-- A poll takes no nonces by interrupts. It gathers those in the slots, and empties these. -/
theorem slotNonces_of_run_gatherNonces {b : Board} {y : Except BoardError (List UInt64)}
    (polls : b.settings.nonceReporting = .polled) (run : Run b.gatherNonces talk y)
    (more : List (Answered ν)) :
    ∃ nonces, y = .ok nonces ∧ nonces = slotNonces (talk ++ more) ∧
      clears talk = if nonces = [] then 0 else 1 := by
  rw [gatherNonces, polls] at run
  obtain ⟨_, _, rfl, hsleep⟩ := (run_ask_iff (r := .release)).mp run
  obtain ⟨_, _, rfl, hacquire⟩ := (run_ask_iff (r := .sleep _)).mp hsleep
  obtain ⟨_, _, rfl, hpoll⟩ := (run_ask_iff (r := .acquire)).mp hacquire
  rw [done_bind] at hpoll
  obtain ⟨polling, nonces, _, rfl, hpolling, hdone⟩ := run_bind_iff.mp hpoll
  obtain ⟨rfl, rfl⟩ := run_done_iff.mp hdone
  obtain ⟨hnonces, hclears⟩ := of_run_pollNonces hpolling more
  have pause : ∀ said ∈ [(⟨.release, ()⟩ : Answered ν), ⟨.sleep b.settings.workDelay, ()⟩,
      ⟨.acquire, ()⟩], ∀ addr, said.request ≠ .call (.read addr) := by simp
  rw [List.append_nil]
  refine ⟨nonces, rfl, hnonces.trans (slotNonces_append pause (polling ++ more)).symm, ?_⟩
  exact (clears_append [⟨.release, ()⟩, ⟨.sleep _, ()⟩, ⟨.acquire, ()⟩] polling).trans
    ((Nat.zero_add _).trans hclears)

/-! ## Finishing a round -/

/-- The solutions are for some work, and from a board. -/
def From (b : Board) (work : Work) (solutions : List Solution) : Prop :=
  ∀ solution ∈ solutions, solution.work = work ∧ solution.board = b.index

theorem yields_of_run_report {b : Board} {work : Work} {nonce : UInt64} {u : Unit}
    (run : Run (b.report work nonce) talk u) :
    ∃ solution, Yields [] [solution] 0 talk ∧ solution.nonce = nonce ∧ From b work [solution] := by
  obtain ⟨_, _, rfl, hnow⟩ := (run_ask_iff (r := .note _)).mp run
  obtain ⟨foundAt, _, rfl, hsubmit⟩ := (run_ask_iff (r := .now)).mp hnow
  obtain ⟨somebody, rest, rfl, hrest⟩ := (run_ask_iff (r := .submit _)).mp hsubmit
  have hlast : Yields [] [] 0 rest := by
    refine yields_nothing fun said hs ↦ ?_
    cases somebody with
    | true =>
      obtain ⟨rfl, -⟩ := run_done_iff.mp hrest
      cases hs
    | false =>
      exact (only_note (fun _ ↦ still_of_isQuiet) rfl).of_run hrest said hs
  refine ⟨{ nonce, work, foundAt, board := b.index }, ?_, rfl,
    List.forall_mem_singleton.mpr ⟨rfl, rfl⟩⟩
  have hbefore : Yields [] [] 0 [(⟨.note (.solution work.header nonce), ()⟩ : Answered ν),
      ⟨.now, foundAt⟩] := by
    refine yields_nothing (List.forall_mem_cons.mpr ⟨still_of_isQuiet rfl, ?_⟩)
    exact List.forall_mem_singleton.mpr (still_of_isQuiet rfl)
  have hhands (solution : Solution) (x : Bool) :
      Yields [] [solution] 0 [(⟨.submit solution, x⟩ : Answered ν)] :=
    ⟨rfl, rfl, addsUp_singleton fun _ ↦ rfl⟩
  exact hbefore.append ((hhands _ somebody).append hlast)

theorem yields_of_run_reports {b : Board} {work : Work} {nonces : List UInt64} {u : Unit}
    (run : Run (forEach (b.report work) nonces) talk u) :
    ∃ solutions, Yields [] solutions 0 talk ∧ solutions.map (·.nonce) = nonces ∧
      From b work solutions := by
  induction nonces generalizing talk with
  | nil =>
    obtain ⟨rfl, -⟩ := run_done_iff.mp run
    exact ⟨[], ⟨rfl, rfl, .nil⟩, rfl, List.forall_mem_nil _⟩
  | cons nonce nonces ih =>
    obtain ⟨first, _, rest, rfl, hfirst, hrest⟩ := run_bind_iff.mp run
    obtain ⟨solution, hyields, rfl, hfrom⟩ := yields_of_run_report hfirst
    obtain ⟨solutions, hyields', rfl, hfrom'⟩ := ih hrest
    exact ⟨solution :: solutions, hyields.append hyields', rfl,
      List.forall_mem_append.mpr ⟨hfrom, hfrom'⟩⟩

variable [Quantity ν]

theorem yields_of_run_keepAccount {delta : UInt64} {found : Nat} {elapsed t : Micros} {u : Unit}
    (run : Run (keepAccount delta found elapsed t) talk u) : Yields [] [] found talk := by
  obtain ⟨errorRate, m, f, rfl, hkept⟩ := exists_of_run_keepAccount run
  have spares {r : Request ν} {x : Reply r} {talk : List (Answered ν)} {n : Nat}
      (h : ∀ m, remembered m r = m) (h' : AddsUp talk n) : AddsUp (⟨r, x⟩ :: talk) n :=
    addsUp_cons_zero (fun m ↦ congrArg (·.status.solutions) (h m)) h'
  refine ⟨rfl, rfl, spares (fun _ ↦ rfl) (spares (fun _ ↦ rfl) (spares (fun _ ↦ rfl) ?_))⟩
  exact addsUp_singleton fun m ↦ (hkept m).2

/-- What is done in a round once its nonces are there hands them over. -/
theorem yields_finish {b : Board} {work : Work} {r : Round} {nonces : List UInt64}
    (f : Finish (ν := ν) b work r nonces) :
    ∃ solutions, Yields [] solutions nonces.length f.said ∧ solutions.map (·.nonce) = nonces ∧
      From b work solutions := by
  have quiet : ∀ r : Request ν, r.isQuiet → Still r := fun _ ↦ still_of_isQuiet
  have reads (addr : Word) : Still (.call (.read addr) : Request ν) :=
    ⟨⟨nofun, nofun⟩, fun _ ↦ rfl⟩
  have hsampling := yields_nothing ((only_checkStall quiet (reads _) b r.stall).of_run
    f.run_sampling)
  have hchecking := yields_nothing ((only_countChecks quiet r.checks fun _ _ ↦ reads _).of_run
    f.run_checking)
  obtain ⟨solutions, hhanding, hnonces, hfrom⟩ := yields_of_run_reports f.run_handing
  have hnow : Yields [] [] 0 [(⟨.now, f.t⟩ : Answered ν)] :=
    yields_nothing (List.forall_mem_singleton.mpr (quiet _ rfl))
  have htelling := yields_of_run_keepAccount f.run_telling
  have room : RoomToRun (Still : Request ν → Prop) work := roomToRun_still
  have hwatching := yields_nothing ((only_watchIfDue room.toWatch b r.watched f.t).of_run
    f.run_watching)
  have hending : Yields (ν := ν) [] [] 0
      (if f.stall.1 then [⟨.note .coreStalled, ()⟩] else []) := by
    refine yields_nothing fun said hs ↦ ?_
    split at hs
    · exact List.mem_singleton.mp hs ▸ quiet _ rfl
    · cases hs
  refine ⟨solutions, ?_, hnonces, hfrom⟩
  have hall := hsampling.append (hchecking.append (hhanding.append (hnow.append
    (htelling.append (hwatching.append hending)))))
  simp only [List.nil_append, List.append_nil, Nat.zero_add, Nat.add_zero] at hall
  exact hall

end Finds

end HashBoard
