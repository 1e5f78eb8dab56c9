import HashBoard.Proofs.Routine.Transcript
import HashBoard.Proofs.Search.Rounds
import HashBoard.Proofs.Tally.Counter

/-!
# What a search tells the tuning

Each round of a search samples the check counter of the board once and tells the tuning one delta.
So the deltas of a search are what a counter that starts anew makes of the samples of that search,
one for one, as long as the counter can be read and its high word stays at zero (`tells_of_tune`).
-/

namespace HashBoard

variable {ν : Type}

/-- The samples of the low word of the check counter. -/
def samples (talk : List (Answered ν)) : List Word :=
  talk.filterMap fun
    | ⟨.call (.read addr), .ok value⟩ => if addr = Reg.checksLo then some value else none
    | _ => none

/-- The deltas that the tuning was told. -/
def deltas (talk : List (Answered ν)) : List UInt64 :=
  talk.filterMap fun
    | ⟨.tune delta, _⟩ => some delta
    | _ => none

/-- A reply that does not fail to read the check counter, and finds zero in its high word. -/
def Answered.Counts : Answered ν → Prop
  | ⟨.call (.read addr), .ok value⟩ => addr = Reg.checksHi → value = 0
  | ⟨.call (.read addr), .error _⟩ => addr ∉ Reg.checks
  | _ => True

/-- The check counter can be read, and its high word stays at zero. -/
def Counts (talk : List (Answered ν)) : Prop := ∀ said ∈ talk, said.Counts

theorem samples_append (talk talk' : List (Answered ν)) :
    samples (talk ++ talk') = samples talk ++ samples talk' := List.filterMap_append

theorem deltas_append (talk talk' : List (Answered ν)) :
    deltas (talk ++ talk') = deltas talk ++ deltas talk' := List.filterMap_append

/-- Only a request to tune tells a delta. -/
theorem deltas_eq_nil {r : Request ν} (h : ∀ delta, r ≠ .tune delta) (x : Reply r) :
    deltas [⟨r, x⟩] = [] := by
  rw [deltas, List.filterMap_eq_nil_iff, List.forall_mem_singleton]
  split
  · rename_i delta _ heq
    cases heq
    exact absurd rfl (h delta)
  · rfl

theorem exists_tune {talk : List (Answered ν)} (h : deltas talk ≠ []) :
    ∃ earlier delta x later, talk = earlier ++ ⟨.tune delta, x⟩ :: later := by
  obtain ⟨delta, hdelta⟩ := List.exists_mem_of_ne_nil _ h
  obtain ⟨said, hsaid, htune⟩ := List.mem_filterMap.mp hdelta
  obtain ⟨earlier, later, rfl⟩ := List.append_of_mem hsaid
  split at htune
  · exact ⟨earlier, _, _, later, rfl⟩
  · cases htune

theorem Counts.of_append {talk talk' : List (Answered ν)} (h : Counts (talk ++ talk')) :
    Counts talk := fun said hsaid ↦ h said (List.mem_append_left _ hsaid)

namespace Tally

open Routine Board

/-- A request that neither samples the check counter nor tells the tuning of it. -/
structure Aside (r : Request ν) : Prop where
  read : ∀ addr ∈ Reg.checks, r ≠ .call (.read addr)
  tune : ∀ delta, r ≠ .tune delta

variable {α : Type} {r : Request ν} {x : Reply r} {s t : List (Answered ν)} {p : Routine ν α}

theorem Aside.samples_eq (h : Aside r) : samples [⟨r, x⟩] = [] := by
  rw [samples, List.filterMap_eq_nil_iff, List.forall_mem_singleton]
  split
  · rename_i addr value heq
    cases heq
    refine if_neg ?_
    rintro rfl
    exact h.read Reg.checksLo (by decide) rfl
  · rfl

theorem aside_of_isQuiet (h : r.isQuiet) : Aside r := by
  constructor
  · rintro addr haddr rfl
    have htelling : addr ∈ Reg.telling := List.mem_append_right _ haddr
    simp [Request.isQuiet, htelling] at h
  · rintro delta rfl
    cases h

/-- The tuning is told what a new counter makes of the samples. -/
def MayAsk (talk : List (Answered ν)) (r : Request ν) : Prop :=
  ∀ delta, r = .tune delta → Counts talk →
    deltas talk ++ [delta] = CheckCounter.tally {} (samples talk)

/-- A search has told one delta for each sample, and its counter stands where the samples lead. -/
def Even (c : CheckCounter) (talk : List (Answered ν)) : Prop :=
  Counts talk → deltas talk = CheckCounter.tally {} (samples talk) ∧
    CheckCounter.afterAll {} (samples talk) = c

/-- A search is about to tell a delta for its last sample. -/
def Due (c : CheckCounter) (delta : UInt64) (talk : List (Answered ν)) : Prop :=
  Counts talk → deltas talk ++ [delta] = CheckCounter.tally {} (samples talk) ∧
    CheckCounter.afterAll {} (samples talk) = c

/-- What was sampled and told decides. -/
theorem ensures_aside {R : List Word → List UInt64 → Prop} (h : p.Only Aside)
    (hs : Counts s → R (samples s) (deltas s)) :
    p.Ensures (guarded MayAsk) (fun _ t ↦ Counts t → R (samples t) (deltas t)) s := by
  refine Ensures.guarded (h.keeps hs fun t r x ht hr hcounts ↦ ?_)
    (h.mono fun r hr t delta heq ↦ ?_)
  · rw [samples_append, hr.samples_eq, List.append_nil, deltas_append, deltas_eq_nil hr.tune,
      List.append_nil]
    exact ht hcounts.of_append
  · exact absurd heq (hr.tune delta)

theorem ensures_even {c : CheckCounter} (h : p.Only Aside) (hs : Even c s) :
    p.Ensures (guarded MayAsk) (fun _ ↦ Even c) s :=
  ensures_aside (R := fun samples deltas ↦ deltas = CheckCounter.tally {} samples ∧
    CheckCounter.afterAll {} samples = c) h hs

theorem ensures_due {c : CheckCounter} {delta : UInt64} (h : p.Only Aside) (hs : Due c delta s) :
    p.Ensures (guarded MayAsk) (fun _ ↦ Due c delta) s :=
  ensures_aside (R := fun samples deltas ↦ deltas ++ [delta] = CheckCounter.tally {} samples ∧
    CheckCounter.afterAll {} samples = c) h hs

/-! ## A sample -/

/-- What is known after a read of the check counter. -/
def Sampled (s : List (Answered ν)) (addr : Word) (x : Except LinkFault Word)
    (t : List (Answered ν)) : Prop :=
  Counts t → Counts s ∧ (⟨.call (.read addr), x⟩ : Answered ν).Counts ∧
    samples t = samples s ++ samples [(⟨.call (.read addr), x⟩ : Answered ν)] ∧ deltas t = deltas s

theorem aside_note (event : Event ν) : Aside (.note event) := ⟨nofun, nofun⟩

theorem Sampled.snoc {addr : Word} {y : Except LinkFault Word} (h : Sampled s addr y t)
    (hr : Aside r) : Sampled s addr y (t ++ [⟨r, x⟩]) := by
  intro hcounts
  rw [samples_append, hr.samples_eq, List.append_nil, deltas_append, deltas_eq_nil hr.tune,
    List.append_nil]
  exact h hcounts.of_append

theorem ensures_read (addr : Word) (s : List (Answered ν)) :
    (read addr).Ensures (transcript ν) (fun x t ↦ Sampled s addr x t) s := by
  have reads (x : Except LinkFault Word) :
      Sampled s addr x (s ++ [⟨.call (.read addr), x⟩]) := by
    intro hcounts
    have hlast := hcounts _ (List.mem_append_right _ (.head _))
    refine ⟨hcounts.of_append, hlast, samples_append _ _, ?_⟩
    rw [deltas_append]
    exact List.append_nil _
  refine (ensures_request (.call (.read addr)) s).seq ?_
  rintro (fault | value) t rfl
  · exact reads _
  · refine (ensures_request (.note _) _).seq ?_
    rintro - _ rfl
    exact (reads (.ok value)).snoc (aside_note _)

/-- A register of the check counter is read, and the word is not made up if the counter counts. -/
theorem ensures_readOr {addr : Word} (haddr : addr ∈ Reg.checks) (what : String)
    (s : List (Answered ν)) :
    (readOr addr 0 what).Ensures (transcript ν) (fun w t ↦ Sampled s addr (.ok w) t) s := by
  refine (ensures_read addr s).seq ?_
  rintro (fault | value) t ht
  · refine (ensures_request (.note _) t).seq ?_
    rintro - _ rfl
    exact fun hcounts ↦ absurd haddr (ht hcounts.of_append).2.1
  · exact ht

theorem ensures_countChecks {c : CheckCounter} (hs : Even c s) :
    (countChecks c).Ensures (guarded MayAsk) (fun x ↦ Due x.1 x.2) s := by
  have asks : (countChecks c : Routine ν _).Only fun r ↦ ∀ t, MayAsk t r :=
    only_countChecks (fun r h t delta heq ↦ absurd heq ((aside_of_isQuiet h).tune delta)) c
      fun _ _ _ _ ↦ nofun
  refine Ensures.guarded ?_ asks
  refine (ensures_readOr (by decide) _ s).seq fun lo t ht ↦ ?_
  refine (ensures_readOr (by decide) _ t).seq fun hi u hu ↦ ?_
  intro hcounts
  obtain ⟨htcounts, hhi, husamples, hudeltas⟩ := hu hcounts
  obtain ⟨hscounts, -, htsamples, htdeltas⟩ := ht htcounts
  obtain ⟨htold, hafter⟩ := hs hscounts
  obtain rfl : hi = 0 := hhi rfl
  have hsamples : samples u = samples s ++ [lo] := by
    rw [husamples, htsamples]
    exact List.append_nil _
  rw [hsamples, CheckCounter.tally_snoc, CheckCounter.afterAll_snoc, hafter, hudeltas, htdeltas,
    htold]
  exact ⟨rfl, rfl⟩

/-! ## The rounds -/

theorem ensures_tune {c : CheckCounter} {delta : UInt64} (hs : Due c delta s) :
    (request (.tune delta)).Ensures (guarded MayAsk) (fun _ ↦ Even c) s := by
  refine ⟨trivial, ?_, ?_⟩
  · rintro delta' ⟨⟩ hcounts
    exact (hs hcounts).1
  · rintro ⟨⟩ _ ⟨_, rfl, rfl⟩ hcounts
    have htune : samples [(⟨.tune delta, ()⟩ : Answered ν)] = [] := rfl
    rw [samples_append, htune, List.append_nil, deltas_append]
    exact hs hcounts.of_append

theorem roomToSeek_aside {work : Work} : RoomToSeek (Aside : Request ν → Prop) work where
  quiet _ := aside_of_isQuiet
  programmed _ _ _ := aside_note _
  stall := by
    refine ⟨?_, nofun⟩
    rintro addr haddr ⟨⟩
    exact absurd haddr (by decide)
  slots addr haddr := by
    have hnone : Reg.slots.all (· ∉ Reg.checks) := by decide
    refine ⟨?_, nofun⟩
    rintro addr' haddr' ⟨⟩
    exact of_decide_eq_true (List.all_eq_true.mp hnone addr haddr) haddr'
  interrupts _ _ := ⟨nofun, nofun⟩
  looks := ⟨nofun, nofun⟩
  books _ _ := ⟨nofun, nofun⟩
  searching _ := ⟨nofun, nofun⟩
  halt := ⟨nofun, nofun⟩
  acquire := ⟨nofun, nofun⟩
  release := ⟨nofun, nofun⟩
  writes _ _ _ := ⟨nofun, nofun⟩
  header := ⟨nofun, nofun⟩
  target _ := ⟨nofun, nofun⟩
  submits _ _ := ⟨nofun, nofun⟩

variable [Quantity ν] (b : Board) (work : Work)

theorem ensures_countRound (r : Round) (nonces : List UInt64) (hs : Even r.checks s) :
    (b.countRound work r nonces).Ensures (guarded MayAsk) (fun x ↦ Even x.1) s := by
  have quiet : ∀ r : Request ν, r.isQuiet → Aside r := fun _ ↦ aside_of_isQuiet
  have reports : (forEach (b.report work) nonces : Routine ν _).Only Aside :=
    only_forEach fun nonce _ ↦ only_report quiet b work nonce fun _ _ ↦ ⟨nofun, nofun⟩
  refine (ensures_countChecks hs).seq fun checks t ht ↦ ?_
  refine (ensures_due reports ht).seq fun _ t ht ↦ ?_
  refine (ensures_due (only_request (quiet .now rfl)) ht).seq fun now t ht ↦ ?_
  refine Ensures.bind ((ensures_tune ht).seq fun _ t ht ↦ ?_)
  refine (ensures_even (only_request (quiet .errorRate rfl)) ht).seq fun rate t ht ↦ ?_
  refine (ensures_even (only_request (quiet .memory rfl)) ht).seq fun m t ht ↦ ?_
  exact (ensures_even (only_request (r := .revise _) ⟨nofun, nofun⟩) ht).mono fun _ _ h ↦ h

/-- A search tells the tuning what a new counter makes of its samples. -/
theorem ensures_search :
    (b.search work).Ensures (guarded (MayAsk (ν := ν))) (fun _ t ↦ ∃ c, Even c t) [] :=
  ensures_search_by_count ensures_even roomToSeek_aside
    (fun r nonces _ ↦ ensures_countRound b work r nonces) (fun _ _ _ ↦ trivial) fun _ ↦ ⟨rfl, rfl⟩

end Tally

end HashBoard
