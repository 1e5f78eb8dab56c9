import HashBoard.Proofs.Scene.Upkeep

/-!
# What is remembered along a run

Only one kind of request changes what is remembered of a board, and a party that asks for it is told
the truth. Bystanders change little of it: a halt may come at any time, but it raises both flags at
once, and nobody but the owner touches the last epoch, keeps the averages, or tells onlookers about
searches and epochs.
-/

namespace HashBoard

variable {ν : Type}

/-- What is remembered after a request. -/
def remembered (m : Memory ν) : Request ν → Memory ν
  | .revise f => f m
  | _ => m

/-- A reply that is right about what is remembered. -/
def Recalls (m : Memory ν) : (r : Request ν) → Reply r → Prop
  | .memory, m' => m' = m
  | _, _ => True

namespace Shared

theorem memory_after (sh : Shared ν) (p : Party) (r : Request ν) :
    (sh.after p r).memory = remembered sh.memory r := by
  cases r with
  | publish work =>
    rw [after]
    split <;> rfl
  | _ => rfl

theorem recalls_of_permits {sh : Shared ν} {r : Request ν} {x : Reply r} (h : sh.Permits r x) :
    Recalls sh.memory r x := by
  cases r with
  | memory => exact h
  | _ => exact trivial

end Shared

/-! ## What bystanders make of it -/

/-- What bystanders may make of what is remembered. -/
structure Memory.Follows (m m' : Memory ν) : Prop where
  lastEpoch : m'.lastEpoch = m.lastEpoch
  averager : m'.averager = m.averager
  status : m.status.AtPar m'.status
  flags : m'.busy = m.busy ∧ m'.halted = m.halted ∨ m'.busy ∧ m'.halted

theorem Memory.Follows.refl (m : Memory ν) : m.Follows m := ⟨rfl, rfl, .refl _, .inl ⟨rfl, rfl⟩⟩

theorem Memory.Follows.trans {m m' m'' : Memory ν} (h : m.Follows m') (h' : m'.Follows m'') :
    m.Follows m'' := by
  refine ⟨h'.lastEpoch.trans h.lastEpoch, h'.averager.trans h.averager,
    h.status.trans h'.status, ?_⟩
  rcases h'.flags with ⟨hbusy, hhalted⟩ | hboth
  · rw [hbusy, hhalted]
    exact h.flags
  · exact .inr hboth

theorem Memory.Follows.halted {m m' : Memory ν} (h : m.Follows m') (hm : m.halted) :
    m'.halted := by
  rcases h.flags with ⟨-, hhalted⟩ | hboth
  · rw [hhalted]
    exact hm
  · exact hboth.2

theorem follows_of_bookkeeping {f : Memory ν → Memory ν} (h : Bookkeeping f) (m : Memory ν) :
    m.Follows (f m) :=
  ⟨(h m).lastEpoch, (h m).averager, (h m).status, .inl ⟨(h m).busy, (h m).halted⟩⟩

theorem remembered_of_isQuiet {r : Request ν} (h : r.isQuiet) (m : Memory ν) :
    remembered m r = m := by
  cases r with
  | revise f => cases h
  | _ => rfl

theorem Modest.follows {r : Request ν} (h : Modest r) (m : Memory ν) :
    m.Follows (remembered m r) := by
  cases h with
  | quiet h =>
    rw [remembered_of_isQuiet h]
    exact .refl m
  | books h => exact follows_of_bookkeeping h m
  | halt => exact ⟨rfl, rfl, .refl _, .inr ⟨rfl, rfl⟩⟩
  | newWork => exact ⟨rfl, rfl, .refl _, .inl ⟨rfl, rfl⟩⟩
  | _ => exact .refl m

namespace Scene

open Routine

variable [Quantity ν] {R : Repertoire ν}

/-- What somebody else does leaves what is remembered as bystanders may. -/
theorem Step.follows {s t : Scene R} {e : Occurrence R} (hs : Step s e t) (orderly : s.Orderly)
    (he : e.IsOthers) : s.shared.memory.Follows t.shared.memory := by
  cases e with
  | begins | ends => exact he.elim
  | arrives =>
    rw [hs.shared_eq]
    exact .refl _
  | talks p said =>
    obtain ⟨r, x⟩ := said
    obtain ⟨hmodest, -⟩ := orderly.bystander_asks hs he
    rw [hs.shared_eq, Shared.upon, Shared.memory_after]
    exact hmodest.follows _

/-- Whatever is said in a run is said by the owner, or modest. -/
theorem Runs.said_cases {s₀ s : Scene R} {before since : List (Occurrence R)} {said : Answered ν}
    (run : Runs s₀ (before ++ since) s) (orderly : s₀.Orderly) (h : said ∈ talkOf since) :
    said ∈ ownTalk since ∨ Modest said.request := by
  obtain ⟨e, he, hsaid⟩ := List.mem_filterMap.mp h
  cases e with
  | begins | ends | arrives => cases hsaid
  | talks party said' =>
    cases hsaid
    by_cases hparty : party = .owner
    · subst hparty
      exact .inl (mem_ownTalk.mpr he)
    · obtain ⟨pre, t, u, ht, hs⟩ := run.step_of_mem (List.mem_append_right before he)
      exact .inr ((ht.orderly orderly).bystander_asks hs hparty).1

/-- What is not modest is asked by the owner, within a job. -/
theorem Runs.begun_of_asked {s₀ s : Scene R} {es : List (Occurrence R)} {party : Party}
    {r : Request ν} {x : Reply r} (run : Runs s₀ (es ++ [.talks party ⟨r, x⟩]) s)
    (orderly : s₀.Orderly) (nobody : s₀.owner = none) (hr : ¬Modest r) :
    party = .owner ∧ ∃ job before since, es = before ++ .begins job :: since ∧
      (∀ e ∈ since, e.IsWithin) ∧
      ∃ p q, Path (R.routine job) (ownTalk since) p ∧ Steps p r x q := by
  obtain ⟨t, upTo, last⟩ := run.of_snoc
  have howner : party = .owner := by
    by_contra hparty
    exact hr ((upTo.orderly orderly).bystander_asks last hparty).1
  subst howner
  refine ⟨rfl, ?_⟩
  cases last with
  | owner howner hp _ =>
    obtain ⟨before, since, rfl, hwithin, hpath⟩ := upTo.begun_of_owner nobody howner
    exact ⟨_, before, since, rfl, hwithin, _, _, hpath, hp⟩

/-- Where only what is not modest counts, what is said in a stretch is what the owner says. -/
theorem Runs.filterMap_talkOf {β : Type} {f : Answered ν → Option β} {s₀ s : Scene R}
    {before since : List (Occurrence R)} (run : Runs s₀ (before ++ since) s) (orderly : s₀.Orderly)
    (modest : ∀ said : Answered ν, Modest said.request → f said = none) :
    (talkOf since).filterMap f = (ownTalk since).filterMap f := by
  induction since using List.reverseRecOn generalizing s with
  | nil => rfl
  | append_singleton since e ih =>
    rw [← List.append_assoc] at run
    obtain ⟨t, upTo, last⟩ := run.of_snoc
    rw [talkOf_append, ownTalk_append, List.filterMap_append, List.filterMap_append, ih upTo]
    congr 1
    cases e with
    | begins | ends | arrives => rfl
    | talks party said =>
      by_cases hparty : party = .owner
      · subst hparty
        rfl
      · have hmodest := ((upTo.orderly orderly).bystander_asks (r := said.request) last hparty).1
        have hown : ownTalk [(.talks party said : Occurrence R)] = [] :=
          ownTalk_snoc_others [] hparty
        have htalk : talkOf [(.talks party said : Occurrence R)] = [said] := rfl
        rw [hown, htalk, List.filterMap_cons_none (modest said hmodest)]

/-- Where only what is not modest counts, what is said in a run is what the owner says. -/
theorem Runs.filterMap_allTalk {β : Type} {f : Answered ν → Option β} {s₀ s : Scene R}
    {es : List (Occurrence R)} (run : Runs s₀ es s) (orderly : s₀.Orderly)
    (modest : ∀ said : Answered ν, Modest said.request → f said = none) :
    (talkOf es).filterMap f = (ownTalk es).filterMap f := by
  rw [← List.nil_append es] at run
  exact run.filterMap_talkOf orderly modest

omit [Quantity ν] in
/-- A part of what is remembered that nothing said in a stretch changes. -/
theorem memory_afterAll {β : Type} (part : Memory ν → β) (sh : Shared ν)
    (es : List (Occurrence R))
    (kept : ∀ said ∈ talkOf es, ∀ m, part (remembered m said.request) = part m) :
    part (sh.afterAll es).memory = part sh.memory := by
  induction es using List.reverseRecOn with
  | nil => rfl
  | append_singleton es e ih =>
    have hbefore := ih fun said h ↦
      kept said (by rw [talkOf_append]; exact List.mem_append_left _ h)
    rw [Shared.afterAll_snoc]
    cases e with
    | begins | ends | arrives => exact hbefore
    | talks party said =>
      rw [Shared.upon, Shared.memory_after, kept said (by simp), hbefore]

omit [Quantity ν] in
/-- An owner within a job leaves alone what is remembered, if its requests do. -/
theorem spared_of_within {since : List (Occurrence R)} (within : ∀ e ∈ since, e.IsWithin)
    (own : ∀ said ∈ ownTalk since, ∀ m, remembered m said.request = m) :
    ∀ e ∈ since, e.IsOthers ∨ ∀ sh : Shared ν, (sh.upon e).memory = sh.memory := by
  intro e he
  have hwithin := within e he
  cases e with
  | begins | ends => exact hwithin.elim
  | arrives => exact .inl trivial
  | talks party said =>
    by_cases hparty : party = .owner
    · subst hparty
      refine .inr fun sh ↦ ?_
      rw [Shared.upon, Shared.memory_after]
      exact own said (mem_ownTalk.mpr he) _
    · exact .inl hparty

/-- A stretch of a run in which the owner leaves alone what is remembered. -/
theorem Runs.follows {s₀ s : Scene R} {before since : List (Occurrence R)}
    (run : Runs s₀ (before ++ since) s) (orderly : s₀.Orderly)
    (spared : ∀ e ∈ since, e.IsOthers ∨ ∀ sh : Shared ν, (sh.upon e).memory = sh.memory) :
    (s₀.shared.afterAll before).memory.Follows s.shared.memory := by
  induction since using List.reverseRecOn generalizing s with
  | nil =>
    rw [List.append_nil] at run
    rw [run.shared_eq]
    exact .refl _
  | append_singleton since e ih =>
    rw [← List.append_assoc] at run
    obtain ⟨t, ht, hs⟩ := run.of_snoc
    have before := ih ht fun e' h ↦ spared e' (List.mem_append_left _ h)
    rcases spared e (List.mem_append_right _ (.head _)) with he | he
    · exact before.trans (hs.follows (ht.orderly orderly) he)
    · rw [hs.shared_eq, he]
      exact before

end Scene

end HashBoard
