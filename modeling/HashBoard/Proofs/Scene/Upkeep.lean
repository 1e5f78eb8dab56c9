import Mathlib.Data.List.Induction
import HashBoard.Proofs.Scene.Bystanders

/-!
# Keeping account of a run

A proof about the owner's jobs in a run has three parts: what is kept account of (a view of the list
of occurrences), what each job ensures of it, and that others only let it drift. `Runs.upkeep` puts
them together: where the owner has no job the account is idle, and where it has one, what is left of
the job still ensures what the whole job ensures.

`Sometime` is how statements speak about a run: something happened at a point where what was shared
stood in some way.
-/

namespace HashBoard

open Routine

variable {ν : Type} {R : Repertoire ν}

/-! ## What is shared along a run -/

namespace Shared

@[simp] theorem afterAll_nil (sh : Shared ν) : sh.afterAll ([] : List (Occurrence R)) = sh := rfl

@[simp] theorem afterAll_snoc (sh : Shared ν) (es : List (Occurrence R)) (e : Occurrence R) :
    sh.afterAll (es ++ [e]) = (sh.afterAll es).upon e := by
  rw [afterAll, List.foldl_append]
  rfl

/-- Whether what an owner is told, one request after another, is what it may be told. -/
def Tells (sh : Shared ν) : List (Answered ν) → Prop
  | [] => True
  | ⟨r, x⟩ :: talk => sh.Permits r x ∧ (sh.after .owner r).Tells talk

theorem tells_of_permits {talk : List (Answered ν)}
    (h : ∀ said ∈ talk, ∀ sh : Shared ν, sh.Permits said.request said.reply) (sh : Shared ν) :
    sh.Tells talk := by
  induction talk generalizing sh with
  | nil => trivial
  | cons said talk ih =>
    exact ⟨h said (.head _) sh, ih (fun said' h' ↦ h said' (.tail _ h')) _⟩

end Shared

/-- Somewhere in a list of occurrences there is one for which a condition holds, together with what
is shared right before it. -/
def Sometime (C : Shared ν → Occurrence R → Prop) (sh : Shared ν) : List (Occurrence R) → Prop
  | [] => False
  | e :: es => C sh e ∨ Sometime C (sh.upon e) es

theorem sometime_snoc {C : Shared ν → Occurrence R → Prop} {sh : Shared ν}
    {es : List (Occurrence R)} {e : Occurrence R} :
    Sometime C sh (es ++ [e]) ↔ Sometime C sh es ∨ C (sh.afterAll es) e := by
  induction es generalizing sh with
  | nil => simp [Sometime]
  | cons e' es ih =>
    have hafter : (sh.upon e').afterAll es = sh.afterAll (e' :: es) := rfl
    simp only [List.cons_append, Sometime, ih, hafter, or_assoc]

/-- Whether something happened somewhere is decided by looking through the list. -/
def Sometime.decide (C : Shared ν → Occurrence R → Prop) [∀ sh e, Decidable (C sh e)] :
    (sh : Shared ν) → (es : List (Occurrence R)) → Decidable (Sometime C sh es)
  | _, [] => .isFalse id
  | sh, e :: es =>
    have := Sometime.decide C (sh.upon e) es
    inferInstanceAs (Decidable (C sh e ∨ Sometime C (sh.upon e) es))

instance (C : Shared ν → Occurrence R → Prop) [∀ sh e, Decidable (C sh e)] (sh : Shared ν)
    (es : List (Occurrence R)) : Decidable (Sometime C sh es) := Sometime.decide C sh es

/-! ## What is said along a run -/

/-- What was asked and answered in an occurrence. -/
def Occurrence.said? : Occurrence R → Option (Answered ν)
  | .talks _ said => some said
  | _ => none

/-- What was asked and answered in some occurrences, by whomever. -/
def talkOf (es : List (Occurrence R)) : List (Answered ν) := es.filterMap Occurrence.said?

theorem talkOf_append (es es' : List (Occurrence R)) :
    talkOf (es ++ es') = talkOf es ++ talkOf es' := List.filterMap_append

/-- Where an entry of a projection comes from. -/
theorem exists_of_filterMap_eq {α β : Type} {f : α → Option β} {l : List α} {b : β}
    {earlier later : List β} (h : l.filterMap f = earlier ++ b :: later) :
    ∃ before a since, l = before ++ a :: since ∧ f a = some b ∧ before.filterMap f = earlier ∧
      since.filterMap f = later := by
  obtain ⟨first, rest, rfl, hfirst, hrest⟩ := List.filterMap_eq_append_iff.mp h
  obtain ⟨silent, a, since, rfl, hsilent, ha, hsince⟩ := List.filterMap_eq_cons_iff.mp hrest
  refine ⟨first ++ silent, a, since, (List.append_assoc ..).symm, ha, ?_, hsince⟩
  rw [List.filterMap_append, hfirst, List.filterMap_eq_nil_iff.mpr hsilent, List.append_nil]

/-- Where something was asked. -/
theorem talkOf_eq_append_cons {es : List (Occurrence R)} {earlier later : List (Answered ν)}
    {said : Answered ν} (h : talkOf es = earlier ++ said :: later) :
    ∃ before party since, es = before ++ .talks party said :: since ∧ talkOf before = earlier ∧
      talkOf since = later := by
  obtain ⟨before, e, since, rfl, hsaid, hbefore, hsince⟩ := exists_of_filterMap_eq h
  cases e with
  | begins | ends | arrives => cases hsaid
  | talks party said' =>
    cases hsaid
    exact ⟨before, party, since, rfl, hbefore, hsince⟩

theorem talkOf_snoc_silent (es : List (Occurrence R)) {e : Occurrence R} (he : e.said? = none) :
    talkOf (es ++ [e]) = talkOf es := by
  rw [talkOf_append, talkOf, talkOf, List.filterMap_cons_none he, List.filterMap_nil,
    List.append_nil]

/-- What is shared does not change where nothing is said. -/
theorem Shared.upon_silent (sh : Shared ν) {e : Occurrence R} (he : e.said? = none) :
    sh.upon e = sh := by
  cases e with
  | talks => cases he
  | begins | ends | arrives => rfl

@[simp] theorem talkOf_snoc_talks (es : List (Occurrence R)) (party : Party) (said : Answered ν) :
    talkOf (es ++ [.talks party said]) = talkOf es ++ [said] := talkOf_append es _

@[simp] theorem talkOf_snoc_begins (es : List (Occurrence R)) (job : R.Job) :
    talkOf (es ++ [.begins job]) = talkOf es := talkOf_snoc_silent es rfl

@[simp] theorem talkOf_snoc_ends (es : List (Occurrence R)) (job : R.Job) (a : R.Answer job) :
    talkOf (es ++ [.ends job a]) = talkOf es := talkOf_snoc_silent es rfl

@[simp] theorem talkOf_snoc_arrives (es : List (Occurrence R)) (n : Nat) (purpose : Purpose) :
    talkOf (es ++ [.arrives n purpose]) = talkOf es := talkOf_snoc_silent es rfl

/-- What the owner asked and was answered. -/
def ownTalk (es : List (Occurrence R)) : List (Answered ν) :=
  es.filterMap fun
    | .talks .owner said => some said
    | _ => none

theorem ownTalk_append (es es' : List (Occurrence R)) :
    ownTalk (es ++ es') = ownTalk es ++ ownTalk es' := List.filterMap_append

@[simp] theorem ownTalk_snoc_own (es : List (Occurrence R)) (said : Answered ν) :
    ownTalk (es ++ [.talks .owner said]) = ownTalk es ++ [said] := ownTalk_append es _

/-- An occurrence that is none of the owner's. -/
def Occurrence.IsOthers : Occurrence R → Prop
  | .arrives .. => True
  | .talks party _ => party ≠ .owner
  | .begins _ | .ends .. => False

theorem mem_ownTalk {es : List (Occurrence R)} {said : Answered ν} :
    said ∈ ownTalk es ↔ .talks .owner said ∈ es := by
  rw [ownTalk, List.mem_filterMap]
  constructor
  · rintro ⟨e, he, hsaid⟩
    split at hsaid
    · cases hsaid
      exact he
    · cases hsaid
  · exact fun h ↦ ⟨_, h, rfl⟩

theorem ownTalk_subset (es : List (Occurrence R)) : ownTalk es ⊆ talkOf es :=
  fun _ h ↦ List.mem_filterMap.mpr ⟨_, mem_ownTalk.mp h, rfl⟩

/-- Where the owner asked for something. -/
theorem ownTalk_eq_append_cons {es : List (Occurrence R)} {earlier later : List (Answered ν)}
    {said : Answered ν} (h : ownTalk es = earlier ++ said :: later) :
    ∃ before since, es = before ++ .talks .owner said :: since ∧ ownTalk before = earlier ∧
      ownTalk since = later := by
  obtain ⟨before, e, since, rfl, hsaid, hbefore, hsince⟩ := exists_of_filterMap_eq h
  split at hsaid
  · cases hsaid
    exact ⟨before, since, rfl, hbefore, hsince⟩
  · cases hsaid

theorem ownTalk_snoc_others (es : List (Occurrence R)) {e : Occurrence R} (he : e.IsOthers) :
    ownTalk (es ++ [e]) = ownTalk es := by
  rw [ownTalk_append]
  cases e with
  | begins | ends => exact he.elim
  | arrives => exact List.append_nil _
  | talks party said =>
    cases party with
    | owner => exact absurd rfl he
    | kicker | guest => exact List.append_nil _

/-- An occurrence that neither begins nor ends a job. -/
def Occurrence.IsWithin : Occurrence R → Prop
  | .begins _ | .ends .. => False
  | .arrives .. | .talks .. => True

/-- What is changed only where a job begins or ends stays as it is within a job. -/
theorem foldl_of_within {β : Type} {f : β → Occurrence R → β}
    (stays : ∀ x e, e.IsWithin → f x e = x) {es : List (Occurrence R)}
    (within : ∀ e ∈ es, e.IsWithin) (x : β) : es.foldl f x = x := by
  induction es with
  | nil => rfl
  | cons e es ih =>
    rw [List.foldl_cons, stays x e (within e (.head _))]
    exact ih fun e' h ↦ within e' (.tail _ h)

namespace Scene

variable [Quantity ν]

theorem Step.shared_eq {s t : Scene R} {e : Occurrence R} (hs : Step s e t) :
    t.shared = s.shared.upon e := by cases hs <;> rfl

/-- What holds at first and is kept by every step holds along a run. -/
theorem Runs.invariant {I : List (Occurrence R) → Scene R → Prop} {s₀ s : Scene R}
    {es : List (Occurrence R)} (run : Runs s₀ es s) (start : I [] s₀)
    (step : ∀ pre t e u, Runs s₀ pre t → Step t e u → I pre t → I (pre ++ [e]) u) : I es s := by
  induction run with
  | nil => exact start
  | snoc run hs ih => exact step _ _ _ _ run hs ih

/-- The last step of a run. -/
theorem Runs.of_snoc {s₀ u : Scene R} {es : List (Occurrence R)} {e : Occurrence R}
    (run : Runs s₀ (es ++ [e]) u) : ∃ t, Runs s₀ es t ∧ Step t e u := by
  generalize h : es ++ [e] = es' at run
  cases run with
  | nil => simp at h
  | snoc run hs =>
    obtain ⟨rfl, he⟩ := List.append_inj' h rfl
    cases he
    exact ⟨_, run, hs⟩

/-- The beginning of a run is a run. -/
theorem Runs.of_prefix {s₀ s : Scene R} {pre es : List (Occurrence R)} (run : Runs s₀ es s)
    (h : pre <+: es) : ∃ t, Runs s₀ pre t := by
  induction run with
  | nil =>
    rw [List.prefix_nil.mp h]
    exact ⟨_, .nil _⟩
  | @snoc t u es e run hs ih =>
    rcases List.prefix_concat_iff.mp h with rfl | h
    · exact ⟨u, .snoc run hs⟩
    · exact ih h

/-- The step in the middle of a run. -/
theorem Runs.of_append_cons {s₀ s : Scene R} {pre post : List (Occurrence R)} {e : Occurrence R}
    (run : Runs s₀ (pre ++ e :: post) s) : ∃ t u, Runs s₀ pre t ∧ Step t e u := by
  rw [List.append_cons] at run
  obtain ⟨u, upTo⟩ := run.of_prefix (List.prefix_append _ post)
  obtain ⟨t, ht, hs⟩ := upTo.of_snoc
  exact ⟨t, u, ht, hs⟩

/-- Where something occurred. -/
theorem Runs.step_of_mem {s₀ s : Scene R} {es : List (Occurrence R)} {e : Occurrence R}
    (run : Runs s₀ es s) (he : e ∈ es) : ∃ pre t u, Runs s₀ pre t ∧ Step t e u := by
  obtain ⟨pre, later, rfl⟩ := List.append_of_mem he
  exact ⟨pre, run.of_append_cons⟩

/-- One run after another. -/
theorem Runs.append {s₀ s t : Scene R} {es es' : List (Occurrence R)} (run : Runs s₀ es s)
    (run' : Runs s es' t) : Runs s₀ (es ++ es') t := by
  induction run' with
  | nil =>
    rw [List.append_nil]
    exact run
  | snoc _ hs ih =>
    rw [← List.append_assoc]
    exact ih.snoc hs

theorem Runs.shared_eq {s₀ s : Scene R} {es : List (Occurrence R)} (run : Runs s₀ es s) :
    s.shared = s₀.shared.afterAll es := by
  induction run with
  | nil => rfl
  | snoc _ hs ih => rw [hs.shared_eq, ih, Shared.afterAll_snoc]

/-- Whatever was answered in a run was permitted where it was answered. -/
theorem Runs.permits {s₀ s : Scene R} {pre post : List (Occurrence R)} {party : Party}
    {r : Request ν} {x : Reply r} (run : Runs s₀ (pre ++ .talks party ⟨r, x⟩ :: post) s) :
    (s₀.shared.afterAll pre).Permits r x := by
  obtain ⟨t, u, ht, hs⟩ := run.of_append_cons
  rw [← ht.shared_eq]
  cases hs <;> assumption

/-- What the owner was told in a stretch of a run was permitted somewhere in it. -/
theorem Runs.permits_of_mem {s₀ s : Scene R} {before since : List (Occurrence R)} {r : Request ν}
    {x : Reply r} (run : Runs s₀ (before ++ since) s) (h : ⟨r, x⟩ ∈ ownTalk since) :
    ∃ pre, before <+: pre ∧ pre <+: before ++ since ∧ (s₀.shared.afterAll pre).Permits r x := by
  obtain ⟨earlier, later, rfl⟩ := List.append_of_mem (mem_ownTalk.mp h)
  rw [← List.append_assoc] at run ⊢
  exact ⟨before ++ earlier, List.prefix_append _ _, List.prefix_append _ _, run.permits⟩

/-- An owner that took the lock and did not give it back holds it. -/
theorem Runs.holds {s₀ s : Scene R} {es : List (Occurrence R)} {earlier stretch : List (Answered ν)}
    (run : Runs s₀ es s) (h : ownTalk es = earlier ++ ⟨.acquire, ()⟩ :: stretch)
    (kept : ∀ said ∈ stretch, said.request ≠ .release) : s.shared.holder = some .owner := by
  obtain ⟨before, since, rfl, -, rfl⟩ := ownTalk_eq_append_cons h
  clear h
  induction since using List.reverseRecOn generalizing s with
  | nil =>
    obtain ⟨t, -, hs⟩ := run.of_snoc
    rw [hs.shared_eq]
    rfl
  | append_singleton since e ih =>
    rw [← List.cons_append, ← List.append_assoc] at run
    obtain ⟨t, ht, hs⟩ := run.of_snoc
    rw [ownTalk_append, List.forall_mem_append] at kept
    have held := ih ht kept.1
    cases hs with
    | begins | ends | arrives => exact held
    | owner _ _ _ =>
      exact Shared.holder_after_own.mpr (heldAfter_of_ne_release held (kept.2 _ (.head _)))
    | kicker _ hx =>
      exact (Shared.holder_after_other (p := .owner) (q := .kicker) nofun hx).mpr held
    | guest _ hx =>
      exact (Shared.holder_after_other (p := .owner) (q := .guest _) nofun hx).mpr held

/-! ## The job under way -/

/-- What was asked since a job was begun is a path of its routine, to what is left of it. -/
theorem Runs.owner_of_begun {s₀ s : Scene R} {before since : List (Occurrence R)} {job : R.Job}
    (run : Runs s₀ (before ++ .begins job :: since) s) (within : ∀ e ∈ since, e.IsWithin) :
    ∃ p, s.owner = some ⟨job, p⟩ ∧ Path (R.routine job) (ownTalk since) p := by
  induction since using List.reverseRecOn generalizing s with
  | nil =>
    obtain ⟨t, -, hs⟩ := run.of_snoc
    cases hs
    exact ⟨R.routine job, rfl, .nil _⟩
  | append_singleton since e ih =>
    rw [← List.cons_append, ← List.append_assoc] at run
    obtain ⟨t, ht, hs⟩ := run.of_snoc
    have within' : ∀ e' ∈ since, e'.IsWithin := fun e' h ↦ within e' (List.mem_append_left _ h)
    obtain ⟨p, howner, hpath⟩ := ih ht within'
    have hwithin : e.IsWithin := within e (List.mem_append_right _ (.head _))
    have beside (he : e.IsOthers) (hsame : s.owner = t.owner) :
        ∃ p, s.owner = some ⟨job, p⟩ ∧ Path (R.routine job) (ownTalk (since ++ [e])) p := by
      refine ⟨p, hsame.trans howner, ?_⟩
      rw [ownTalk_snoc_others since he]
      exact hpath
    cases hs with
    | begins | ends => exact hwithin.elim
    | arrives => exact beside trivial rfl
    | kicker => exact beside nofun rfl
    | guest => exact beside nofun rfl
    | owner ho hp _ =>
      rw [howner] at ho
      cases ho
      refine ⟨_, rfl, ?_⟩
      rw [ownTalk_snoc_own]
      exact hpath.append (.cons hp (.nil _))

/-- An owner with a job began it, and what was asked since then is a path to what is left of it. -/
theorem Runs.begun_of_owner {s₀ s : Scene R} {es : List (Occurrence R)} {job : R.Job}
    {p : Routine ν (R.Answer job)} (run : Runs s₀ es s) (nobody : s₀.owner = none)
    (howner : s.owner = some ⟨job, p⟩) :
    ∃ before since, es = before ++ .begins job :: since ∧ (∀ e ∈ since, e.IsWithin) ∧
      Path (R.routine job) (ownTalk since) p := by
  suffices h : ∃ before since, es = before ++ .begins job :: since ∧ ∀ e ∈ since, e.IsWithin by
    obtain ⟨before, since, rfl, hwithin⟩ := h
    obtain ⟨p', howner', hpath⟩ := run.owner_of_begun hwithin
    rw [howner] at howner'
    cases howner'
    exact ⟨before, since, rfl, hwithin, hpath⟩
  induction run generalizing p with
  | nil =>
    rw [nobody] at howner
    cases howner
  | @snoc t u es e run hs ih =>
    have extend {p : Routine ν (R.Answer job)} (he : e.IsWithin) (ht : t.owner = some ⟨job, p⟩) :
        ∃ before since, es ++ [e] = before ++ .begins job :: since ∧ ∀ e ∈ since, e.IsWithin := by
      obtain ⟨before, since, rfl, hwithin⟩ := ih ht
      refine ⟨before, since ++ [e], by rw [List.append_assoc, List.cons_append], ?_⟩
      exact List.forall_mem_append.mpr ⟨hwithin, List.forall_mem_singleton.mpr he⟩
    cases hs with
    | begins job' hnone =>
      cases howner
      exact ⟨es, [], rfl, List.forall_mem_nil _⟩
    | ends => cases howner
    | arrives => exact extend trivial howner
    | kicker => exact extend trivial howner
    | guest => exact extend trivial howner
    | owner ho _ _ =>
      cases howner
      exact extend trivial ho

/-- What was asked after the owner was told something is a path from what was left of its job. -/
theorem Runs.path_of_told {s₀ s : Scene R} {before since : List (Occurrence R)} {said : Answered ν}
    (run : Runs s₀ (before ++ .talks .owner said :: since) s) (nobody : s₀.owner = none)
    (within : ∀ e ∈ since, e.IsWithin) :
    ∃ job p q, ∃ talk : List (Answered ν), s.owner = some ⟨job, p⟩ ∧
      Path (R.routine job) (talk ++ [said]) q ∧ Path q (ownTalk since) p := by
  obtain ⟨t, u, ht, hs⟩ := run.of_append_cons
  have hjob : ∃ job p, t.owner = some ⟨job, p⟩ := by
    cases hs with
    | owner howner _ _ => exact ⟨_, _, howner⟩
  obtain ⟨job, p₀, howner⟩ := hjob
  obtain ⟨earlier, between, rfl, hbetween, -⟩ := ht.begun_of_owner nobody howner
  rw [List.append_assoc, List.cons_append] at run
  have hwithin : ∀ e ∈ between ++ .talks .owner said :: since, e.IsWithin := by
    intro e he
    rcases List.mem_append.mp he with he | he
    · exact hbetween e he
    · rcases List.mem_cons.mp he with rfl | he
      · exact trivial
      · exact within e he
  obtain ⟨p, howner', hpath⟩ := run.owner_of_begun hwithin
  rw [List.append_cons, ownTalk_append, ownTalk_snoc_own] at hpath
  obtain ⟨q, hq, hp⟩ := hpath.of_append
  exact ⟨job, p, q, ownTalk between, howner', hq, hp⟩

/-- A job that ended was begun, and what was asked in between is a run of its routine. -/
theorem Runs.run_of_ends {s₀ s : Scene R} {es : List (Occurrence R)} {job : R.Job}
    {a : R.Answer job} (run : Runs s₀ (es ++ [.ends job a]) s) (nobody : s₀.owner = none) :
    ∃ before since, es = before ++ .begins job :: since ∧ (∀ e ∈ since, e.IsWithin) ∧
      Run (R.routine job) (ownTalk since) a := by
  obtain ⟨t, ht, hs⟩ := run.of_snoc
  cases hs with
  | ends howner he =>
    obtain ⟨before, since, rfl, hwithin, hpath⟩ := ht.begun_of_owner nobody howner
    exact ⟨before, since, rfl, hwithin, _, hpath, he⟩

/-- An owner that is told what it may be told can go its way while the others rest. -/
theorem Runs.of_path {s₀ s : Scene R} {es : List (Occurrence R)} {job : R.Job}
    {p q : Routine ν (R.Answer job)} {talk : List (Answered ν)} (run : Runs s₀ es s)
    (howner : s.owner = some ⟨job, p⟩) (hp : Path p talk q) (hx : s.shared.Tells talk) :
    ∃ t, Runs s₀ (es ++ talk.map (.talks .owner)) t ∧ t.owner = some ⟨job, q⟩ ∧
      t.guests = s.guests := by
  induction hp generalizing s es with
  | nil =>
    refine ⟨s, ?_, howner, rfl⟩
    rw [List.map_nil, List.append_nil]
    exact run
  | cons hs hp ih =>
    obtain ⟨t, ht, hto, htg⟩ := ih (run.snoc (.owner howner hs hx.1)) rfl hx.2
    refine ⟨t, ?_, hto, htg⟩
    rw [List.map_cons, List.append_cons]
    exact ht

/-! ## The owner's account -/

/-- How the owner's account stands: idle where there is no job, and otherwise such that what is left
of the job ensures what the whole job ensures. -/
def Standing {S : Type} (s : Scene R) (W : Watch ν S) (Idle : S → Prop)
    (Post : (job : R.Job) → R.Answer job → S → Prop) (account : S) : Prop :=
  (s.owner = none → Idle account) ∧
    ∀ job p, s.owner = some ⟨job, p⟩ → p.Ensures W (Post job) account

/-- **The account of the owner along a run.** The conditions are asked only of the occurrences of
the run itself, so that what is known of the run (an honest board, say) can be used in them. -/
theorem Runs.upkeep {S : Type} {W : Watch ν S} {view : List (Occurrence R) → S}
    {Idle : S → Prop} {Post : (job : R.Job) → R.Answer job → S → Prop} {s₀ s : Scene R}
    {es : List (Occurrence R)} (run : Runs s₀ es s) (nobody : s₀.owner = none)
    (start : Idle (view []))
    (begins : ∀ pre job, pre ++ [.begins job] <+: es → Idle (view pre) →
      (R.routine job).Ensures W (Post job) (view (pre ++ [.begins job])))
    (ends : ∀ pre job a, pre ++ [.ends job a] <+: es → Post job a (view pre) →
      Idle (view (pre ++ [.ends job a])))
    (own : ∀ pre t u r x, Runs s₀ pre t → Step t (.talks .owner ⟨r, x⟩) u →
      pre ++ [.talks .owner ⟨r, x⟩] <+: es → t.shared.Permits r x →
      W.acts (view pre) r x (view (pre ++ [.talks .owner ⟨r, x⟩])))
    (others : ∀ pre t u e, Runs s₀ pre t → Step t e u → pre ++ [e] <+: es → e.IsOthers →
      W.drifts (view pre) (view (pre ++ [e])))
    (idle : ∀ a a', W.drifts a a' → Idle a → Idle a')
    (post : ∀ job x a a', W.drifts a a' → Post job x a → Post job x a') :
    s.Standing W Idle Post (view es) := by
  induction run with
  | nil => exact ⟨fun _ ↦ start, fun job p h ↦ by simp [nobody] at h⟩
  | @snoc t u pre e run hs ih =>
    have hpre : pre <+: pre ++ [e] := List.prefix_append pre [e]
    have ih := ih (fun p j h ↦ begins p j (h.trans hpre)) (fun p j a h ↦ ends p j a (h.trans hpre))
      (fun p t u r x hr hu h ↦ own p t u r x hr hu (h.trans hpre))
      (fun p t u e hr hu h ↦ others p t u e hr hu (h.trans hpre))
    have last : pre ++ [e] <+: pre ++ [e] := List.prefix_rfl
    -- a step of somebody else leaves what the owner has to do, and drifts the account
    have drift (he : e.IsOthers) (howner : u.owner = t.owner) :
        u.Standing W Idle Post (view (pre ++ [e])) := by
      have hd := others pre t u e run hs last he
      refine ⟨fun h ↦ idle _ _ hd (ih.1 (howner ▸ h)), fun job p h ↦ ?_⟩
      exact (ih.2 job p (howner ▸ h)).of_drifts hd (post job)
    have hs' := hs
    cases hs with
    | begins job hnone =>
      refine ⟨nofun, fun job' p h ↦ ?_⟩
      cases h
      exact begins pre job last (ih.1 hnone)
    | ends howner he =>
      exact ⟨fun _ ↦ ends pre _ _ last ((ih.2 _ _ howner).of_ends he), nofun⟩
    | arrives => exact drift trivial rfl
    | kicker => exact drift nofun rfl
    | guest => exact drift nofun rfl
    | owner howner hp hx =>
      refine ⟨nofun, fun job' p h ↦ ?_⟩
      cases h
      exact (ih.2 _ _ howner).of_steps hp (Watch.moves_of_acts (own pre t _ _ _ run hs' last hx))

/-- The account of the owner along a run where nobody else changes it. -/
theorem Runs.upkeep_alone {S : Type} {W : Watch ν S} {Idle : S → Prop}
    {Post : (job : R.Job) → R.Answer job → S → Prop} {s₀ s : Scene R} {es : List (Occurrence R)}
    (run : Runs s₀ es s) (view : List (Occurrence R) → S) (alone : ∀ a a', W.drifts a a' → a' = a)
    (nobody : s₀.owner = none) (start : Idle (view []))
    (begins : ∀ pre job, pre ++ [.begins job] <+: es → Idle (view pre) →
      (R.routine job).Ensures W (Post job) (view (pre ++ [.begins job])))
    (ends : ∀ pre job a, pre ++ [.ends job a] <+: es → Post job a (view pre) →
      Idle (view (pre ++ [.ends job a])))
    (own : ∀ pre t u r x, Runs s₀ pre t → Step t (.talks .owner ⟨r, x⟩) u →
      pre ++ [.talks .owner ⟨r, x⟩] <+: es → t.shared.Permits r x →
      W.acts (view pre) r x (view (pre ++ [.talks .owner ⟨r, x⟩])))
    (others : ∀ pre t u e, Runs s₀ pre t → Step t e u → pre ++ [e] <+: es → e.IsOthers →
      view (pre ++ [e]) = view pre) :
    s.Standing W Idle Post (view es) := by
  refine run.upkeep nobody start begins ends own (fun pre t u e hr hs hpre he ↦ ?_)
    (fun a a' hd ha ↦ alone a a' hd ▸ ha) fun job x a a' hd ha ↦ alone a a' hd ▸ ha
  rw [others pre t u e hr hs hpre he]
  exact W.refl _

omit [Quantity ν] in
/-- The account of the owner is safe wherever it stands. -/
theorem Standing.safe {S : Type} {s : Scene R} {W : Watch ν S} {Idle : S → Prop}
    {Post : (job : R.Job) → R.Answer job → S → Prop} {a : S} (h : s.Standing W Idle Post a)
    (idle : Idle a → W.safe a) (post : ∀ job x, Post job x a → W.safe a) : W.safe a := by
  cases howner : s.owner with
  | none => exact idle (h.1 howner)
  | some job => exact (h.2 job.1 job.2 howner).safe fun x hx ↦ post job.1 x hx

end Scene

end HashBoard
