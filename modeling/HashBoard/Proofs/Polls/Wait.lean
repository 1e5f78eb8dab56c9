import Mathlib.Data.ENat.Lattice
import HashBoard.Board.EpochChange
import HashBoard.Proofs.Routine.Sifting

/-!
# Waiting for the board

A wait looks at a status register again and again. Of what is asked meanwhile the account here keeps
the looks for a shutdown, the pauses with the lock given back, and all reads. What a wait may come
to is a relation by recursion on the looks that are left (`Waited`). It says nothing about the
status from before: a wait goes on only as long as no outcome showed the end, so that a stale status
never shows it either.

Everything about waits follows by induction on that relation: their pace (`Waited.paced`), how many
looks there are (`Waited.length_eq`), and how they end.
-/

namespace HashBoard

/-- Whether a request is a look for a shutdown, a part of a pause, or a read. -/
def Request.isWaiting {ν : Type} : Request ν → Bool
  | .isCancelled | .acquire | .release | .sleep _ | .call (.read _) => true
  | _ => false

namespace Polls

open Board Routine

variable {ν : Type}

/-- The looks for a shutdown, the pauses and the reads. -/
def waits (talk : List (Answered ν)) : List (Answered ν) := sift Request.isWaiting talk

/-- What a look at a register comes to. -/
abbrev Outcome := Except LinkFault Word

/-- An outcome that shows the end of what is waited for. -/
def Shows (a : Awaited ν) (x : Outcome) : Prop := ∃ v, x = .ok v ∧ v &&& a.ready ≠ 0

/-- An outcome that shows nothing. -/
def Fails (x : Outcome) : Prop := ∃ fault, x = .error fault

instance (a : Awaited ν) (x : Outcome) : Decidable (Shows a x) :=
  match x with
  | .ok v => decidable_of_iff (v &&& a.ready ≠ 0)
    ⟨fun h ↦ ⟨v, rfl, h⟩, fun ⟨_, h, hready⟩ ↦ Except.ok.inj h ▸ hready⟩
  | .error _ => isFalse fun ⟨_, h, _⟩ ↦ nomatch h

instance (x : Outcome) : Decidable (Fails x) :=
  match x with
  | .ok _ => isFalse nofun
  | .error fault => isTrue ⟨fault, rfl⟩

/-- A look at the status: no shutdown is seen, the lock is given back for a pause, and the register
is read. -/
def poll (a : Awaited ν) (pause : Micros) (x : Outcome) : List (Answered ν) :=
  [⟨.isCancelled, false⟩, ⟨.release, ()⟩, ⟨.sleep pause, ()⟩, ⟨.acquire, ()⟩,
    ⟨.call (.read a.addr), x⟩]

/-- The read of the progress after look number `k`, if that is a fifth one and there is some range
to measure the progress against. -/
def progress (range k : ℕ) (made : Outcome) : List (Answered ν) :=
  if k % 5 = 0 ∧ 0 < range then [⟨.call (.read Reg.dagParentNodes), made⟩] else []

/-- Look number `k`, with the read of the progress unless the look itself is fatal. -/
def lap (b : Board) (a : Awaited ν) (pause : Micros) (range k : ℕ) (x made : Outcome) :
    List (Answered ν) :=
  poll a pause x ++ if b.settings.dieOnError ∧ Fails x then [] else progress range k made

/-- The end of a wait that a look makes fatal. -/
def unreadable (a : Awaited ν) (fault : LinkFault) : BoardError :=
  .escalated (a.look ++ ": " ++ fault.message)

/-- The end of a wait for what does not come in time, if that is fatal. -/
def tooLate (a : Awaited ν) : BoardError :=
  .escalated (a.activity ++ ": " ++ (BoardError.overdue a.name).message)

/-- What becomes of a wait after `k` looks with at most `n` more, when none has shown the end: the
outcomes of the looks to come, what is asked and answered, and what the wait ends with. -/
inductive Waited (b : Board) (a : Awaited ν) (range : ℕ) :
    (k n : ℕ) → List Outcome → List (Answered ν) → Except BoardError Unit → Prop
  /-- A shutdown is seen. -/
  | cancelled {k n : ℕ} : Waited b a range k n [] [⟨.isCancelled, true⟩] (.error .cancelled)
  /-- No look is left, and that is absorbed. -/
  | abandoned {k : ℕ} (absorbs : b.settings.dieOnError = false) :
    Waited b a range k 0 [] [⟨.isCancelled, false⟩] (.ok ())
  /-- No look is left, and that is fatal. -/
  | overdue {k : ℕ} (fatal : b.settings.dieOnError = true) :
    Waited b a range k 0 [] [⟨.isCancelled, false⟩] (.error (tooLate a))
  /-- A look fails, and that is fatal. -/
  | failed {k n : ℕ} {fault : LinkFault} (fatal : b.settings.dieOnError = true) :
    Waited b a range k (n + 1) [.error fault] (poll a a.pause (.error fault))
      (.error (unreadable a fault))
  /-- A look shows the end. -/
  | shown {k n : ℕ} {x made : Outcome} (shows : Shows a x) :
    Waited b a range k (n + 1) [x] (poll a a.pause x ++ progress range (k + 1) made) (.ok ())
  /-- A look does not show the end. -/
  | missed {k n : ℕ} {x made : Outcome} {polls : List Outcome} {talk : List (Answered ν)}
    {result : Except BoardError Unit} (misses : ¬Shows a x)
    (reads : b.settings.dieOnError = true → ¬Fails x) :
    Waited b a range (k + 1) n polls talk result →
    Waited b a range k (n + 1) (x :: polls)
      (poll a a.pause x ++ progress range (k + 1) made ++ talk) result

/-! ## A wait, look by look -/

variable {b : Board} {a : Awaited ν} {range : ℕ}

theorem await_of_ready {watch : ℕ → Routine ν Unit} {status : Word} (h : status &&& a.ready ≠ 0)
    (n : ℕ) : b.await a watch n status = .done (.ok status) := by
  cases n <;> rw [await, if_pos h] <;> rfl

/-- What follows a fault, which may be fatal. -/
theorem ensures_escalate {α : Type} {what cause : String}
    {f : Except BoardError Unit → Routine ν α} {Q : α → List (Answered ν) → Prop}
    {s : List (Answered ν)}
    (fatal : b.settings.dieOnError = true →
      (f (.error (.escalated (what ++ ": " ++ cause)))).Ensures (sifting Request.isWaiting) Q s)
    (absorbs : b.settings.dieOnError = false →
      (f (.ok ())).Ensures (sifting Request.isWaiting) Q s) :
    ((b.escalate what cause).bind f).Ensures (sifting Request.isWaiting) Q s := by
  rw [escalate]
  by_cases hdie : b.settings.dieOnError
  · rw [if_pos hdie]
    exact ensures_beside (r := .note (.escalated what cause)) (f := fun _ ↦ f (.error _)) rfl
      fun _ ↦ fatal hdie
  · rw [if_neg hdie]
    exact absorbs (Bool.eq_false_iff.mpr hdie)

/-- A wait, where after every look the progress is read if it is time to. -/
theorem ensures_await {watch : ℕ → Routine ν Unit} {limit : ℕ}
    (hw : ∀ k n s, k + 1 + n = limit → (watch n).Ensures (sifting Request.isWaiting)
      (fun _ t ↦ ∃ made, t = s ++ progress range (k + 1) made) s)
    {k n : ℕ} (hk : k + n = limit) {status : Word} (hs : status &&& a.ready = 0)
    (s : List (Answered ν)) :
    (b.await a watch n status).Ensures (sifting Request.isWaiting) (fun result t ↦
      ∃ polls talk, t = s ++ talk ∧ Waited b a range k n polls talk (result.map fun _ ↦ ())) s := by
  induction n generalizing k status s with
  | zero =>
    rw [await, if_neg (not_not_intro hs)]
    refine ensures_look rfl fun cancelled ↦ ?_
    cases cancelled with
    | true => exact ⟨[], _, rfl, .cancelled⟩
    | false =>
      refine ensures_escalate (fun hdie ↦ ?_) fun hdie ↦ ?_
      · exact ⟨[], _, rfl, .overdue hdie⟩
      · exact ensures_beside rfl fun _ ↦ ⟨[], _, rfl, .abandoned hdie⟩
  | succ n ih =>
    rw [await, if_neg (not_not_intro hs)]
    refine ensures_look rfl fun cancelled ↦ ?_
    cases cancelled with
    | true => exact ⟨[], _, rfl, .cancelled⟩
    | false =>
      refine ensures_look rfl fun _ ↦ ensures_look rfl fun _ ↦ ensures_look rfl fun _ ↦ ?_
      refine ensures_look_read rfl (fun _ ↦ rfl) fun x ↦ ?_
      have hpoll (x : Outcome) : s ++ [(⟨.isCancelled, false⟩ : Answered ν)] ++ [⟨.release, ()⟩] ++
          [⟨.sleep a.pause, ()⟩] ++ [⟨.acquire, ()⟩] ++ [⟨.call (.read a.addr), x⟩] =
          s ++ poll a a.pause x := by
        simp only [poll, List.append_assoc, List.cons_append, List.nil_append]
      -- what is left after a look that does not show the end
      have rest {x : Outcome} (misses : ¬Shows a x)
          (reads : b.settings.dieOnError = true → ¬Fails x) {status : Word}
          (hs : status &&& a.ready = 0) (made : Outcome) :
          (b.await a watch n status).Ensures (sifting Request.isWaiting) (fun result t ↦
            ∃ polls talk, t = s ++ talk ∧
              Waited b a range k (n + 1) polls talk (result.map fun _ ↦ ()))
            (s ++ poll a a.pause x ++ progress range (k + 1) made) := by
        refine (ih (k := k + 1) (by omega) hs _).mono ?_
        rintro result _ ⟨polls, talk, rfl, waited⟩
        refine ⟨x :: polls, poll a a.pause x ++ progress range (k + 1) made ++ talk, ?_,
          .missed misses reads waited⟩
        simp only [List.append_assoc]
      cases x with
      | ok v =>
        refine (hw k n _ (by omega)).seq ?_
        rintro - _ ⟨made, rfl⟩
        rw [hpoll]
        by_cases hv : v &&& a.ready = 0
        · exact rest (fun ⟨_, h, hne⟩ ↦ hne (Except.ok.inj h ▸ hv)) (fun _ ↦ nofun) hv made
        · rw [await_of_ready hv]
          exact ⟨[.ok v], _, List.append_assoc .., .shown ⟨v, rfl, hv⟩⟩
      | error fault =>
        refine ensures_escalate (fun hdie ↦ ?_) fun hdie ↦ ?_
        · exact ⟨[.error fault], _, hpoll _, .failed hdie⟩
        · refine ensures_beside rfl fun _ ↦ ?_
          refine (hw k n _ (by omega)).seq ?_
          rintro - _ ⟨made, rfl⟩
          rw [hpoll]
          exact rest (fun ⟨_, h, _⟩ ↦ nomatch h) (fun h ↦ absurd h (by simp [hdie])) hs made

/-! ## What follows for a wait -/

section Consequences

variable {k n : ℕ} {polls : List Outcome} {talk : List (Answered ν)}
  {result : Except BoardError Unit}

theorem Waited.length_le (h : Waited b a range k n polls talk result) : polls.length ≤ n := by
  induction h with
  | cancelled | abandoned | overdue => exact Nat.zero_le _
  | failed | shown => exact Nat.succ_le_succ (Nat.zero_le _)
  | missed _ _ _ ih => exact Nat.succ_le_succ ih

/-- A wait is one lap after another, and perhaps another look for a shutdown. -/
theorem Waited.paced (h : Waited b a range k n polls talk result) :
    ∃ (made : ℕ → Outcome) (last : List (Answered ν)),
      talk = (polls.mapIdx fun i x ↦
        lap b a a.pause range (k + (i + 1)) x (made i)).flatten ++ last ∧
      (last = [] ∨ ∃ seen, last = [⟨.isCancelled, seen⟩]) := by
  induction h with
  | cancelled => exact ⟨fun _ ↦ .ok 0, _, rfl, .inr ⟨true, rfl⟩⟩
  | abandoned | overdue => exact ⟨fun _ ↦ .ok 0, _, rfl, .inr ⟨false, rfl⟩⟩
  | failed fatal =>
    refine ⟨fun _ ↦ .ok 0, [], ?_, .inl rfl⟩
    rw [List.mapIdx_cons, List.mapIdx_nil, lap, if_pos ⟨fatal, _, rfl⟩]
    simp
  | @shown _ _ x made shows =>
    obtain ⟨v, rfl, -⟩ := shows
    refine ⟨fun _ ↦ made, [], ?_, .inl rfl⟩
    rw [List.mapIdx_cons, List.mapIdx_nil, lap, if_neg fun hx ↦ nomatch hx.2]
    simp
  | @missed k _ x made polls _ _ _ reads _ ih =>
    obtain ⟨made', last, rfl, hlast⟩ := ih
    refine ⟨fun i ↦ i.casesOn made made', last, ?_, hlast⟩
    have hlaps : (polls.mapIdx fun i x ↦ lap b a a.pause range (k + 1 + (i + 1)) x (made' i)) =
        polls.mapIdx fun i x ↦ lap b a a.pause range (k + (i + 1 + 1)) x (made' i) := by
      simp only [Nat.add_assoc, Nat.add_comm 1]
    have hlap : lap b a a.pause range (k + 1) x made =
        poll a a.pause x ++ progress range (k + 1) made := by
      rw [lap, if_neg fun hx ↦ reads hx.1 hx.2]
    rw [List.mapIdx_cons, List.flatten_cons, hlaps, ← hlap, List.append_assoc]
    rfl

theorem not_mem_lap (k : ℕ) (x made : Outcome) :
    (⟨.isCancelled, true⟩ : Answered ν) ∉ poll a a.pause x ++ progress range k made := by
  rw [progress]
  split <;> simp [poll]

/-- A wait that sees a shutdown ends there. -/
theorem Waited.cancels (h : Waited b a range k n polls talk result)
    (seen : ⟨.isCancelled, true⟩ ∈ talk) :
    result = .error .cancelled ∧ talk.getLast? = some ⟨.isCancelled, true⟩ := by
  induction h with
  | cancelled => exact ⟨rfl, rfl⟩
  | abandoned | overdue => simp at seen
  | failed => simp [poll] at seen
  | shown => exact absurd seen (not_mem_lap _ _ _)
  | missed _ _ _ ih =>
    obtain ⟨hresult, hlast⟩ := ih ((List.mem_append.mp seen).resolve_left (not_mem_lap _ _ _))
    refine ⟨hresult, ?_⟩
    rw [List.getLast?_append, hlast, Option.some_or]

/-- Where faults are absorbed, a wait that sees no shutdown ends well. -/
theorem Waited.absorbs (h : Waited b a range k n polls talk result)
    (absorbs : b.settings.dieOnError = false) (unseen : ⟨.isCancelled, true⟩ ∉ talk) :
    result = .ok () := by
  induction h with
  | cancelled => exact absurd (List.mem_singleton_self _) unseen
  | abandoned | shown => rfl
  | overdue fatal | failed fatal => rw [absorbs] at fatal; cases fatal
  | missed _ _ _ ih => exact ih fun seen ↦ unseen (List.mem_append_right _ seen)

/-- How a wait ends where faults are fatal, by the outcomes of its looks. -/
inductive Fate (a : Awaited ν) : List Outcome → Except BoardError Unit → Prop
  /-- The last look failed. -/
  | failed (polls : List Outcome) (fault : LinkFault) :
    Fate a (polls ++ [.error fault]) (.error (unreadable a fault))
  /-- The last look showed the end. -/
  | shown (polls : List Outcome) {x : Outcome} (shows : Shows a x) : Fate a (polls ++ [x]) (.ok ())
  /-- No look failed or showed the end. -/
  | overdue {polls : List Outcome} (misses : ∀ x ∈ polls, ¬(Shows a x ∨ Fails x)) :
    Fate a polls (.error (tooLate a))

theorem Fate.cons {x : Outcome} (h : Fate a polls result) (misses : ¬(Shows a x ∨ Fails x)) :
    Fate a (x :: polls) result := by
  cases h with
  | failed polls fault => exact .failed (x :: polls) fault
  | shown polls shows => exact .shown (x :: polls) shows
  | overdue rest => exact .overdue (List.forall_mem_cons.mpr ⟨misses, rest⟩)

/-- Where faults are fatal, a wait that sees no shutdown ends at the first of them. -/
theorem Waited.fate (h : Waited b a range k n polls talk result)
    (fatal : b.settings.dieOnError = true) (unseen : ⟨.isCancelled, true⟩ ∉ talk) :
    Fate a polls result := by
  induction h with
  | cancelled => exact absurd (List.mem_singleton_self _) unseen
  | abandoned absorbs => rw [fatal] at absorbs; cases absorbs
  | overdue => exact .overdue (List.forall_mem_nil _)
  | failed => exact .failed [] _
  | shown shows => exact .shown [] shows
  | missed misses reads _ ih =>
    have rest := ih fun seen ↦ unseen (List.mem_append_right _ seen)
    exact rest.cons fun h ↦ h.elim misses (reads fatal)

/-! ### The number of looks -/

/-- The number of the first outcome with some property, counted from one; infinite if there is no
such outcome. -/
noncomputable def first (P : Outcome → Prop) (outcomes : ℕ → Outcome) : ℕ∞ :=
  ⨅ (i) (_ : P (outcomes i)), (i + 1 : ℕ∞)

variable {P : Outcome → Prop} {outcomes : ℕ → Outcome}

theorem first_of_pos (h : P (outcomes 0)) : first P outcomes = 1 := by
  refine le_antisymm ?_ (le_iInf₂ fun i _ ↦ le_add_self)
  refine (iInf₂_le 0 h).trans_eq ?_
  rw [Nat.cast_zero, zero_add]

theorem first_of_neg (h : ¬P (outcomes 0)) :
    first P outcomes = first P (fun i ↦ outcomes (i + 1)) + 1 := by
  rw [first, first, ← inf_iInf_nat_succ, iInf_neg h, top_inf_eq]
  simp only [ENat.iInf_add, Nat.cast_add, Nat.cast_one]

/-- The polls got the outcomes of some sequence, one after the other. -/
def Follows (polls : List Outcome) (outcomes : ℕ → Outcome) : Prop :=
  ∀ i x, polls[i]? = some x → outcomes i = x

/-- There are looks until the first outcome that shows the end, or is fatal, but no more than may
be. -/
theorem Waited.length_eq (h : Waited b a range k n polls talk result)
    (unseen : ⟨.isCancelled, true⟩ ∉ talk) (follows : Follows polls outcomes) :
    (polls.length : ℕ∞) =
      min (first (fun x ↦ Shows a x ∨ b.settings.dieOnError = true ∧ Fails x) outcomes) n := by
  induction h generalizing outcomes with
  | cancelled => exact absurd (List.mem_singleton_self _) unseen
  | abandoned | overdue => exact (min_eq_right zero_le).symm
  | failed fatal =>
    have hfails := follows 0 _ rfl
    rw [first_of_pos (hfails ▸ .inr ⟨fatal, _, rfl⟩), min_eq_left]
    · rfl
    · exact_mod_cast Nat.le_add_left 1 _
  | shown shows =>
    have hshows := follows 0 _ rfl
    rw [first_of_pos (hshows ▸ .inl shows), min_eq_left]
    · rfl
    · exact_mod_cast Nat.le_add_left 1 _
  | @missed _ _ x _ _ _ _ misses reads _ ih =>
    have hx := follows 0 x rfl
    have hrest := ih (fun seen ↦ unseen (List.mem_append_right _ seen))
      fun i x hx ↦ follows (i + 1) x hx
    have hnot : ¬(Shows a x ∨ b.settings.dieOnError = true ∧ Fails x) :=
      fun h ↦ h.elim misses fun h ↦ reads h.1 h.2
    rw [first_of_neg (hx ▸ hnot), List.length_cons, Nat.cast_add_one, hrest, Nat.cast_add_one,
      min_add_add_right]

end Consequences

end Polls

end HashBoard
