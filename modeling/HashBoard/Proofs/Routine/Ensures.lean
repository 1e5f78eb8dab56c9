import HashBoard.Proofs.Routine.Path

/-!
# What a routine ensures

A small program logic. While a routine runs, some state is kept account of; a `Watch` says how it
may change with every request and reply, how it may change meanwhile because of others, what has to
hold of it all the time, and what may be asked when. `Ensures W p Q s` says that the routine `p`,
started when the account stands at `s`, keeps to the watch whatever it is answered, and ends only
where `Q` holds.

Interference is part of the rules for requests: a request that is answered may find the account
changed by others first. This is why `Ensures.of_drifts` holds, and nothing else about others has to
be said in a proof about a routine.

A loop is dealt with by an invariant of its state and of the account. Everything else is recursion
on the tree.
-/

namespace HashBoard

/-- What is kept account of while a routine runs, and what is expected of it. -/
structure Watch (ν S : Type) where
  /-- What holds all the time. -/
  safe : S → Prop
  /-- What may be asked. -/
  allows : S → Request ν → Prop := fun _ _ ↦ True
  /-- How the account changes with a request and its reply. -/
  acts : S → (r : Request ν) → Reply r → S → Prop
  /-- How others change the account meanwhile. -/
  drifts : S → S → Prop
  /-- Others may do nothing. -/
  refl : ∀ s, drifts s s
  /-- Others may go on. -/
  trans : ∀ {s t u : S}, drifts s t → drifts t u → drifts s u
  /-- Others leave it safe. -/
  safe_of_drifts : ∀ {s t : S}, drifts s t → safe s → safe t
  /-- What may be asked does not depend on others. -/
  allows_of_drifts : ∀ {s t : S} {r : Request ν}, drifts s t → allows s r → allows t r := by
    exact fun _ _ ↦ trivial

/-- How the account changes with a request and its reply, with what others did before. -/
def Watch.moves {ν S : Type} (W : Watch ν S) (s : S) (r : Request ν) (x : Reply r) (t : S) : Prop :=
  ∃ u, W.drifts s u ∧ W.acts u r x t

theorem Watch.moves_of_drifts {ν S : Type} {W : Watch ν S} {s t u : S} {r : Request ν}
    {x : Reply r} (hd : W.drifts s t) : W.moves t r x u → W.moves s r x u
  | ⟨v, hv, ha⟩ => ⟨v, W.trans hd hv, ha⟩

theorem Watch.moves_of_acts {ν S : Type} {W : Watch ν S} {s t : S} {r : Request ν}
    {x : Reply r} (ha : W.acts s r x t) : W.moves s r x t := ⟨s, W.refl s, ha⟩

/-- The account before and after what was asked and answered, when others do nothing. -/
inductive Watch.Along {ν S : Type} (W : Watch ν S) : S → List (Answered ν) → S → Prop
  | nil (s : S) : Along W s [] s
  | cons {s t u : S} {r : Request ν} {x : Reply r} {talk : List (Answered ν)} :
    W.acts s r x t → Along W t talk u → Along W s (⟨r, x⟩ :: talk) u

namespace Routine

variable {ν S α β σ : Type} {W : Watch ν S}

/-- A routine keeps to a watch and ends only where a condition holds. -/
def Ensures (W : Watch ν S) : {α : Type} → Routine ν α → (α → S → Prop) → S → Prop
  | _, .done a, Q, s => Q a s
  | _, .ask r next, Q, s =>
    W.safe s ∧ W.allows s r ∧ ∀ x t, W.moves s r x t → (next x).Ensures W Q t
  | _, .loop state step next, Q, s =>
    ∃ J : _ → S → Prop, J state s ∧ ∀ state s, J state s → W.safe s ∧
      (step state).Ensures W (fun
        | .inl state, t => J state t
        | .inr b, t => (next b).Ensures W Q t) s

/-! ## Rules -/

theorem Ensures.mono {p : Routine ν α} {Q Q' : α → S → Prop} {s : S} (h : p.Ensures W Q s)
    (hQ : ∀ a t, Q a t → Q' a t) : p.Ensures W Q' s := by
  induction p generalizing s with
  | done a => exact hQ a s h
  | ask r next ih => exact ⟨h.1, h.2.1, fun x t hm ↦ ih x (h.2.2 x t hm) hQ⟩
  | loop state step next ihs ihn =>
    obtain ⟨J, hJ, hstep⟩ := h
    refine ⟨J, hJ, fun state s hs ↦ ⟨(hstep state s hs).1, ihs state (hstep state s hs).2 ?_⟩⟩
    rintro (state' | b) t ht
    · exact ht
    · exact ihn b ht hQ

theorem Ensures.bind {p : Routine ν α} {f : α → Routine ν β} {Q : β → S → Prop} {s : S}
    (h : p.Ensures W (fun a t ↦ (f a).Ensures W Q t) s) : (p.bind f).Ensures W Q s := by
  induction p generalizing s with
  | done a => exact h
  | ask r next ih => exact ⟨h.1, h.2.1, fun x t hm ↦ ih x (h.2.2 x t hm)⟩
  | loop state step next ihs ihn =>
    obtain ⟨J, hJ, hstep⟩ := h
    refine ⟨J, hJ, fun state s hs ↦ ⟨(hstep state s hs).1, (hstep state s hs).2.mono ?_⟩⟩
    rintro (state' | b) t ht
    · exact ht
    · exact ihn b ht

/-- One routine after another, with a condition in between. -/
theorem Ensures.seq {p : Routine ν α} {f : α → Routine ν β} {R : α → S → Prop} {Q : β → S → Prop}
    {s : S} (h : p.Ensures W R s) (hf : ∀ a t, R a t → (f a).Ensures W Q t) :
    (p.bind f).Ensures W Q s := (h.mono hf).bind

/-- Two conditions that a routine ends with, one beside the other. -/
theorem Ensures.and {p : Routine ν α} {Q Q' : α → S → Prop} {s : S} (h : p.Ensures W Q s)
    (h' : p.Ensures W Q' s) : p.Ensures W (fun a t ↦ Q a t ∧ Q' a t) s := by
  induction p generalizing s with
  | done a => exact ⟨h, h'⟩
  | ask r next ih => exact ⟨h.1, h.2.1, fun x t hm ↦ ih x (h.2.2 x t hm) (h'.2.2 x t hm)⟩
  | loop state step next ihs ihn =>
    obtain ⟨J, hJ, hstep⟩ := h
    obtain ⟨J', hJ', hstep'⟩ := h'
    refine ⟨fun state s ↦ J state s ∧ J' state s, ⟨hJ, hJ'⟩, fun state s hs ↦
      ⟨(hstep state s hs.1).1, ?_⟩⟩
    refine (ihs state (hstep state s hs.1).2 (hstep' state s hs.2).2).mono ?_
    rintro (state' | b) t ⟨ht, ht'⟩
    · exact ⟨ht, ht'⟩
    · exact ihn b ht ht'

/-- What no request and nobody else changes is kept besides. -/
theorem Ensures.keep {p : Routine ν α} {Q : α → S → Prop} {R : S → Prop} {s : S}
    (h : p.Ensures W Q s) (hs : R s)
    (hR : ∀ s t (r : Request ν) x, R s → W.moves s r x t → R t) :
    p.Ensures W (fun a t ↦ Q a t ∧ R t) s := by
  induction p generalizing s with
  | done a => exact ⟨h, hs⟩
  | ask r next ih => exact ⟨h.1, h.2.1, fun x t hm ↦ ih x (h.2.2 x t hm) (hR s t r x hs hm)⟩
  | loop state step next ihs ihn =>
    obtain ⟨J, hJ, hstep⟩ := h
    refine ⟨fun state s ↦ J state s ∧ R s, ⟨hJ, hs⟩, fun state s hs ↦ ⟨(hstep state s hs.1).1, ?_⟩⟩
    refine (ihs state (hstep state s hs.1).2 hs.2).mono ?_
    rintro (state' | b) t ht
    · exact ht
    · exact ihn b ht.1 ht.2

/-- A loop that comes after nothing else, with an invariant of its state. -/
theorem ensures_repeating {state : σ} {step : σ → Routine ν (σ ⊕ β)} {Q : β → S → Prop} {s : S}
    (J : σ → S → Prop) (start : J state s)
    (round : ∀ state s, J state s → W.safe s ∧ (step state).Ensures W (fun
      | .inl state, t => J state t
      | .inr b, t => Q b t) s) : (repeating state step).Ensures W Q s := by
  refine ⟨J, start, fun state s hs ↦ ⟨(round state s hs).1, (round state s hs).2.mono ?_⟩⟩
  rintro (state' | b) t ht <;> exact ht

/-! ## The account of a routine that is under way -/

/-- A loop keeps to a watch if its first round does, with what follows. -/
theorem Ensures.unroll {state : σ} {step : σ → Routine ν (σ ⊕ β)} {next : β → Routine ν α}
    {Q : α → S → Prop} {s : S} (h : (Routine.loop state step next).Ensures W Q s) :
    ((step state).bind (again step next)).Ensures W Q s := by
  obtain ⟨J, hJ, hstep⟩ := h
  refine (hstep state s hJ).2.seq ?_
  rintro (state' | b) u hu
  · exact ⟨J, hu, hstep⟩
  · exact hu

/-- A routine that keeps to a watch stands at a safe account. -/
theorem Ensures.safe {p : Routine ν α} {Q : α → S → Prop} {s : S} (h : p.Ensures W Q s)
    (hQ : ∀ a, Q a s → W.safe s) : W.safe s := by
  cases p with
  | done a => exact hQ a h
  | ask r next => exact h.1
  | loop state step next =>
    obtain ⟨J, hJ, hstep⟩ := h
    exact (hstep state s hJ).1

theorem Ensures.of_steps {p q : Routine ν α} {Q : α → S → Prop} {s t : S} {r : Request ν}
    {x : Reply r} (hs : Steps p r x q) (h : p.Ensures W Q s) (hm : W.moves s r x t) :
    q.Ensures W Q t := by
  induction hs with
  | ask r next x => exact h.2.2 x t hm
  | loop _ ih => exact ih h.unroll hm

/-- A routine that keeps to a watch asks only what it may. -/
theorem Ensures.allows_of_steps {p q : Routine ν α} {Q : α → S → Prop} {s : S} {r : Request ν}
    {x : Reply r} (hs : Steps p r x q) (h : p.Ensures W Q s) : W.allows s r := by
  induction hs with
  | ask r next x => exact h.2.1
  | loop _ ih => exact ih h.unroll

theorem Ensures.of_ends {p : Routine ν α} {a : α} {Q : α → S → Prop} {s : S} (he : Ends p a)
    (h : p.Ensures W Q s) : Q a s := by
  induction he with
  | done a => exact h
  | loop _ ih => exact ih h.unroll

/-- Along a path the account goes from one end of what was said to the other. -/
theorem Ensures.path_along {p q : Routine ν α} {Q : α → S → Prop} {s t : S}
    {talk : List (Answered ν)} (hp : Path p talk q) (h : p.Ensures W Q s)
    (along : W.Along s talk t) : q.Ensures W Q t := by
  induction hp generalizing s with
  | nil =>
    cases along
    exact h
  | cons hs _ ih =>
    cases along with
    | cons ha along => exact ih (h.of_steps hs (Watch.moves_of_acts ha)) along

/-- What a routine ensures of the account holds where a run of it ends. -/
theorem Ensures.run_along {p : Routine ν α} {a : α} {Q : α → S → Prop} {s t : S}
    {talk : List (Answered ν)} (h : p.Ensures W Q s) (run : Run p talk a)
    (along : W.Along s talk t) : Q a t := by
  obtain ⟨q, hp, he⟩ := run
  exact (h.path_along hp along).of_ends he

/-- Others may change the account while a routine is under way. The invariants of its loops are
closed under what others do. -/
theorem Ensures.of_drifts {p : Routine ν α} {Q : α → S → Prop} {s t : S} (hd : W.drifts s t)
    (h : p.Ensures W Q s) (hQ : ∀ a s t, W.drifts s t → Q a s → Q a t) : p.Ensures W Q t := by
  induction p generalizing s t with
  | done a => exact hQ a s t hd h
  | ask r next ih =>
    exact ⟨W.safe_of_drifts hd h.1, W.allows_of_drifts hd h.2.1,
      fun x u hm ↦ h.2.2 x u (Watch.moves_of_drifts hd hm)⟩
  | loop state step next ihs ihn =>
    obtain ⟨J, hJ, hstep⟩ := h
    -- everywhere that others can get to from where the invariant holds
    let K : _ → S → Prop := fun state u ↦ ∃ s, J state s ∧ W.drifts s u
    refine ⟨K, ⟨s, hJ, hd⟩, ?_⟩
    rintro state u ⟨s, hs, hsu⟩
    have hK : (step state).Ensures W (fun
        | .inl state, t => K state t
        | .inr b, t => (next b).Ensures W Q t) s := by
      refine (hstep state s hs).2.mono ?_
      rintro (state' | b) t ht
      · exact ⟨t, ht, W.refl t⟩
      · exact ht
    refine ⟨W.safe_of_drifts hsu (hstep state s hs).1, ihs state hsu hK ?_⟩
    rintro (state' | b) v w hvw hv
    · obtain ⟨s', hs', hr⟩ := hv
      exact ⟨s', hs', W.trans hr hvw⟩
    · exact ihn b hvw hv hQ

end Routine

end HashBoard
