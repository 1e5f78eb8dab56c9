import HashBoard.Proofs.Routine.Only

/-!
# Transcripts

The account that keeps everything that was asked and answered, and asks for nothing. What a routine
ensures of its transcript holds of all its runs (`Ensures.of_run`), whatever it is answered, and so
of whatever others do meanwhile. A guard on what may be asked after which transcript makes
statements about runs that did not end (`Ensures.guard_of_path`).
-/

namespace HashBoard

/-- The account of everything that was asked and answered. -/
def transcript (ν : Type) : Watch ν (List (Answered ν)) where
  safe _ := True
  acts s r x t := t = s ++ [⟨r, x⟩]
  drifts s t := t = s
  refl _ := rfl
  trans h h' := h'.trans h
  safe_of_drifts _ h := h

/-- An access to a register. -/
def Request.isAccess {ν : Type} : Request ν → Bool
  | .call (.read _) | .call (.write ..) | .call (.writeBulk ..) => true
  | _ => false

/-- The accesses to registers in a transcript. -/
def accesses {ν : Type} (talk : List (Answered ν)) : List (Answered ν) :=
  talk.filter (·.request.isAccess)

theorem accesses_append {ν : Type} (talk talk' : List (Answered ν)) :
    accesses (talk ++ talk') = accesses talk ++ accesses talk' := List.filter_append ..

theorem accesses_mono {ν : Type} {s t : List (Answered ν)} (h : s <+: t) :
    accesses s <+: accesses t := h.filter _

/-- What a routine accesses from one transcript to the next. -/
def Accesses {ν : Type} (s t : List (Answered ν)) (rs : List (Request ν)) : Prop :=
  ∃ more, accesses t = accesses s ++ more ∧ more.map Answered.request = rs

theorem Accesses.trans {ν : Type} {s t u : List (Answered ν)} {rs rs' : List (Request ν)}
    (h : Accesses s t rs) (h' : Accesses t u rs') : Accesses s u (rs ++ rs') := by
  obtain ⟨more, hmore, rfl⟩ := h
  obtain ⟨more', hmore', rfl⟩ := h'
  refine ⟨more ++ more', ?_, List.map_append⟩
  rw [hmore', hmore, List.append_assoc]

/-- The transcript, with a condition on what may be asked when. -/
def guarded {ν : Type} (A : List (Answered ν) → Request ν → Prop) :
    Watch ν (List (Answered ν)) where
  safe _ := True
  allows := A
  acts s r x t := t = s ++ [⟨r, x⟩]
  drifts s t := t = s
  refl _ := rfl
  trans h h' := h'.trans h
  safe_of_drifts _ h := h
  allows_of_drifts h hr := h ▸ hr

namespace Routine

variable {ν α β : Type} {s t : List (Answered ν)}

theorem moves_transcript {r : Request ν} {x : Reply r} (h : (transcript ν).moves s r x t) :
    t = s ++ [⟨r, x⟩] := by
  obtain ⟨u, rfl, rfl⟩ := h
  rfl

theorem ensures_request (r : Request ν) (s : List (Answered ν)) :
    (request r).Ensures (transcript ν) (fun x t ↦ t = s ++ [⟨r, x⟩]) s :=
  ⟨trivial, trivial, fun _ _ hm ↦ moves_transcript hm⟩

/-- Along a path the transcript grows by what was asked and answered. -/
theorem Ensures.along {W : Watch ν (List (Answered ν))} {p q : Routine ν α}
    {talk : List (Answered ν)} {Q : α → List (Answered ν) → Prop}
    (records : ∀ s r x, W.acts s r x (s ++ [⟨r, x⟩])) (hp : Path p talk q) (h : p.Ensures W Q s) :
    q.Ensures W Q (s ++ talk) := by
  induction hp generalizing s with
  | nil =>
    rw [List.append_nil]
    exact h
  | cons hs _ ih =>
    rw [List.append_cons]
    exact ih (h.of_steps hs (Watch.moves_of_acts (records s _ _)))

theorem Ensures.of_path {p q : Routine ν α} {talk : List (Answered ν)}
    {Q : α → List (Answered ν) → Prop} (hp : Path p talk q)
    (h : p.Ensures (transcript ν) Q s) : q.Ensures (transcript ν) Q (s ++ talk) :=
  h.along (fun _ _ _ ↦ rfl) hp

/-- What a routine ensures of its transcript holds of every run. -/
theorem Ensures.of_run {p : Routine ν α} {talk : List (Answered ν)} {a : α}
    {Q : α → List (Answered ν) → Prop} (h : p.Ensures (transcript ν) Q s) (hr : Run p talk a) :
    Q a (s ++ talk) := by
  obtain ⟨q, hp, he⟩ := hr
  exact (h.of_path hp).of_ends he

/-- What a routine asks keeps a condition on the transcript. -/
theorem Only.keeps {p : Routine ν α} {P : Request ν → Prop} {R : List (Answered ν) → Prop}
    (h : p.Only P) (hs : R s) (snoc : ∀ t r x, R t → P r → R (t ++ [⟨r, x⟩])) :
    p.Ensures (transcript ν) (fun _ ↦ R) s := by
  refine h.ensures hs (fun _ _ ↦ trivial) (fun _ _ _ _ ↦ trivial) fun t r x u ht hr hm ↦ ?_
  rw [moves_transcript hm]
  exact snoc t r x ht hr

/-- A transcript only grows. -/
theorem ensures_grows (p : Routine ν α) (s : List (Answered ν)) :
    p.Ensures (transcript ν) (fun _ t ↦ s <+: t) s :=
  (only_any p).keeps List.prefix_rfl fun _ _ _ ht _ ↦ ht.trans (List.prefix_append _ _)

/-- What does not matter for what is ensured in the end. -/
theorem Ensures.after {p : Routine ν α} {f : α → Routine ν β} {Q : β → List (Answered ν) → Prop}
    (h : ∀ a t, s <+: t → (f a).Ensures (transcript ν) Q t) :
    (p.bind f).Ensures (transcript ν) Q s := (ensures_grows p s).seq h

/-! ## What is accessed -/

theorem accesses_eq_of_nil (h : Accesses s t []) : accesses t = accesses s := by
  obtain ⟨more, hmore, hnil⟩ := h
  rw [hmore, List.map_eq_nil_iff.mp hnil, List.append_nil]

/-- What is no access is left out. -/
theorem accesses_request {r : Request ν} (h : r.isAccess = false) (s : List (Answered ν)) :
    (request r).Ensures (transcript ν) (fun _ t ↦ Accesses s t []) s := by
  refine (ensures_request r s).mono ?_
  rintro x t rfl
  have hnone : accesses [(⟨r, x⟩ : Answered ν)] = [] := List.filter_cons_of_neg (by simp [h])
  exact ⟨[], by rw [accesses_append, hnone], rfl⟩

theorem accesses_note (event : Event ν) (s : List (Answered ν)) :
    (note event).Ensures (transcript ν) (fun _ t ↦ Accesses s t []) s := accesses_request rfl s

/-- A read, with what it was answered. -/
theorem accesses_read (addr : Word) (s : List (Answered ν)) :
    (Routine.read addr).Ensures (transcript ν)
      (fun x t ↦ accesses t = accesses s ++ [⟨.call (.read addr), x⟩]) s := by
  refine (ensures_request (.call (.read addr)) s).seq ?_
  rintro (fault | value) t rfl
  · exact accesses_append s _
  · refine (accesses_note _ _).seq ?_
    rintro - u hu
    exact (accesses_eq_of_nil hu).trans (accesses_append s _)

theorem accesses_tryWrite (value addr : Word) (what : String) (s : List (Answered ν)) :
    (tryWrite value addr what).Ensures (transcript ν)
      (fun _ t ↦ Accesses s t [.call (.write value addr)]) s := by
  have writes : (Routine.write value addr).Ensures (transcript ν)
      (fun _ t ↦ Accesses s t [.call (.write value addr)]) s := by
    refine (accesses_note _ s).seq fun _ t ht ↦ ?_
    refine (ensures_request (.call (.write value addr)) t).mono ?_
    rintro x u rfl
    exact ht.trans ⟨[⟨.call (.write value addr), x⟩], accesses_append t _, rfl⟩
  refine writes.seq ?_
  rintro (fault | -) t ht
  · exact (accesses_note _ t).mono fun _ u hu ↦ ht.trans hu
  · exact ht

theorem accesses_forEach {ι : Type} {routine : ι → Routine ν Unit} {asks : ι → Request ν}
    (each : ∀ i s, (routine i).Ensures (transcript ν) (fun _ t ↦ Accesses s t [asks i]) s)
    (list : List ι) (s : List (Answered ν)) :
    (forEach routine list).Ensures (transcript ν) (fun _ t ↦ Accesses s t (list.map asks)) s := by
  induction list generalizing s with
  | nil => exact ⟨[], (List.append_nil _).symm, rfl⟩
  | cons i rest ih =>
    refine (each i s).seq fun _ t ht ↦ (ih t).mono fun _ u hu ↦ ?_
    rw [List.map_cons]
    exact ht.trans hu

/-! ## Guarded requests -/

variable {A : List (Answered ν) → Request ν → Prop}

/-- A routine that asks only for what may always be asked keeps to a guard. -/
theorem Ensures.guarded {p : Routine ν α} {Q : α → List (Answered ν) → Prop}
    (h : p.Ensures (transcript ν) Q s) (hp : p.Only fun r ↦ ∀ t, A t r) :
    p.Ensures (guarded A) Q s := by
  induction p generalizing s with
  | done a => exact h
  | ask r next ih => exact ⟨trivial, hp.1 s, fun x t hm ↦ ih x (h.2.2 x t hm) (hp.2 x)⟩
  | loop state step next ihs ihn =>
    obtain ⟨J, hJ, hstep⟩ := h
    refine ⟨J, hJ, fun state s hs ↦ ⟨trivial, ?_⟩⟩
    refine (ihs state (hstep state s hs).2 (hp.1 state)).mono ?_
    rintro (state' | b) t ht
    · exact ht
    · exact ihn b ht (hp.2 b)

/-- What is asked after a path of a routine that keeps to a guard. -/
theorem Ensures.guard_of_path {p q q' : Routine ν α} {talk : List (Answered ν)}
    {Q : α → List (Answered ν) → Prop} {r : Request ν} {x : Reply r}
    (h : p.Ensures (HashBoard.guarded A) Q s) (hp : Path p talk q) (hs : Steps q r x q') :
    A (s ++ talk) r :=
  (h.along (fun _ _ _ ↦ rfl) hp).allows_of_steps hs

end Routine

end HashBoard
