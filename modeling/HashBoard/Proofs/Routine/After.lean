import HashBoard.Proofs.Routine.Only

/-!
# What is left of a routine after a reply

A request may be made in many places of a routine. `p.After r F` says that in all of them, what is
left of `p` once `r` is answered is as `F` wants it for the reply. It is settled by recursion on the
tree, so that the path that led there does not matter (`After.of_path`).

The simplest thing that can be left is a routine that takes its leave: it asks for some things one
after another, whatever it is answered, and ends.
-/

namespace HashBoard.Routine

variable {ν α β : Type} {r : Request ν}

/-- Wherever a request is made, what is left after the reply is as wanted. -/
def After (r : Request ν) : {α : Type} → Routine ν α → (Reply r → Routine ν α → Prop) → Prop
  | _, .done _, _ => True
  | _, .ask r' next, F => (∀ e : r' = r, ∀ x, F x (next (e ▸ x))) ∧ ∀ x, (next x).After r F
  | _, .loop _ step next, F =>
    (∀ state, (step state).After r fun x q ↦ F x (q.bind (again step next))) ∧
      ∀ b, (next b).After r F

theorem After.mono {p : Routine ν α} {F G : Reply r → Routine ν α → Prop} (h : p.After r F)
    (hFG : ∀ x q, F x q → G x q) : p.After r G := by
  induction p with
  | done => trivial
  | ask r' next ih => exact ⟨fun e x ↦ hFG x _ (h.1 e x), fun x ↦ ih x (h.2 x) hFG⟩
  | loop state step next ihs ihn =>
    exact ⟨fun state ↦ ihs state (h.1 state) fun x q ↦ hFG x _, fun b ↦ ihn b (h.2 b) hFG⟩

/-- A routine that first makes some other request. -/
theorem After.ask {r' : Request ν} {next : Reply r' → Routine ν α}
    {F : Reply r → Routine ν α → Prop} (hr : r' ≠ r) (h : ∀ x, (next x).After r F) :
    (Routine.ask r' next).After r F := ⟨fun e ↦ absurd e hr, h⟩

theorem After.bind {p : Routine ν α} {f : α → Routine ν β} {F : Reply r → Routine ν β → Prop}
    (h : p.After r fun x q ↦ F x (q.bind f)) (hf : ∀ a, (f a).After r F) :
    (p.bind f).After r F := by
  induction p with
  | done a => exact hf a
  | ask r' next ih => exact ⟨h.1, fun x ↦ ih x (h.2 x) hf⟩
  | loop state step next ihs ihn =>
    refine ⟨fun state ↦ (h.1 state).mono fun x q hq ↦ ?_, fun b ↦ ihn b (h.2 b) hf⟩
    rw [bind_again]
    exact hq

/-- A routine that never makes the request. -/
theorem Only.after {p : Routine ν α} {F : Reply r → Routine ν α → Prop} (h : p.Only (· ≠ r)) :
    p.After r F := by
  induction p with
  | done => trivial
  | ask r' next ih => exact ⟨fun e ↦ absurd e h.1, fun x ↦ ih x (h.2 x)⟩
  | loop state step next ihs ihn => exact ⟨fun state ↦ ihs state (h.1 state), fun b ↦ ihn b (h.2 b)⟩

theorem After.of_steps {p q : Routine ν α} {r' : Request ν} {x : Reply r'}
    {F : Reply r → Routine ν α → Prop} (hs : Steps p r' x q) (h : p.After r F) :
    (∀ e : r = r', F (e ▸ x) q) ∧ q.After r F := by
  induction hs with
  | ask r' next x =>
    refine ⟨?_, h.2 x⟩
    rintro rfl
    exact h.1 rfl x
  | loop _ ih =>
    refine ih ((h.1 _).bind ?_)
    rintro (state' | b)
    · exact h
    · exact h.2 b

/-- What is left of a routine where a request was answered last. -/
theorem After.of_path {p q : Routine ν α} {talk : List (Answered ν)} {x : Reply r}
    {F : Reply r → Routine ν α → Prop} (h : p.After r F) (hp : Path p (talk ++ [⟨r, x⟩]) q) :
    F x q := by
  induction talk generalizing p with
  | nil =>
    cases hp with
    | cons hs hq =>
      cases hq
      exact (h.of_steps hs).1 rfl
  | cons said talk ih =>
    cases hp with
    | cons hs hq => exact ih (h.of_steps hs).2 hq

/-! ## Taking leave -/

/-- Asks for some things one after another, and ends with an answer. -/
def leaving (rs : List (Request ν)) (a : α) : Routine ν α :=
  rs.foldr (fun r p ↦ .ask r fun _ ↦ p) (.done a)

variable {rs : List (Request ν)} {a : α} {talk : List (Answered ν)}

theorem path_leaving {q : Routine ν α} (h : Path (leaving rs a) talk q) :
    ∃ rest, rs = talk.map Answered.request ++ rest ∧ q = leaving rest a := by
  induction rs generalizing talk with
  | nil =>
    cases h with
    | nil => exact ⟨[], rfl, rfl⟩
    | cons hs _ => exact absurd hs not_steps_done
  | cons r rs ih =>
    cases h with
    | nil => exact ⟨r :: rs, rfl, rfl⟩
    | cons hs hq =>
      obtain ⟨rfl, rfl⟩ := steps_ask hs
      obtain ⟨rest, rfl, rfl⟩ := ih hq
      exact ⟨rest, rfl, rfl⟩

theorem run_leaving (h : talk.map Answered.request = rs) : Run (leaving rs a) talk a := by
  induction talk generalizing rs with
  | nil =>
    cases h
    exact run_done_iff.mpr ⟨rfl, rfl⟩
  | cons said talk ih =>
    cases h
    exact run_ask_iff.mpr ⟨said.reply, talk, rfl, ih rfl⟩

theorem eq_of_ends_leaving {a' : α} (h : Ends (leaving rs a) a') : a' = a := by
  cases rs with
  | nil => exact (ends_done_iff.mp h).symm
  | cons => exact absurd h not_ends_ask

end HashBoard.Routine
