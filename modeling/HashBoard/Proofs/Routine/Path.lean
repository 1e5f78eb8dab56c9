import HashBoard.Routine.Basic

/-!
# What a routine does step by step

A routine is a tree; what it does is a path through that tree. A step asks for something and takes
the branch of the reply. Loops have no steps of their own: they are unrolled until a request or the
end comes up, so that the two relations below are the only ones that look at loop nodes.

Replies are arbitrary here. Whoever wants fewer of them says so about the list of what was asked and
answered, which every path carries along.
-/

namespace HashBoard

/-- A request together with the reply to it. -/
structure Answered (ν : Type) where
  /-- What was asked. -/
  request : Request ν
  /-- What was answered. -/
  reply : Reply request

namespace Routine

variable {ν α β σ : Type}

@[simp] theorem bind_eq (p : Routine ν α) (f : α → Routine ν β) : p >>= f = p.bind f := rfl

@[simp] theorem pure_eq (a : α) : (pure a : Routine ν α) = .done a := rfl

@[simp] theorem done_bind (a : α) (f : α → Routine ν β) : (Routine.done a).bind f = f a := rfl

@[simp] theorem ask_bind (r : Request ν) (next : Reply r → Routine ν α) (f : α → Routine ν β) :
    (Routine.ask r next).bind f = .ask r fun x ↦ (next x).bind f := rfl

/-- What follows a round of a loop: another round, or whatever comes after the loop. -/
def again (step : σ → Routine ν (σ ⊕ β)) (next : β → Routine ν α) : σ ⊕ β → Routine ν α
  | .inl state => .loop state step next
  | .inr answer => next answer

theorem again_bind (step : σ → Routine ν (σ ⊕ β)) (next : β → Routine ν α) {γ : Type}
    (f : α → Routine ν γ) (res : σ ⊕ β) :
    (again step next res).bind f = again step (fun b ↦ (next b).bind f) res := by
  cases res <;> rfl

/-! ## Steps and ends -/

/-- A request that is answered takes a routine to what is left of it. -/
inductive Steps : Routine ν α → (r : Request ν) → Reply r → Routine ν α → Prop
  | ask (r : Request ν) (next : Reply r → Routine ν α) (x : Reply r) :
    Steps (.ask r next) r x (next x)
  | loop {σ β : Type} {state : σ} {step : σ → Routine ν (σ ⊕ β)} {next : β → Routine ν α}
    {r : Request ν} {x : Reply r} {q : Routine ν α} :
    Steps ((step state).bind (again step next)) r x q → Steps (.loop state step next) r x q

/-- A routine has come to its end. -/
inductive Ends : Routine ν α → α → Prop
  | done (a : α) : Ends (.done a) a
  | loop {σ β : Type} {state : σ} {step : σ → Routine ν (σ ⊕ β)} {next : β → Routine ν α}
    {a : α} : Ends ((step state).bind (again step next)) a → Ends (.loop state step next) a

theorem steps_ask {r r' : Request ν} {next : Reply r → Routine ν α} {x : Reply r'}
    {q : Routine ν α} (h : Steps (.ask r next) r' x q) :
    ∃ e : r' = r, q = next (e ▸ x) := by
  cases h
  exact ⟨rfl, rfl⟩

theorem steps_loop_iff {state : σ} {step : σ → Routine ν (σ ⊕ β)} {next : β → Routine ν α}
    {r : Request ν} {x : Reply r} {q : Routine ν α} :
    Steps (.loop state step next) r x q ↔ Steps ((step state).bind (again step next)) r x q :=
  ⟨fun h ↦ by cases h; assumption, .loop⟩

@[simp] theorem not_steps_done {a : α} {r : Request ν} {x : Reply r} {q : Routine ν α} :
    ¬Steps (.done a) r x q := nofun

@[simp] theorem ends_done_iff {a b : α} : Ends (.done a : Routine ν α) b ↔ a = b :=
  ⟨fun h ↦ by cases h; rfl, fun h ↦ h ▸ .done a⟩

@[simp] theorem not_ends_ask {r : Request ν} {next : Reply r → Routine ν α} {a : α} :
    ¬Ends (.ask r next) a := nofun

theorem ends_loop_iff {state : σ} {step : σ → Routine ν (σ ⊕ β)} {next : β → Routine ν α} {a : α} :
    Ends (.loop state step next) a ↔ Ends ((step state).bind (again step next)) a :=
  ⟨fun h ↦ by cases h; assumption, .loop⟩

theorem bind_again (p : Routine ν (σ ⊕ β)) (step : σ → Routine ν (σ ⊕ β))
    (next : β → Routine ν α) {γ : Type} (f : α → Routine ν γ) :
    p.bind (again step fun b ↦ (next b).bind f) = (p.bind (again step next)).bind f := by
  rw [bind_assoc]
  congr
  funext res
  exact (again_bind step next f res).symm

/-- The first of two routines takes a step, or it is at its end and the second one does. -/
theorem steps_bind {p : Routine ν α} {f : α → Routine ν β} {r : Request ν} {x : Reply r}
    {q : Routine ν β} (h : Steps (p.bind f) r x q) :
    (∃ p', Steps p r x p' ∧ q = p'.bind f) ∨ ∃ a, Ends p a ∧ Steps (f a) r x q := by
  generalize hP : p.bind f = P at h
  induction h generalizing α with
  | ask r next x =>
    cases p with
    | done a =>
      refine .inr ⟨a, .done a, ?_⟩
      rw [show f a = _ from hP]
      exact .ask r next x
    | ask r' next' =>
      cases hP
      exact .inl ⟨next' x, .ask r next' x, rfl⟩
    | loop => cases hP
  | @loop σ' β' state step next r x q h ih =>
    cases p with
    | done a =>
      refine .inr ⟨a, .done a, ?_⟩
      rw [show f a = _ from hP]
      exact .loop h
    | ask => cases hP
    | loop state' step' next' =>
      cases hP
      rcases ih (bind_again (step state) step next' f).symm with
        ⟨p', hp, rfl⟩ | ⟨a, ha, hs⟩
      · exact .inl ⟨p', .loop hp, rfl⟩
      · exact .inr ⟨a, .loop ha, hs⟩

theorem ends_bind {p : Routine ν α} {f : α → Routine ν β} {b : β} (h : Ends (p.bind f) b) :
    ∃ a, Ends p a ∧ Ends (f a) b := by
  generalize hP : p.bind f = P at h
  induction h generalizing α with
  | done b =>
    cases p with
    | done a =>
      refine ⟨a, .done a, ?_⟩
      rw [show f a = _ from hP]
      exact .done b
    | ask | loop => cases hP
  | @loop σ' β' state step next b h ih =>
    cases p with
    | done a =>
      refine ⟨a, .done a, ?_⟩
      rw [show f a = _ from hP]
      exact .loop h
    | ask => cases hP
    | loop state' step' next' =>
      cases hP
      obtain ⟨a, ha, hb⟩ := ih (bind_again (step state) step next' f).symm
      exact ⟨a, .loop ha, hb⟩

theorem Steps.bind {p q : Routine ν α} {r : Request ν} {x : Reply r} (h : Steps p r x q)
    (f : α → Routine ν β) : Steps (p.bind f) r x (q.bind f) := by
  induction h with
  | ask r next x => exact .ask r _ x
  | loop h ih =>
    refine .loop ?_
    rw [bind_again]
    exact ih

theorem Ends.bind {p : Routine ν α} {a : α} (h : Ends p a) {f : α → Routine ν β} {r : Request ν}
    {x : Reply r} {q : Routine ν β} (hs : Steps (f a) r x q) : Steps (p.bind f) r x q := by
  induction h with
  | done a => exact hs
  | loop h ih =>
    refine .loop ?_
    rw [bind_again]
    exact ih hs

theorem Ends.bind_ends {p : Routine ν α} {a : α} (h : Ends p a) {f : α → Routine ν β} {b : β}
    (hb : Ends (f a) b) : Ends (p.bind f) b := by
  induction h with
  | done a => exact hb
  | loop h ih =>
    refine .loop ?_
    rw [bind_again]
    exact ih hb

/-! ## Paths and runs -/

/-- What was asked and answered on the way from a routine to what is left of it. -/
inductive Path : Routine ν α → List (Answered ν) → Routine ν α → Prop
  | nil (p : Routine ν α) : Path p [] p
  | cons {p p' q : Routine ν α} {r : Request ν} {x : Reply r} {talk : List (Answered ν)} :
    Steps p r x p' → Path p' talk q → Path p (⟨r, x⟩ :: talk) q

theorem Path.bind {p q : Routine ν α} {talk : List (Answered ν)} (h : Path p talk q)
    (f : α → Routine ν β) : Path (p.bind f) talk (q.bind f) := by
  induction h with
  | nil => exact .nil _
  | cons hs _ ih => exact .cons (hs.bind f) ih

theorem Path.append {p q u : Routine ν α} {talk talk' : List (Answered ν)} (h : Path p talk q)
    (h' : Path q talk' u) : Path p (talk ++ talk') u := by
  induction h with
  | nil => exact h'
  | cons hs _ ih => exact .cons hs (ih h')

/-- A path in two parts. -/
theorem Path.of_append {p u : Routine ν α} {talk talk' : List (Answered ν)}
    (h : Path p (talk ++ talk') u) : ∃ q, Path p talk q ∧ Path q talk' u := by
  induction talk generalizing p with
  | nil => exact ⟨p, .nil p, h⟩
  | cons said talk ih =>
    cases h with
    | cons hs hp =>
      obtain ⟨q, hq, hu⟩ := ih hp
      exact ⟨q, .cons hs hq, hu⟩

/-- A round of a loop that asks for something. -/
theorem Path.round {state : σ} {step : σ → Routine ν (σ ⊕ β)} {next : β → Routine ν α}
    {q : Routine ν (σ ⊕ β)} {said : Answered ν} {talk : List (Answered ν)}
    (h : Path (step state) (said :: talk) q) :
    Path (.loop state step next) (said :: talk) (q.bind (again step next)) := by
  cases h with
  | cons hs hp => exact .cons (.loop (hs.bind _)) (hp.bind _)

/-- What was asked and answered until a routine ended, and what it ended with. -/
def Run (p : Routine ν α) (talk : List (Answered ν)) (a : α) : Prop :=
  ∃ q, Path p talk q ∧ Ends q a

theorem run_nil_iff {p : Routine ν α} {a : α} : Run p [] a ↔ Ends p a :=
  ⟨fun ⟨_, h, he⟩ ↦ by cases h; exact he, fun h ↦ ⟨p, .nil p, h⟩⟩

theorem run_cons_iff {p : Routine ν α} {e : Answered ν} {talk : List (Answered ν)} {a : α} :
    Run p (e :: talk) a ↔ ∃ q, Steps p e.request e.reply q ∧ Run q talk a := by
  constructor
  · rintro ⟨q, h, he⟩
    cases h with
    | cons hs hp => exact ⟨_, hs, q, hp, he⟩
  · rintro ⟨p', hs, q, hp, he⟩
    exact ⟨q, .cons hs hp, he⟩

@[simp] theorem run_done_iff {a b : α} {talk : List (Answered ν)} :
    Run (.done a) talk b ↔ talk = [] ∧ a = b := by
  cases talk with
  | nil => simp [run_nil_iff]
  | cons e talk => simp [run_cons_iff]

theorem run_ask_iff {r : Request ν} {next : Reply r → Routine ν α} {talk : List (Answered ν)}
    {a : α} : Run (.ask r next) talk a ↔ ∃ x rest, talk = ⟨r, x⟩ :: rest ∧ Run (next x) rest a := by
  cases talk with
  | nil => simp [run_nil_iff]
  | cons e talk =>
    rw [run_cons_iff]
    constructor
    · rintro ⟨q, hs, hr⟩
      obtain ⟨r', x⟩ := e
      obtain ⟨rfl, rfl⟩ := steps_ask hs
      exact ⟨x, talk, rfl, hr⟩
    · rintro ⟨x, rest, h, hr⟩
      cases h
      exact ⟨next x, .ask r next x, hr⟩

theorem run_loop_iff {state : σ} {step : σ → Routine ν (σ ⊕ β)} {next : β → Routine ν α}
    {talk : List (Answered ν)} {a : α} :
    Run (.loop state step next) talk a ↔ Run ((step state).bind (again step next)) talk a := by
  cases talk with
  | nil => rw [run_nil_iff, run_nil_iff, ends_loop_iff]
  | cons e talk => simp [run_cons_iff, steps_loop_iff]

/-- **Runs of two routines after another.** What is asked falls into what the first asks until its
end, and what the second asks. -/
theorem run_bind_iff {p : Routine ν α} {f : α → Routine ν β} {talk : List (Answered ν)} {b : β} :
    Run (p.bind f) talk b ↔
      ∃ first a second, talk = first ++ second ∧ Run p first a ∧ Run (f a) second b := by
  constructor
  · intro h
    induction talk generalizing p with
    | nil =>
      obtain ⟨a, ha, hb⟩ := ends_bind (run_nil_iff.mp h)
      exact ⟨[], a, [], rfl, run_nil_iff.mpr ha, run_nil_iff.mpr hb⟩
    | cons e talk ih =>
      obtain ⟨q, hs, hr⟩ := run_cons_iff.mp h
      rcases steps_bind hs with ⟨p', hp, rfl⟩ | ⟨a, ha, hs'⟩
      · obtain ⟨first, a, second, rfl, h₁, h₂⟩ := ih hr
        exact ⟨e :: first, a, second, rfl, run_cons_iff.mpr ⟨p', hp, h₁⟩, h₂⟩
      · exact ⟨[], a, e :: talk, rfl, run_nil_iff.mpr ha, run_cons_iff.mpr ⟨q, hs', hr⟩⟩
  · rintro ⟨first, a, second, rfl, h₁, h₂⟩
    induction first generalizing p with
    | nil =>
      have ha : Ends p a := run_nil_iff.mp h₁
      cases second with
      | nil => exact run_nil_iff.mpr (ha.bind_ends (run_nil_iff.mp h₂))
      | cons e second =>
        obtain ⟨q, hs, hr⟩ := run_cons_iff.mp h₂
        exact run_cons_iff.mpr ⟨q, ha.bind hs, hr⟩
    | cons e first ih =>
      obtain ⟨q, hs, hr⟩ := run_cons_iff.mp h₁
      exact run_cons_iff.mpr ⟨q.bind f, hs.bind f, ih hr⟩

/-- A path that goes on after the end of the first of two routines. -/
theorem Run.path {p : Routine ν α} {f : α → Routine ν β} {first rest : List (Answered ν)} {a : α}
    {said : Answered ν} {q : Routine ν β} (h : Run p first a) (h' : Path (f a) (said :: rest) q) :
    Path (p.bind f) (first ++ said :: rest) q := by
  obtain ⟨p', hpath, hends⟩ := h
  refine (hpath.bind f).append ?_
  cases h' with
  | cons hs hp => exact .cons (hends.bind hs) hp

/-! ## What a routine does is determined by what it is told -/

theorem Steps.unique {p q q' : Routine ν α} {r : Request ν} {x : Reply r} (h : Steps p r x q)
    (h' : Steps p r x q') : q = q' := by
  induction h with
  | ask r next x =>
    obtain ⟨-, rfl⟩ := steps_ask h'
    rfl
  | loop _ ih => exact ih (steps_loop_iff.mp h')

theorem Ends.not_steps {p q : Routine ν α} {a : α} (h : Ends p a) {r : Request ν} {x : Reply r} :
    ¬Steps p r x q := by
  induction h with
  | done a => exact not_steps_done
  | loop _ ih => exact fun hs ↦ ih (steps_loop_iff.mp hs)

theorem Ends.unique {p : Routine ν α} {a a' : α} (h : Ends p a) (h' : Ends p a') : a = a' := by
  induction h with
  | done a => exact ends_done_iff.mp h'
  | loop _ ih => exact ih (ends_loop_iff.mp h')

theorem Path.unique {p q q' : Routine ν α} {talk : List (Answered ν)} (h : Path p talk q)
    (h' : Path p talk q') : q = q' := by
  induction h with
  | nil => cases h'; rfl
  | cons hs _ ih =>
    cases h' with
    | cons hs' hp' =>
      obtain rfl := hs.unique hs'
      exact ih hp'

/-- What is left of a routine on a run of it comes to the end of the run. -/
theorem Path.run_of_append {p q : Routine ν α} {talk rest : List (Answered ν)} {a : α}
    (hp : Path p talk q) (h : Run p (talk ++ rest) a) : Run q rest a := by
  induction hp with
  | nil => exact h
  | cons hs _ ih =>
    obtain ⟨p', hs', hrun⟩ := run_cons_iff.mp h
    obtain rfl := hs.unique hs'
    exact ih hrun

/-- A routine that is to come to an end comes to no other. -/
theorem Run.ends_unique {p : Routine ν α} {talk : List (Answered ν)} {a a' : α} (h : Run p talk a)
    (h' : Ends p a') : a' = a := by
  obtain ⟨q, hp, he⟩ := h
  cases hp with
  | nil => exact h'.unique he
  | cons hs _ => exact absurd hs h'.not_steps

end Routine

end HashBoard
