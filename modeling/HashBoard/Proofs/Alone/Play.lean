import HashBoard.Proofs.Routine.Path
import HashBoard.Simulation.Schedule

/-!
# A routine that runs alone

In the simulated world a routine may run with others beside it, turn by turn, and the clock moves
when nobody can go on. When nobody runs beside it, all that is left of this is: each request is
answered at once, or the clock moves to the time that the request waits for. `World.Plays` says so
by recursion on the routine, with neither turns nor a bound on their number, and
`Play.ends_of_plays` says that the scheduler comes to the same end.
-/

namespace HashBoard

open Routine Simulation

variable {ν α β : Type} [Quantity ν] {seat : Seat}

namespace World

/-- Nobody runs beside the main routine, and nobody is going to. -/
structure IsLonely (w : World ν) : Prop where
  alive : w.alive = []
  wishes : w.wishes = []

/-- A request is answered to somebody who is alone: at once, or when the clock has moved to the time
that the request waits for. -/
inductive Serves (seat : Seat) (w : World ν) (r : Request ν) : World ν → Reply r → Prop
  | promptly {w' : World ν} {x : Reply r} (h : w.begin seat r = (w', .answered x)) :
    Serves seat w r w' x
  | inTime {t : Micros} {w' : World ν} {x : Reply r}
      (begun : w.begin seat r = (w, .waiting (some t)))
    (early : w.finish? seat (some t) r = none)
    (late : ({ w with now := max w.now t } : World ν).finish? seat (some t) r = some (w', x)) :
    Serves seat w r w' x

/-- A routine runs alone from one world to another, and ends there with an answer. -/
inductive Plays (seat : Seat) : World ν → Routine ν α → World ν → α → Prop
  | done (w : World ν) (a : α) : Plays seat w (.done a) w a
  | ask {w w₁ w' : World ν} {r : Request ν} {next : Reply r → Routine ν α} {x : Reply r} {a : α} :
    w.Serves seat r w₁ x → w₁.IsLonely → Plays seat w₁ (next x) w' a →
      Plays seat w (.ask r next) w' a
  | loop {w w' : World ν} {σ γ : Type} {state : σ} {step : σ → Routine ν (σ ⊕ γ)}
    {next : γ → Routine ν α} {a : α} : Plays seat w ((step state).bind (again step next)) w' a →
      Plays seat w (.loop state step next) w' a

variable {w w₁ w' : World ν} {p : Routine ν α} {f : α → Routine ν β} {a : α} {b : β}

/-- One routine after another. -/
theorem Plays.bind (h : w.Plays seat p w₁ a) (hf : w₁.Plays seat (f a) w' b) :
    w.Plays seat (p.bind f) w' b := by
  induction h with
  | done => exact hf
  | ask serves lonely _ ih => exact .ask serves lonely (ih hf)
  | loop _ ih =>
    refine .loop ?_
    rw [bind_again]
    exact ih hf

end World

namespace Play

/-- The routine runs to its end, given enough steps, and leaves nobody beside it. -/
def Ends (p : Play ν α) (w : World ν) (a : α) : Prop := ∃ m, ∀ n ≥ m, p.finish? n = some (w, a, [])

/-- A play without others. -/
def alone (w : World ν) (seat : Seat) (main : Stage ν α) : Play ν α := ⟨w, seat, main, []⟩

variable {w w' : World ν} {p : Play ν α} {a : α}

theorem ends_of_ended : (alone w seat (.ended a)).Ends w a :=
  ⟨1, fun n hn ↦ by
    obtain ⟨n, rfl⟩ := Nat.exists_eq_add_of_le' hn
    rfl⟩

theorem Ends.of_step {q : Play ν α} (hstep : p.step? = some q) (hgoing : p.main.isEnded = false)
    (h : q.Ends w a) : p.Ends w a := by
  obtain ⟨m, hm⟩ := h
  refine ⟨m + 1, fun n hn ↦ ?_⟩
  obtain ⟨n, rfl⟩ := Nat.exists_eq_add_of_le' (Nat.le_of_add_left_le hn)
  rw [finish?]
  split
  · rename_i hmain
    rw [hmain] at hgoing
    cases hgoing
  · rw [hstep]
    exact hm n (by omega)
  · rw [hstep]
    exact hm n (by omega)

omit [Quantity ν] in
theorem tidy_alone {main : Stage ν α} (lonely : w.IsLonely) :
    (alone w seat main).tidy = alone w seat main := by
  obtain ⟨alive, wishes⟩ := lonely
  cases w
  cases alive
  cases wishes
  rfl

/-- A routine that can go on does. -/
theorem step_ready (rest : Routine ν α) (lonely : (w.run World.patience seat rest).1.IsLonely) :
    (alone w seat (.ready rest)).step? = some
      (alone (w.run World.patience seat rest).1 seat (w.run World.patience seat rest).2) :=
  congrArg some (tidy_alone lonely)

/-- Somebody who waits for a time goes on when it has come. -/
theorem step_waiting {r : Request ν} {t : Micros} {next : Reply r → Routine ν α} {x : Reply r}
    (early : w.finish? seat (some t) r = none)
    (late : ({ w with now := max w.now t } : World ν).finish? seat (some t) r = some (w', x))
    (lonely : (w'.run World.patience seat (next x)).1.IsLonely) :
    (alone w seat (.waiting r (some t) next)).step? = some
      (alone (w'.run World.patience seat (next x)).1 seat
        (w'.run World.patience seat (next x)).2) := by
  have hstays : (alone w seat (.waiting r (some t) next)).runMain? = none := by
    rw [runMain?, alone, Stage.resume?, early]
    rfl
  have hgoes : (alone ({ w with now := max w.now t } : World ν) seat
      (.waiting r (some t) next)).runMain? = some
        (alone (w'.run World.patience seat (next x)).1 seat
          (w'.run World.patience seat (next x)).2).tidy := by
    rw [runMain?, alone, Stage.resume?, late]
    rfl
  have hmoves : (alone w seat (.waiting r (some t) next)).advance? = some
      ((alone ({ w with now := max w.now t } : World ν) seat
        (.waiting r (some t) next)).runMain?.getD
          (alone ({ w with now := max w.now t } : World ν) seat (.waiting r (some t) next))) := rfl
  rw [hgoes, tidy_alone lonely] at hmoves
  rw [step?, hstays, hmoves]
  rfl

/-- A turn that takes no step makes no difference: another one follows. -/
theorem ends_of_turns {p : Routine ν α} (lonely : w.IsLonely)
    (h : ∀ n, (w.run (n + 1) seat p).1.IsLonely ∧
      (alone (w.run (n + 1) seat p).1 seat (w.run (n + 1) seat p).2).Ends w' a) (n : Nat) :
    (w.run n seat p).1.IsLonely ∧ (alone (w.run n seat p).1 seat (w.run n seat p).2).Ends w' a := by
  cases n with
  | zero =>
    have hturn := h 999_999
    have hpatience : 999_999 + 1 = World.patience := rfl
    rw [hpatience] at hturn
    exact ⟨lonely, .of_step (step_ready p hturn.1) rfl hturn.2⟩
  | succ n => exact h n

/-- However far a turn takes a routine that plays to its end, the scheduler takes it to that end. -/
theorem ends_of_run {p : Routine ν α} (h : w.Plays seat p w' a) (lonely : w.IsLonely) (n : Nat) :
    (w.run n seat p).1.IsLonely ∧
      (alone (w.run n seat p).1 seat (w.run n seat p).2).Ends w' a := by
  induction h generalizing n with
  | done w a =>
    refine ends_of_turns lonely (fun n ↦ ?_) n
    have hrun : w.run (n + 1) seat (.done a) = (w, .ended a) := rfl
    rw [hrun]
    exact ⟨lonely, ends_of_ended⟩
  | @ask w w₁ w' r next x a serves lonely' _ ih =>
    refine ends_of_turns lonely (fun n ↦ ?_) n
    cases serves with
    | promptly begun =>
      have hrun : w.run (n + 1) seat (.ask r next) = w₁.run n seat (next x) := by
        rw [World.run, begun]
      rw [hrun]
      exact ih lonely' n
    | @inTime t _ _ begun early late =>
      have hrun : w.run (n + 1) seat (.ask r next) = (w, .waiting r (some t) next) := by
        rw [World.run, begun]
      obtain ⟨hlonely, hends⟩ := ih lonely' World.patience
      rw [hrun]
      exact ⟨lonely, .of_step (step_waiting early late hlonely) rfl hends⟩
  | @loop w w' σ γ state step next a _ ih =>
    refine ends_of_turns lonely (fun n ↦ ?_) n
    have hrun : w.run (n + 1) seat (.loop state step next) =
        w.run n seat ((step state).bind (again step next)) := by
      rw [World.run]
      congr
      funext res
      cases res <;> rfl
    rw [hrun]
    exact ih lonely n

/-- **What plays to its end alone does so in the simulated world.** -/
theorem ends_of_plays {p : Routine ν α} (h : w.Plays seat p w' a) (lonely : w.IsLonely) :
    (alone w seat (.ready p)).Ends w' a := (ends_of_run h lonely 0).2

end Play

end HashBoard
