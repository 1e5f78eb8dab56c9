import HashBoard.Proofs.Routine.Path

/-!
# The laps of a loop

What was asked and answered on the way through a loop falls into laps: runs of its step, one after
another, each starting from the state that the one before led to. If every step asks for something
before it leads to another one, a run of the loop is some laps, a last one that ends it, and what
comes behind it (`exists_of_run_loop`).
-/

namespace HashBoard.Routine

variable {ν α β σ : Type}

/-- What was asked and answered in some laps, from one state of a loop to another. -/
inductive Laps (step : σ → Routine ν (σ ⊕ β)) : σ → List (List (Answered ν)) → σ → Prop
  | nil (state : σ) : Laps step state [] state
  | cons {state state' state'' : σ} {lap : List (Answered ν)} {laps : List (List (Answered ν))} :
    Run (step state) lap (.inl state') → Laps step state' laps state'' →
    Laps step state (lap :: laps) state''

/-- A step that leads to another one asks for something. -/
def Asks (step : σ → Routine ν (σ ⊕ β)) : Prop := ∀ state state', ¬Ends (step state) (.inl state')

variable {step : σ → Routine ν (σ ⊕ β)} {state state' : σ} {laps : List (List (Answered ν))}

theorem Asks.ne_nil (asks : Asks step) {lap : List (Answered ν)}
    (run : Run (step state) lap (.inl state')) : lap ≠ [] := by
  rintro rfl
  exact asks state state' (run_nil_iff.mp run)

theorem Laps.snoc {state'' : σ} {lap : List (Answered ν)} (h : Laps step state laps state')
    (run : Run (step state') lap (.inl state'')) : Laps step state (laps ++ [lap]) state'' := by
  induction h with
  | nil state => exact .cons run (.nil _)
  | cons hlap _ ih => exact .cons hlap (ih run)

/-- Some laps, and a part of another one. -/
theorem Laps.path (h : Laps step state laps state') {next : β → Routine ν α} {said : Answered ν}
    {talk : List (Answered ν)} {q : Routine ν (σ ⊕ β)}
    (hpart : Path (step state') (said :: talk) q) :
    Path (.loop state step next) (laps.flatten ++ said :: talk) (q.bind (again step next)) := by
  induction h with
  | nil state => exact hpart.round
  | @cons state state' state'' lap laps hlap _ ih =>
    have later := ih hpart
    obtain ⟨said', rest, hrest⟩ := List.exists_cons_of_ne_nil
      (List.append_ne_nil_of_right_ne_nil laps.flatten (List.cons_ne_nil said talk))
    rw [hrest] at later
    have unrolled : Path ((step state).bind (again step next)) (lap ++ said' :: rest)
        (q.bind (again step next)) := hlap.path later
    rw [List.flatten_cons, List.append_assoc, hrest]
    cases lap with
    | nil =>
      cases unrolled with
      | cons hs hp => exact .cons (.loop hs) hp
    | cons =>
      cases unrolled with
      | cons hs hp => exact .cons (.loop hs) hp

/-- Whatever holds of each lap. -/
theorem Laps.forall {P : List (Answered ν) → Prop} (h : Laps step state laps state')
    (hP : ∀ state state' lap, Run (step state) lap (.inl state') → P lap) :
    ∀ lap ∈ laps, P lap := by
  induction h with
  | nil => exact List.forall_mem_nil _
  | cons run _ ih => exact List.forall_mem_cons.mpr ⟨hP _ _ _ run, ih⟩

/-- A run of a loop: some laps, a last one, and what comes behind the loop. -/
theorem exists_of_run_loop (asks : Asks step) {next : β → Routine ν α} {talk : List (Answered ν)}
    {a : α} (h : Run (.loop state step next) talk a) :
    ∃ laps state' last b rest, talk = laps.flatten ++ (last ++ rest) ∧ Laps step state laps state' ∧
      Run (step state') last (.inr b) ∧ Run (next b) rest a := by
  induction hn : talk.length using Nat.strongRecOn generalizing state talk with
  | _ n ih =>
    obtain ⟨first, res, rest, rfl, hrun, hrest⟩ := run_bind_iff.mp (run_loop_iff.mp h)
    cases res with
    | inr b => exact ⟨[], state, first, b, rest, rfl, .nil state, hrun, hrest⟩
    | inl state' =>
      have hfirst : 0 < first.length := List.length_pos_iff.mpr (asks.ne_nil hrun)
      rw [List.length_append] at hn
      obtain ⟨laps, state'', last, b, rest', rfl, hlaps, hlast, hnext⟩ :=
        ih rest.length (by omega) hrest rfl
      refine ⟨first :: laps, state'', last, b, rest', ?_, .cons hrun hlaps, hlast, hnext⟩
      rw [List.flatten_cons, List.append_assoc]

end HashBoard.Routine
