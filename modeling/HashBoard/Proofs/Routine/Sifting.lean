import HashBoard.Proofs.Routine.Transcript

/-!
# Transcripts of what is of interest

Most of what a routine asks does not matter for a statement about its polls, its copies or its
uploads. The account here keeps what was asked and answered only where a test passes the request.
Whatever the test fails leaves the account as it is, so a proof goes from one request of interest to
the next (`ensures_look`, `ensures_beside`), and what is ensured in the end holds of the sifted
transcript of every run (`Ensures.of_sifted_run`).
-/

namespace HashBoard

variable {ν : Type}

/-- What was asked and answered, where a test passes the request. -/
def sift (P : Request ν → Bool) (talk : List (Answered ν)) : List (Answered ν) :=
  talk.filter (P ·.request)

/-- The account of what a test passes: a transcript without the rest. -/
def sifting (P : Request ν → Bool) : Watch ν (List (Answered ν)) :=
  { transcript ν with acts := fun s r x t ↦ t = s ++ sift P [⟨r, x⟩] }

variable {P : Request ν → Bool}

theorem sift_append (talk talk' : List (Answered ν)) :
    sift P (talk ++ talk') = sift P talk ++ sift P talk' := List.filter_append ..

theorem sift_cons_of_pos {said : Answered ν} (h : P said.request) (talk : List (Answered ν)) :
    sift P (said :: talk) = said :: sift P talk := List.filter_cons_of_pos h

theorem sift_cons_of_neg {said : Answered ν} (h : P said.request = false)
    (talk : List (Answered ν)) : sift P (said :: talk) = sift P talk :=
  List.filter_cons_of_neg (Bool.not_eq_true _ ▸ h)

theorem mem_sift_iff {said : Answered ν} (h : P said.request) {talk : List (Answered ν)} :
    said ∈ sift P talk ↔ said ∈ talk := by
  rw [sift, List.mem_filter]
  exact and_iff_left h

/-- What a test fails does not matter to a function that gives nothing for it. -/
theorem filterMap_sift {β : Type} {f : Answered ν → Option β}
    (hf : ∀ said, P said.request = false → f said = none) (talk : List (Answered ν)) :
    (sift P talk).filterMap f = talk.filterMap f := by
  induction talk with
  | nil => rfl
  | cons said talk ih =>
    by_cases hpass : P said.request
    · rw [sift_cons_of_pos hpass, List.filterMap_cons, List.filterMap_cons, ih]
    · have hfail := Bool.eq_false_iff.mpr hpass
      rw [sift_cons_of_neg hfail, List.filterMap_cons_none (hf said hfail), ih]

theorem along_sifting (s talk : List (Answered ν)) :
    (sifting P).Along s talk (s ++ sift P talk) := by
  induction talk generalizing s with
  | nil =>
    rw [sift, List.filter_nil, List.append_nil]
    exact .nil s
  | cons said talk ih =>
    rw [← List.singleton_append, sift_append, ← List.append_assoc]
    exact .cons rfl (ih _)

namespace Routine

variable {α β : Type} {s : List (Answered ν)} {p : Routine ν α} {f : α → Routine ν β}
  {Q : β → List (Answered ν) → Prop}

/-- What is ensured holds of the sifted transcript of every run. -/
theorem Ensures.of_sifted_run {Q : α → List (Answered ν) → Prop} {talk : List (Answered ν)} {a : α}
    (h : p.Ensures (sifting P) Q s) (run : Run p talk a) : Q a (s ++ sift P talk) :=
  h.run_along run (along_sifting s talk)

theorem eq_of_moves_sifting {r : Request ν} {x : Reply r} {t : List (Answered ν)}
    (hm : (sifting P).moves s r x t) : t = s ++ sift P [⟨r, x⟩] := by
  obtain ⟨u, rfl, rfl⟩ := hm
  rfl

/-- A request of interest, and what follows its reply. -/
theorem ensures_look {r : Request ν} {next : Reply r → Routine ν β} (hr : P r)
    (h : ∀ x, (next x).Ensures (sifting P) Q (s ++ [⟨r, x⟩])) :
    (Routine.ask r next).Ensures (sifting P) Q s := by
  refine ⟨trivial, trivial, fun x t hm ↦ ?_⟩
  have hkept : sift P [(⟨r, x⟩ : Answered ν)] = [⟨r, x⟩] := sift_cons_of_pos hr []
  rw [eq_of_moves_sifting hm, hkept]
  exact h x

/-- A routine that asks nothing of interest. -/
theorem ensures_last {Q : α → List (Answered ν) → Prop} (hp : p.Only fun r ↦ P r = false)
    (h : ∀ a, Q a s) : p.Ensures (sifting P) Q s := by
  have kept : p.Ensures (sifting P) (fun _ t ↦ t = s) s := by
    refine hp.ensures rfl (fun _ _ ↦ trivial) (fun _ _ _ _ ↦ trivial) fun t r x u ht hr hm ↦ ?_
    have hdropped : sift P [(⟨r, x⟩ : Answered ν)] = [] := sift_cons_of_neg hr []
    rw [eq_of_moves_sifting hm, hdropped, List.append_nil, ht]
  exact kept.mono fun a _ ht ↦ ht ▸ h a

/-- A routine that asks nothing of interest, and what follows it. -/
theorem ensures_aside (hp : p.Only fun r ↦ P r = false)
    (h : ∀ a, (f a).Ensures (sifting P) Q s) : (p.bind f).Ensures (sifting P) Q s :=
  (ensures_last hp h).bind

/-- A request that is not of interest, and what follows its reply. -/
theorem ensures_beside {r : Request ν} {f : Reply r → Routine ν β} (hr : P r = false)
    (h : ∀ x, (f x).Ensures (sifting P) Q s) : ((request r).bind f).Ensures (sifting P) Q s :=
  ensures_aside (only_request hr) h

/-- A read of interest, which is mentioned if it succeeds. -/
theorem ensures_look_read {addr : Word} {f : Except LinkFault Word → Routine ν β}
    (hr : P (.call (.read addr))) (hnote : ∀ event, P (.note event) = false)
    (h : ∀ x, (f x).Ensures (sifting P) Q (s ++ [⟨.call (.read addr), x⟩])) :
    ((Routine.read addr).bind f).Ensures (sifting P) Q s := by
  refine ensures_look hr fun x ↦ ?_
  cases x with
  | error fault => exact h (.error fault)
  | ok value =>
    exact ensures_beside (r := .note (.registerRead addr value)) (f := fun _ ↦ f (.ok value))
      (hnote _) fun _ ↦ h (.ok value)

/-- A copy of interest, which is mentioned before it is tried. -/
theorem ensures_look_move {src dst length : UInt64} {f : Except LinkFault Unit → Routine ν β}
    (hr : P (.call (.move src dst length))) (hnote : ∀ event, P (.note event) = false)
    (h : ∀ x, (f x).Ensures (sifting P) Q (s ++ [⟨.call (.move src dst length), x⟩])) :
    ((Routine.move src dst length).bind f).Ensures (sifting P) Q s :=
  ensures_beside (r := .note (.copying src dst length))
    (f := fun _ ↦ (call (.move src dst length)).bind f) (hnote _) fun _ ↦ ensures_look hr h

end Routine

end HashBoard
