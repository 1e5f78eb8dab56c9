import HashBoard.Proofs.Board.Answers
import HashBoard.Proofs.Scene.Upkeep

/-!
# The queue of nonces

A simulated board queues nonces, and a wait for an interrupt takes the first of them. Nonces are
queued at any time, by somebody outside or by the board itself, between any two things that occur
around the board; so what happens is a list of moments, and the occurrences among them are a run of
a scene. Every nonce that was queued was either taken by a wait or is still there, in this order
(`Mines.queue_eq`).
-/

namespace HashBoard

open Simulation

variable {ν : Type} {R : Repertoire ν}

/-- Something that happens to a board and around it. -/
inductive Moment (R : Repertoire ν)
  /-- Something occurs around the board. -/
  | occurs (e : Occurrence R)
  /-- The board queues a nonce. -/
  | queues (nonce : UInt64)

/-- What occurs in some moments. -/
def occurrencesOf (ms : List (Moment R)) : List (Occurrence R) :=
  ms.filterMap fun
    | .occurs e => some e
    | .queues _ => none

/-- The nonces that are queued in some moments. -/
def queued (ms : List (Moment R)) : List UInt64 :=
  ms.filterMap fun
    | .occurs _ => none
    | .queues nonce => some nonce

/-- The nonce that a wait for an interrupt took. -/
def Answered.taken? : Answered ν → Option UInt64
  | ⟨.call (.awaitInterrupt ..), .ok nonce⟩ => nonce
  | _ => none

/-- The nonces that were taken. -/
def takenNonces (talk : List (Answered ν)) : List UInt64 := talk.filterMap Answered.taken?

/-! ## Lists of moments -/

section

variable (ms ms' : List (Moment R)) (e : Occurrence R) (nonce : UInt64)

theorem occurrencesOf_append :
    occurrencesOf (ms ++ ms') = occurrencesOf ms ++ occurrencesOf ms' := List.filterMap_append

@[simp] theorem occurrencesOf_nil : occurrencesOf ([] : List (Moment R)) = [] := rfl

@[simp] theorem occurrencesOf_occurs :
    occurrencesOf (.occurs e :: ms) = e :: occurrencesOf ms := rfl

@[simp] theorem occurrencesOf_queues :
    occurrencesOf (.queues nonce :: ms) = occurrencesOf ms := rfl

@[simp] theorem occurrencesOf_map_queues (nonces : List UInt64) :
    occurrencesOf (nonces.map (Moment.queues (R := R))) = [] := by
  induction nonces with
  | nil => rfl
  | cons _ _ ih => exact ih

@[simp] theorem occurrencesOf_map_occurs (es : List (Occurrence R)) :
    occurrencesOf (es.map .occurs) = es := by
  induction es with
  | nil => rfl
  | cons e _ ih => exact congrArg (e :: ·) ih

theorem queued_append : queued (ms ++ ms') = queued ms ++ queued ms' := List.filterMap_append

@[simp] theorem queued_nil : queued ([] : List (Moment R)) = [] := rfl

@[simp] theorem queued_occurs : queued (.occurs e :: ms) = queued ms := rfl

@[simp] theorem queued_queues : queued (.queues nonce :: ms) = nonce :: queued ms := rfl

@[simp] theorem queued_map_queues (nonces : List UInt64) :
    queued (nonces.map (Moment.queues (R := R))) = nonces := by
  induction nonces with
  | nil => rfl
  | cons nonce _ ih => exact congrArg (nonce :: ·) ih

end

/-- Where something occurs. -/
theorem occurrencesOf_eq_append_cons {ms : List (Moment R)} {earlier later : List (Occurrence R)}
    {e : Occurrence R} (h : occurrencesOf ms = earlier ++ e :: later) :
    ∃ before since, ms = before ++ .occurs e :: since ∧ occurrencesOf before = earlier ∧
      occurrencesOf since = later := by
  obtain ⟨before, m, since, rfl, hm, hbefore, hsince⟩ := exists_of_filterMap_eq h
  cases m with
  | queues => cases hm
  | occurs e' =>
    cases hm
    exact ⟨before, since, rfl, hbefore, hsince⟩

/-- Where a nonce is queued. -/
theorem queued_eq_append_cons {ms : List (Moment R)} {earlier later : List UInt64} {nonce : UInt64}
    (h : queued ms = earlier ++ nonce :: later) :
    ∃ before since, ms = before ++ .queues nonce :: since ∧ queued before = earlier ∧
      queued since = later := by
  obtain ⟨before, m, since, rfl, hm, hbefore, hsince⟩ := exists_of_filterMap_eq h
  cases m with
  | occurs => cases hm
  | queues nonce' =>
    cases hm
    exact ⟨before, since, rfl, hbefore, hsince⟩

/-- A nonce is queued either before something occurs or after it. -/
theorem queues_before_or_after {before since earlier later : List (Moment R)} {e : Occurrence R}
    {nonce : UInt64} (h : before ++ .occurs e :: since = earlier ++ .queues nonce :: later) :
    (∃ more, before = earlier ++ .queues nonce :: more) ∨
      ∃ more, earlier = before ++ .occurs e :: more ∧ since = more ++ .queues nonce :: later := by
  rcases List.append_eq_append_iff.mp h with ⟨more, rfl, hrest⟩ | ⟨more, rfl, hrest⟩
  · cases more with
    | nil => cases hrest
    | cons m more =>
      obtain ⟨rfl, rfl⟩ := List.cons.inj hrest
      exact .inr ⟨more, rfl, rfl⟩
  · cases more with
    | nil => cases hrest
    | cons m more =>
      obtain ⟨rfl, -⟩ := List.cons.inj hrest
      exact .inl ⟨more, rfl⟩

/-- The numbers of nonces that are queued tell which it is. -/
theorem queued_le_iff {before since earlier later : List (Moment R)} {e : Occurrence R}
    {nonce : UInt64} (h : before ++ .occurs e :: since = earlier ++ .queues nonce :: later) :
    (queued before).length ≤ (queued earlier).length ↔
      ∃ more, earlier = before ++ .occurs e :: more ∧ since = more ++ .queues nonce :: later := by
  constructor
  · intro hle
    refine (queues_before_or_after h).resolve_left ?_
    rintro ⟨more, rfl⟩
    rw [queued_append, queued_queues, List.length_append, List.length_cons] at hle
    omega
  · rintro ⟨more, rfl, -⟩
    rw [queued_append, List.length_append]
    exact Nat.le_add_right _ _

theorem takenNonces_append (talk talk' : List (Answered ν)) :
    takenNonces (talk ++ talk') = takenNonces talk ++ takenNonces talk' := List.filterMap_append

namespace SimulatedBoard

variable {b b' : SimulatedBoard}

/-! ## What a board queues and gives away -/

/-- The nonces a board finds by itself as a wait for an interrupt begins. -/
def foundBy (b : SimulatedBoard) : Answered ν → List UInt64
  | ⟨.call (.awaitInterrupt ..), .ok _⟩ => b.countWait.nonces.drop b.nonces.length
  | _ => []

/-- The nonces a board finds by itself as something occurs. -/
def foundAt (b : SimulatedBoard) (e : Occurrence R) : List UInt64 := e.said?.elim [] b.foundBy

/-- A board mines: nonces are queued, by itself or from outside, and it answers whatever it is
asked meanwhile. -/
inductive Mines : SimulatedBoard → List (Moment R) → SimulatedBoard → Prop
  | nil (b : SimulatedBoard) : Mines b [] b
  | queues {b b' : SimulatedBoard} {ms : List (Moment R)} (nonce : UInt64) :
    Mines (b.pushNonce nonce) ms b' → Mines b (.queues nonce :: ms) b'
  | occurs {b b₁ b' : SimulatedBoard} {ms : List (Moment R)} {e : Occurrence R} :
    b.Answers (talkOf [e]) b₁ → Mines b₁ ms b' →
    Mines b ((b.foundAt e).map .queues ++ .occurs e :: ms) b'

theorem Mines.append {b b' b'' : SimulatedBoard} {ms ms' : List (Moment R)} (h : Mines b ms b')
    (h' : Mines b' ms' b'') : Mines b (ms ++ ms') b'' := by
  induction h with
  | nil => exact h'
  | queues nonce _ ih => exact .queues nonce (ih h')
  | occurs ha _ ih =>
    rw [List.append_assoc, List.cons_append]
    exact .occurs ha (ih h')

/-- A wait that is counted only adds to the queue. -/
theorem countWait_nonces (b : SimulatedBoard) :
    b.nonces ++ b.countWait.nonces.drop b.nonces.length = b.countWait.nonces := by
  rw [countWait, List.drop_left]

theorem taken?_eq_none {c : Call} (h : ∀ mask timeout, c ≠ .awaitInterrupt mask timeout)
    (x : c.Answer) : (⟨.call c, x⟩ : Answered ν).taken? = none := by
  cases c with
  | awaitInterrupt mask timeout => exact absurd rfl (h mask timeout)
  | _ => rfl

theorem foundBy_eq_nil {c : Call} (h : ∀ mask timeout, c ≠ .awaitInterrupt mask timeout)
    (x : c.Answer) : b.foundBy (⟨.call c, x⟩ : Answered ν) = [] := by
  cases c with
  | awaitInterrupt mask timeout => exact absurd rfl (h mask timeout)
  | _ => rfl

/-- What is queued is what a wait takes and what is left. -/
theorem queue_perform (c : Call) :
    b.nonces ++ b.foundBy (⟨.call c, (b.perform c).2⟩ : Answered ν) =
      takenNonces [(⟨.call c, (b.perform c).2⟩ : Answered ν)] ++ (b.perform c).1.nonces := by
  by_cases hwait : ∃ mask timeout, c = .awaitInterrupt mask timeout
  · obtain ⟨mask, timeout, rfl⟩ := hwait
    obtain ⟨interrupt, hperform⟩ := perform_awaitInterrupt b mask timeout
    rw [hperform]
    split
    · exact List.append_nil _
    · refine (countWait_nonces b).trans ?_
      cases hnonces : b.countWait.nonces with
      | nil => rfl
      | cons nonce rest => rfl
  · have hother : ∀ mask timeout, c ≠ .awaitInterrupt mask timeout :=
      fun mask timeout heq ↦ hwait ⟨mask, timeout, heq⟩
    rw [foundBy_eq_nil hother, (frame_perform b c).nonces hother, takenNonces,
      List.filterMap_cons_none (taken?_eq_none hother _)]
    exact List.append_nil _

/-- What is queued as something is said is taken or left. -/
theorem Answers.queue_eq {said : Answered ν} (h : b.Answers [said] b') :
    b.nonces ++ b.foundBy said = takenNonces [said] ++ b'.nonces := by
  cases h with
  | made c hrest =>
    cases hrest
    exact queue_perform c
  | failed c fault hc hrest =>
    cases hrest
    cases c <;> exact List.append_nil _
  | @aside _ _ _ r x hr hrest =>
    cases hrest
    cases r with
    | call c => exact absurd rfl (hr c)
    | _ => exact List.append_nil _

/-- **First in, first out.** What was queued was taken or is still there, in this order. -/
theorem Mines.queue_eq {ms : List (Moment R)} (h : b.Mines ms b') :
    b.nonces ++ queued ms = takenNonces (talkOf (occurrencesOf ms)) ++ b'.nonces := by
  induction h with
  | nil => exact List.append_nil _
  | @queues b b' ms nonce _ ih =>
    rw [queued_queues, List.append_cons]
    exact ih
  | @occurs b b₁ b' ms e ha _ ih =>
    rw [queued_append, queued_map_queues, queued_occurs, occurrencesOf_append,
      occurrencesOf_map_queues, List.nil_append, occurrencesOf_occurs, ← List.singleton_append,
      talkOf_append, takenNonces_append, List.append_assoc, ← ih, ← List.append_assoc,
      ← List.append_assoc]
    congr 1
    cases e with
    | talks party said => exact ha.queue_eq
    | begins | ends | arrives =>
      cases ha
      exact List.append_nil _

/-! ## Boards that find nothing by themselves -/

theorem foundBy_of_idle (idle : b.nonceEvery = none) (said : Answered ν) : b.foundBy said = [] := by
  unfold foundBy
  split
  · rw [countWait, List.drop_left, idle]
  · rfl

theorem foundAt_of_idle (idle : b.nonceEvery = none) (e : Occurrence R) : b.foundAt e = [] := by
  cases e with
  | talks party said => exact foundBy_of_idle idle said
  | begins | ends | arrives => rfl

theorem Answers.nonceEvery_eq {talk : List (Answered ν)} (h : b.Answers talk b') :
    b'.nonceEvery = b.nonceEvery := by
  induction h with
  | nil => rfl
  | made c _ ih => exact ih.trans (frame_perform _ c).nonceEvery
  | failed _ _ _ _ ih => exact ih
  | aside _ _ ih => exact ih

/-- A board that finds nothing by itself only answers. -/
theorem Mines.of_answers {es : List (Occurrence R)} (idle : b.nonceEvery = none)
    (h : b.Answers (talkOf es) b') : b.Mines (es.map .occurs) b' := by
  induction es generalizing b with
  | nil =>
    cases h
    exact .nil _
  | cons e es ih =>
    rw [← List.singleton_append, talkOf_append] at h
    obtain ⟨b₁, hfirst, hrest⟩ := h.of_append
    have mines := Mines.occurs hfirst (ih (hfirst.nonceEvery_eq.trans idle) hrest)
    rw [foundAt_of_idle idle] at mines
    exact mines

end SimulatedBoard

end HashBoard
