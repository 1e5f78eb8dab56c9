import Mathlib.Data.List.Induction
import HashBoard.Proofs.Board.Answers

/-!
# Waiting for nonces

Whoever waits for an interrupt looks for a nonce first, listens for the signal if there is none, and
looks again when it has been woken or its time is up. Meanwhile nonces are queued and the signal is
raised, and these are two things: the signal may be raised for a nonce that was taken long ago, or
for none at all, and it is kept until somebody listens. So there is a turn for each of them, and the
turns of the waiter and of everybody else come in any order.

However they come, the queue gives each nonce once and in order. A signal that was kept ends a wait
early, and it does so once.
-/

namespace HashBoard

open Simulation

/-- Neither waits for an interrupt nor raises the signal. -/
def Call.isAside : Call → Bool
  | .awaitInterrupt .. | .kick => false
  | _ => true

namespace SimulatedBoard

/-- The nonce that a board finds by itself when a wait begins: at every so many waits, the one that
lies as far behind the first nonce of the search as there were waits. -/
def ownNonce (b : SimulatedBoard) : Option UInt64 :=
  match b.nonceEvery with
  | some every =>
    if (b.waits + 1) % every = 0 then
      some (((b.register Reg.startNonceHi).toUInt64 <<< 32 |||
        (b.register Reg.startNonceLo).toUInt64) + (b.waits + 1).toUInt64)
    else none
  | none => none

variable (b : SimulatedBoard)

theorem countWait_eq :
    b.countWait = { b with waits := b.waits + 1, nonces := b.nonces ++ b.ownNonce.toList } := by
  rw [countWait, ownNonce]
  cases b.nonceEvery with
  | none => rfl
  | some every =>
    dsimp only
    split <;> rfl

theorem takeNonce_eq : b.takeNonce = ({ b with nonces := b.nonces.tail }, b.nonces.head?) := by
  rw [takeNonce]
  split
  · rename_i empty
    rw [empty]
    exact congrArg (·, none) (by rw [List.tail_nil, ← empty])
  · rename_i nonce rest queue
    rw [queue]
    rfl

/-- What has nothing to do with interrupts leaves the queue and the signal alone. -/
theorem perform_of_isAside {c : Call} (h : c.isAside) :
    (b.perform c).1.nonces = b.nonces ∧ (b.perform c).1.interrupt = b.interrupt := by
  cases c with
  | awaitInterrupt | kick => cases h
  | read addr =>
    rw [perform, read]
    split
    · exact ⟨rfl, rfl⟩
    · split
      · exact ⟨rfl, rfl⟩
      · split <;> exact ⟨rfl, rfl⟩
  | write value addr =>
    rw [perform, write]
    split <;> exact ⟨rfl, rfl⟩
  | writeBulk bytes addr swap =>
    obtain ⟨registers, set⟩ := setRegisters_frame addr (wordsOfBytes swap bytes) b
    rw [perform, writeBulk, set]
    split <;> exact ⟨rfl, rfl⟩
  | upload bytes addr =>
    rw [perform, upload]
    split <;> exact ⟨rfl, rfl⟩
  | move src dst length =>
    rw [perform, move]
    split <;> exact ⟨rfl, rfl⟩
  | setTimeout | enableInterrupts | disconnect => exact ⟨rfl, rfl⟩

end SimulatedBoard

/-! ## Turns -/

/-- How far a wait for an interrupt has come. -/
inductive Waiter
  /-- Nobody waits. -/
  | away
  /-- There was no nonce, and the signal is listened for next. -/
  | turning
  /-- The signal is listened for. -/
  | listening
  /-- The signal is not listened for any longer, and there is a last look for a nonce. -/
  | leaving
  deriving DecidableEq

/-- A board, and the one who waits for its interrupts. -/
structure Station where
  board : SimulatedBoard
  waiter : Waiter := .away

namespace Station

/-- What happens at a station. -/
inductive Turn
  /-- A nonce is queued. -/
  | queues (nonce : UInt64)
  /-- The signal is raised. -/
  | raises
  /-- Somebody makes a call. -/
  | calls (c : Call)
  /-- A wait begins. The board may find a nonce by itself, and a nonce ends the wait at once. -/
  | begins (own found : Option UInt64)
  /-- The signal is listened for; one that was kept ends that at once. -/
  | listens (kept : Bool)
  /-- Listening ends, be it that the signal was raised or that the time is up. -/
  | stops
  /-- A wait ends with the last look for a nonce. -/
  | ends (found : Option UInt64)

/-- One turn. Nothing but a wait that broken interrupts end at once is left out. -/
inductive Step : Station → Turn → Station → Prop
  | queues (b : SimulatedBoard) (w : Waiter) (nonce : UInt64) :
    Step ⟨b, w⟩ (.queues nonce) ⟨{ b with nonces := b.nonces ++ [nonce] }, w⟩
  | raises (b : SimulatedBoard) (w : Waiter) : Step ⟨b, w⟩ .raises ⟨b.kick, w⟩
  | calls (b : SimulatedBoard) (w : Waiter) {c : Call} :
    c.isAside → Step ⟨b, w⟩ (.calls c) ⟨(b.perform c).1, w⟩
  | begins {b b' : SimulatedBoard} {found : Option UInt64} :
    b.interruptsBroken = false → b.countWait.takeNonce = (b', found) →
    Step ⟨b, .away⟩ (.begins b.ownNonce found) ⟨b', if found.isSome then .away else .turning⟩
  | listens {b : SimulatedBoard} {interrupt : Signal} {kept : Bool} :
    b.interrupt.begin = (interrupt, kept) →
    Step ⟨b, .turning⟩ (.listens kept)
      ⟨{ b with interrupt }, if kept then .leaving else .listening⟩
  | stops (b : SimulatedBoard) :
    Step ⟨b, .listening⟩ .stops ⟨{ b with interrupt := b.interrupt.finish }, .leaving⟩
  | ends {b b' : SimulatedBoard} {found : Option UInt64} :
    b.takeNonce = (b', found) → Step ⟨b, .leaving⟩ (.ends found) ⟨b', .away⟩

/-- One turn after another. -/
inductive Runs : Station → List Turn → Station → Prop
  | nil (s : Station) : Runs s [] s
  | snoc {s t u : Station} {turns : List Turn} {turn : Turn} :
    Runs s turns t → Step t turn u → Runs s (turns ++ [turn]) u

variable {s t : Station} {turn : Turn} {turns turns' : List Turn}

theorem Runs.append {u : Station} (run : Runs s turns t) (run' : Runs t turns' u) :
    Runs s (turns ++ turns') u := by
  induction run' with
  | nil =>
    rw [List.append_nil]
    exact run
  | snoc _ step ih =>
    rw [← List.append_assoc]
    exact ih.snoc step

theorem Runs.of_snoc {u : Station} (run : Runs s (turns ++ [turn]) u) :
    ∃ t, Runs s turns t ∧ Step t turn u := by
  generalize h : turns ++ [turn] = turns' at run
  cases run with
  | nil => simp at h
  | snoc run step =>
    obtain ⟨rfl, same⟩ := List.append_inj' h rfl
    cases same
    exact ⟨_, run, step⟩

theorem Runs.of_append {u : Station} (run : Runs s (turns ++ turns') u) :
    ∃ t, Runs s turns t ∧ Runs t turns' u := by
  induction turns' using List.reverseRecOn generalizing u with
  | nil =>
    rw [List.append_nil] at run
    exact ⟨u, run, .nil u⟩
  | append_singleton turns' turn ih =>
    rw [← List.append_assoc] at run
    obtain ⟨v, hv, step⟩ := run.of_snoc
    obtain ⟨t, ht, hrest⟩ := ih hv
    exact ⟨t, ht, hrest.snoc step⟩

theorem Runs.of_append_cons {u : Station} {pre post : List Turn}
    (run : Runs s (pre ++ turn :: post) u) :
    ∃ t v, Runs s pre t ∧ Step t turn v ∧ Runs v post u := by
  rw [List.append_cons] at run
  obtain ⟨v, hv, hpost⟩ := run.of_append
  obtain ⟨t, hpre, step⟩ := hv.of_snoc
  exact ⟨t, v, hpre, step, hpost⟩

/-! ## What is queued and what is taken -/

/-- The nonces that are queued in a turn. -/
def Turn.queued : Turn → List UInt64
  | .queues nonce => [nonce]
  | .begins own _ => own.toList
  | _ => []

/-- The nonces that a wait ends with in a turn. -/
def Turn.fired : Turn → List UInt64
  | .begins _ found | .ends found => found.toList
  | _ => []

/-- A signal that was kept ends a wait. -/
def Turn.isSpent : Turn → Bool
  | .listens kept => kept
  | _ => false

theorem nonces_of_takeNonce {b b' : SimulatedBoard} {found : Option UInt64}
    (h : b.takeNonce = (b', found)) :
    b.nonces = found.toList ++ b'.nonces ∧ b'.interrupt = b.interrupt := by
  rw [SimulatedBoard.takeNonce_eq] at h
  cases h
  refine ⟨?_, rfl⟩
  cases b.nonces <;> rfl

/-- A turn takes from the front of the queue what it takes, and puts behind it what is queued. -/
theorem Step.nonces_eq (step : Step s turn t) :
    s.board.nonces ++ turn.queued = turn.fired ++ t.board.nonces := by
  cases step with
  | queues => rfl
  | raises | listens | stops => exact List.append_nil _
  | calls b w aside =>
    rw [(b.perform_of_isAside aside).1]
    exact List.append_nil _
  | @begins b b' found _ taken =>
    have queue := (nonces_of_takeNonce taken).1
    rwa [SimulatedBoard.countWait_eq] at queue
  | ends taken => exact (List.append_nil _).trans (nonces_of_takeNonce taken).1

theorem Runs.nonces_eq (run : Runs s turns t) :
    s.board.nonces ++ turns.flatMap Turn.queued =
      turns.flatMap Turn.fired ++ t.board.nonces := by
  induction run with
  | nil => exact List.append_nil _
  | snoc _ step ih =>
    rw [List.flatMap_append, List.flatMap_append, ← List.append_assoc, ih, List.append_assoc,
      List.append_assoc, List.flatMap_singleton, List.flatMap_singleton, step.nonces_eq]

/-! ## Signals that were kept -/

/-- A signal that is spent was kept, and it is kept no longer. -/
theorem Step.kept_le (step : Step s turn t) (quiet : turn ≠ .raises) :
    turn.isSpent.toNat + t.board.interrupt.kept.toNat ≤ s.board.interrupt.kept.toNat := by
  cases step with
  | raises => exact absurd rfl quiet
  | queues | stops => exact Nat.le_of_eq (Nat.zero_add _)
  | calls b w aside =>
    rw [(b.perform_of_isAside aside).2]
    exact Nat.le_of_eq (Nat.zero_add _)
  | begins _ taken =>
    rw [(nonces_of_takeNonce taken).2, SimulatedBoard.countWait_eq]
    exact Nat.le_of_eq (Nat.zero_add _)
  | ends taken =>
    rw [(nonces_of_takeNonce taken).2]
    exact Nat.le_of_eq (Nat.zero_add _)
  | @listens b interrupt kept begun =>
    rw [Signal.begin] at begun
    by_cases hkept : b.interrupt.kept
    · rw [if_pos hkept] at begun
      cases begun
      rw [hkept]
      exact Nat.le_refl 1
    · rw [if_neg hkept] at begun
      cases begun
      exact Nat.le_of_eq (Nat.zero_add _)

theorem Runs.spent_le (run : Runs s turns t) (quiet : ∀ turn ∈ turns, turn ≠ .raises) :
    turns.countP Turn.isSpent + t.board.interrupt.kept.toNat ≤ s.board.interrupt.kept.toNat := by
  induction run with
  | nil => exact Nat.le_of_eq (Nat.zero_add _)
  | @snoc t u turns turn _ step ih =>
    obtain ⟨before, last⟩ := List.forall_mem_append.mp quiet
    have hstep := step.kept_le (last turn (.head _))
    have hrun := ih before
    have hcount : [turn].countP Turn.isSpent = turn.isSpent.toNat := by
      cases hspent : turn.isSpent <;> simp [hspent]
    rw [List.countP_append, hcount]
    omega

/-! ## What a board does, in turns -/

section Board

variable (b : SimulatedBoard)

/-- A push queues a nonce and then raises the signal. -/
theorem runs_pushNonce (w : Waiter) (nonce : UInt64) :
    Runs ⟨b, w⟩ [.queues nonce, .raises] ⟨b.pushNonce nonce, w⟩ :=
  (Runs.snoc (.nil _) (.queues b w nonce)).snoc (.raises _ w)

theorem runs_kick (w : Waiter) : Runs ⟨b, w⟩ [.raises] ⟨b.kick, w⟩ :=
  .snoc (.nil _) (.raises b w)

variable {b} {b' : SimulatedBoard} {x : Option UInt64}

theorem eq_of_takeNonce_none (h : b.takeNonce = (b', none)) : b' = b ∧ b.nonces = [] := by
  rw [SimulatedBoard.takeNonce] at h
  split at h
  · rename_i empty
    exact ⟨(Prod.mk.inj h).1.symm, empty⟩
  · cases h

/-- The turns of a wait that goes on: a signal that was kept ends it without a nonce, or it is
listened for. -/
theorem runs_of_goesOn (sound : ¬b.interruptsBroken) (taken : b.countWait.takeNonce = (b', none)) :
    ∃ turns, turns.flatMap Turn.fired = [] ∧
      Runs ⟨b, .away⟩ turns ⟨{ b' with interrupt := b'.interrupt.begin.1 },
        if b'.interrupt.begin.2 then .away else .listening⟩ := by
  have begun : Runs ⟨b, .away⟩ [.begins b.ownNonce none] ⟨b', .turning⟩ :=
    .snoc (.nil _) (.begins (eq_false_of_ne_true sound) taken)
  have listened := begun.snoc (.listens (Prod.eta b'.interrupt.begin).symm)
  by_cases kept : b'.interrupt.begin.2
  · rw [if_pos kept] at listened ⊢
    obtain ⟨same, empty⟩ := eq_of_takeNonce_none taken
    have last : ({ b' with interrupt := b'.interrupt.begin.1 } : SimulatedBoard).takeNonce =
        ({ b' with interrupt := b'.interrupt.begin.1 }, none) := by
      rw [SimulatedBoard.takeNonce_eq, same, empty]
      rfl
    exact ⟨_, rfl, listened.snoc (.ends last)⟩
  · rw [if_neg kept] at listened ⊢
    exact ⟨_, rfl, listened⟩

/-- A wait that ends as soon as it begins. -/
theorem runs_of_ended (h : b.beginWait = (b', some (.ok x))) :
    ∃ turns, turns.flatMap Turn.fired = x.toList ∧ Runs ⟨b, .away⟩ turns ⟨b', .away⟩ := by
  rw [SimulatedBoard.beginWait] at h
  by_cases broken : b.interruptsBroken
  · rw [if_pos broken] at h
    cases h
  · rw [if_neg broken] at h
    obtain ⟨⟨b₁, found⟩, taken⟩ : ∃ pair, b.countWait.takeNonce = pair := ⟨_, rfl⟩
    simp only [taken] at h
    cases found with
    | some nonce =>
      cases h
      refine ⟨_, ?_, .snoc (.nil _) (.begins (eq_false_of_ne_true broken) taken)⟩
      rfl
    | none =>
      obtain ⟨turns, fired, run⟩ := runs_of_goesOn broken taken
      by_cases kept : b₁.interrupt.begin.2
      · simp only [kept, ↓reduceIte] at h run
        cases h
        exact ⟨turns, fired, run⟩
      · simp only [kept, Bool.false_eq_true, ↓reduceIte] at h
        cases h

/-- A wait that goes on listens for the signal. -/
theorem runs_of_listening (h : b.beginWait = (b', none)) :
    ∃ turns, turns.flatMap Turn.fired = [] ∧ Runs ⟨b, .away⟩ turns ⟨b', .listening⟩ := by
  rw [SimulatedBoard.beginWait] at h
  by_cases broken : b.interruptsBroken
  · rw [if_pos broken] at h
    cases h
  · rw [if_neg broken] at h
    obtain ⟨⟨b₁, found⟩, taken⟩ : ∃ pair, b.countWait.takeNonce = pair := ⟨_, rfl⟩
    simp only [taken] at h
    cases found with
    | some nonce => cases h
    | none =>
      obtain ⟨turns, fired, run⟩ := runs_of_goesOn broken taken
      by_cases kept : b₁.interrupt.begin.2
      · simp only [kept, ↓reduceIte] at h
        cases h
      · simp only [kept, Bool.false_eq_true, ↓reduceIte] at h run
        cases h
        exact ⟨turns, fired, run⟩

/-- The end of a wait that listened for the signal, whatever ended it. -/
theorem runs_finishWait (h : b.finishWait = (b', .ok x)) :
    ∃ turns, turns.flatMap Turn.fired = x.toList ∧ Runs ⟨b, .listening⟩ turns ⟨b', .away⟩ := by
  obtain ⟨⟨b₁, found⟩, taken⟩ : ∃ pair,
      ({ b with interrupt := b.interrupt.finish } : SimulatedBoard).takeNonce = pair := ⟨_, rfl⟩
  rw [SimulatedBoard.finishWait, taken] at h
  cases h
  exact ⟨_, List.append_nil _, (Runs.snoc (.nil _) (.stops b)).snoc (.ends taken)⟩

end Board

/-! ## The guarantee -/

/-- What holds of all that happens at a station. -/
structure Delivers (s : Station) (turns : List Turn) (t : Station) : Prop where
  /-- The nonces that waits end with are a beginning of those that were queued; the rest is still
  there. -/
  inOrder : s.board.nonces ++ turns.flatMap Turn.queued =
    turns.flatMap Turn.fired ++ t.board.nonces
  /-- A wait ends without a nonce only when all that were queued have been taken. -/
  empty : ∀ pre post, turns = pre ++ .ends none :: post →
    s.board.nonces ++ pre.flatMap Turn.queued = pre.flatMap Turn.fired
  /-- A wait begins with a look at the queue. If there is a nonce, the first one ends the wait at
  once, and the signal is left as it is; otherwise the wait goes on. -/
  atOnce : ∀ pre own found post, turns = pre ++ .begins own found :: post →
    ∃ u v, Runs s pre u ∧ Step u (.begins own found) v ∧ Runs v post t ∧
      own = u.board.ownNonce ∧ found = (u.board.nonces ++ own.toList).head? ∧
      v.board.interrupt = u.board.interrupt ∧ (v.waiter = .away ↔ found.isSome)
  /-- While the signal is not raised, one wait at most is ended by a signal that was kept. -/
  spentOnce : ∀ pre stretch post, turns = pre ++ stretch ++ post →
    (∀ turn ∈ stretch, turn ≠ .raises) → stretch.countP Turn.isSpent ≤ 1

end Station

open Station in
/-- **Nonces are delivered once and in order.** However nonces are queued, the signal is raised and
one waiter waits, with or without nonces that the board finds by itself: the nonces that waits end
with are those that were queued, in this order and without a gap, up to some point, and the rest is
in the queue. A wait ends without a nonce only if the queue is empty then. A wait that finds a nonce
ends at once and leaves the signal as it is. A signal that is raised while nobody listens is kept
once at most, so that without raising it again no more than one wait is ended by it. -/
theorem delivers_in_order {s t : Station} {turns : List Turn} (run : Runs s turns t) :
    Delivers s turns t where
  inOrder := run.nonces_eq
  empty pre post h := by
    subst h
    obtain ⟨u, v, hpre, step, -⟩ := run.of_append_cons
    cases step with
    | @ends b b' found taken =>
      rw [SimulatedBoard.takeNonce_eq] at taken
      obtain ⟨-, first⟩ := Prod.mk.inj taken
      rw [hpre.nonces_eq, List.head?_eq_none_iff.mp first]
      exact List.append_nil _
  atOnce pre own found post h := by
    subst h
    obtain ⟨u, v, hpre, step, hpost⟩ := run.of_append_cons
    refine ⟨u, v, hpre, step, hpost, ?_⟩
    cases step with
    | @begins b b' found _ taken =>
      have same := (nonces_of_takeNonce taken).2
      rw [SimulatedBoard.countWait_eq] at same taken
      rw [SimulatedBoard.takeNonce_eq] at taken
      obtain ⟨-, rfl⟩ := Prod.mk.inj taken
      refine ⟨rfl, rfl, same, ?_⟩
      split <;> simp_all
  spentOnce pre stretch post h quiet := by
    subst h
    obtain ⟨u, hu, -⟩ := run.of_append
    obtain ⟨v, -, hstretch⟩ := hu.of_append
    have := hstretch.spent_le quiet
    have := v.board.interrupt.kept.toNat_le
    omega

/-! ### A kick that nobody waited for -/

namespace Station

/-- A board that finds a nonce by itself in every third wait. -/
def thirdBoard : SimulatedBoard := { nonceEvery := some 3 }

/-- That board after a kick and a push. -/
def pushedBoard : SimulatedBoard := thirdBoard.kick.pushNonce 7

/-- That board after three waits, of which the first finds the nonce that was pushed, the second
ends early because of the kick, and the third finds a nonce of the board. -/
def waitedBoard : SimulatedBoard := pushedBoard.beginWait.1.beginWait.1.beginWait.1

/-- That board while a fourth wait is under way and another nonce is pushed. -/
def listenedBoard : SimulatedBoard := waitedBoard.beginWait.1.pushNonce 9

end Station

open Station in
/-- The signal is kept of a kick, and three nonces are delivered all the same. -/
theorem delivers_of_kick : ∃ turns t, Runs ⟨thirdBoard, .away⟩ turns t ∧
    turns.flatMap Turn.fired = [7, 3, 9] ∧ t.board.nonces = [] ∧
    Delivers ⟨thirdBoard, .away⟩ turns t := by
  have pushed := (runs_kick thirdBoard .away).append (runs_pushNonce _ .away 7)
  obtain ⟨first, hfirst, found⟩ := runs_of_ended (b := pushedBoard) (x := some 7) rfl
  obtain ⟨second, hsecond, early⟩ := runs_of_ended (b := pushedBoard.beginWait.1) (x := none) rfl
  obtain ⟨third, hthird, own⟩ :=
    runs_of_ended (b := pushedBoard.beginWait.1.beginWait.1) (x := some 3) rfl
  obtain ⟨fourth, hfourth, listens⟩ := runs_of_listening (b := waitedBoard) rfl
  obtain ⟨last, hlast, ends⟩ := runs_finishWait (b := listenedBoard) (x := some 9) rfl
  have run := ((((pushed.append found).append early).append own).append listens).append
    ((runs_pushNonce _ _ 9).append ends)
  refine ⟨_, _, run, ?_, rfl, delivers_in_order run⟩
  simp only [List.flatMap_append, hfirst, hsecond, hthird, hfourth, hlast]
  rfl

end HashBoard
