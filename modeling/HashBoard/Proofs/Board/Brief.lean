import HashBoard.Proofs.Routine.Brief
import HashBoard.Worker

/-!
# Clock changes and telemetry come to an end

Everything that is asked of the clock has a bound, the wait for its lock included, and so has a
telemetry sample.
-/

namespace HashBoard.Board

open Routine

variable {ν : Type} [Quantity ν]

omit [Quantity ν] in
theorem brief_escalate {b : Board} (what cause : String) :
    (b.escalate what cause : Routine ν _).Brief := by
  rw [escalate]
  split
  · exact (brief_note _).bind fun _ ↦ trivial
  · trivial

/-! ## The clock -/

theorem brief_readPll : (readPll : Routine ν _).Brief := by
  refine (brief_read _).bind fun x ↦ ?_
  cases x with
  | error fault => exact (brief_note _).bind fun _ ↦ trivial
  | ok vco =>
    refine (brief_read _).bind fun y ↦ ?_
    cases y with
    | error fault => exact (brief_note _).bind fun _ ↦ trivial
    | ok clk =>
      dsimp only
      cases Pll.decode (ν := ν) vco clk with
      | none => exact (brief_note _).bind fun _ ↦ trivial
      | some pll => trivial

omit [Quantity ν] in
theorem brief_awaitLock (n : Nat) : (awaitLock n : Routine ν _).Brief := by
  induction n with
  | zero => trivial
  | succ n ih =>
    refine (brief_read _).bind fun x ↦ ?_
    cases x with
    | error fault => exact ih
    | ok status =>
      dsimp only
      split
      · exact ih
      · trivial

omit [Quantity ν] in
theorem brief_settleClock : (settleClock : Routine ν _).Brief := by
  refine (brief_awaitLock lockPolls).bind fun locked ↦ ?_
  cases locked with
  | false => exact brief_note _
  | true => trivial

omit [Quantity ν] in
theorem brief_resetClock : (resetClock : Routine ν _).Brief := by
  refine (brief_note _).bind fun _ ↦ ?_
  refine (brief_tryWrite _ _ _).bind fun _ ↦ ?_
  refine (brief_tryWrite _ _ _).bind fun _ ↦ ?_
  exact (brief_request _).bind fun _ ↦ brief_tryWrite _ _ _

theorem brief_programDivisor (pll : PllReading ν) (mhz : ν) : (programDivisor pll mhz).Brief := by
  rw [programDivisor]
  cases Pll.divisorFor pll.vco mhz with
  | error e => cases e <;> exact (brief_note _).bind fun _ ↦ trivial
  | ok divisor =>
    refine (brief_tryWrite _ _ _).bind fun _ ↦ ?_
    refine (brief_tryWrite _ _ _).bind fun _ ↦ ?_
    refine (brief_tryWrite _ _ _).bind fun _ ↦ ?_
    refine (brief_tryWrite _ _ _).bind fun _ ↦ ?_
    refine (brief_request _).bind fun _ ↦ ?_
    exact (brief_note _).bind fun _ ↦ trivial

theorem brief_readStock (before : ν) : (readStock before).Brief := by
  refine brief_readPll.bind fun pll ↦ ?_
  cases pll with
  | none => exact (brief_note _).bind fun _ ↦ trivial
  | some pll => exact (brief_request _).bind fun _ ↦ trivial

omit [Quantity ν] in
theorem brief_changingClock {change : Routine ν ν} (h : change.Brief) :
    (changingClock change).Brief := by
  refine (brief_readOr _ _ _).bind fun items ↦ ?_
  refine (brief_readOr _ _ _).bind fun reciprocal ↦ ?_
  refine (brief_readOr _ _ _).bind fun power ↦ ?_
  refine (brief_tryWrite _ _ _).bind fun _ ↦ ?_
  refine h.bind fun clock ↦ ?_
  refine (brief_tryWrite _ _ _).bind fun _ ↦ ?_
  refine (brief_tryWrite _ _ _).bind fun _ ↦ ?_
  refine (brief_tryWrite _ _ _).bind fun _ ↦ ?_
  exact (brief_request _).bind fun _ ↦ trivial

theorem brief_setClock (request : ClockRequest ν) : (setClock request).Brief := by
  refine brief_readPll.bind fun pll ↦ ?_
  cases pll with
  | none => exact (brief_note _).bind fun _ ↦ trivial
  | some pll =>
    cases request with
    | read => exact (brief_request _).bind fun _ ↦ trivial
    | stock =>
      refine brief_changingClock (brief_resetClock.bind fun _ ↦ ?_)
      exact brief_settleClock.bind fun _ ↦ brief_readStock pll.core
    | target mhz =>
      refine brief_changingClock ((brief_programDivisor pll mhz).bind fun clock ↦ ?_)
      exact brief_settleClock.bind fun _ ↦ trivial

/-! ## Watching -/

theorem brief_reading (addr : Word) (ofWord : Word → ν) (unread : LinkFault → Event ν) :
    (reading addr ofWord unread).Brief := by
  refine (brief_read _).bind fun x ↦ ?_
  cases x with
  | ok raw => trivial
  | error fault => exact (brief_note _).bind fun _ ↦ trivial

theorem brief_sample : (sample : Routine ν _).Brief := by
  refine (brief_reading _ _ _).bind fun temperature ↦ ?_
  refine (brief_setClock _).bind fun clock ↦ ?_
  refine (brief_reading _ _ _).bind fun supply ↦ ?_
  exact (brief_readOr _ _ _).bind fun health ↦ trivial

omit [Quantity ν] in
theorem brief_emergencyHalt (health : StackHealth) :
    (emergencyHalt health : Routine ν _).Brief := by
  refine brief_stopCore.bind fun _ ↦ ?_
  refine (brief_tryWrite _ _ _).bind fun _ ↦ ?_
  refine (brief_note _).bind fun _ ↦ ?_
  refine (brief_request _).bind fun _ ↦ ?_
  exact (brief_request (.call .kick)).bind fun _ ↦ brief_request _

theorem brief_checkTelemetry (b : Board) : (b.checkTelemetry : Routine ν _).Brief := by
  refine brief_sample.bind fun t ↦ ?_
  refine (?_ : (b.noteAverages t).Brief).bind fun _ ↦ ?_
  · exact (brief_request _).bind fun m ↦ (brief_request _).bind fun stage ↦ brief_note _
  · have after : (do reviseStatus fun s ↦ { s with telemetry := some t, clock := t.clock }
                     pure t : Routine ν _).Brief := (brief_request _).bind fun _ ↦ trivial
    split
    · exact (brief_emergencyHalt t.health).bind fun _ ↦ after
    · exact after

end HashBoard.Board
