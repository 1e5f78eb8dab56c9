import HashBoard.Proofs.Board.Brief
import HashBoard.Proofs.Epoch.Asks

/-!
# The parts of an epoch change come to an end

The waits for the board are bounded by the number of looks, uploads and copies by the number of
pieces. So every part of an epoch change comes to its end, whoever answers.
-/

namespace HashBoard.Board

open Routine

variable {ν : Type} {b : Board}

theorem brief_enter (phase : EpochPhase) : (enter phase : Routine ν _).Brief :=
  (brief_note _).bind fun _ ↦ brief_request _

/-! ## Waiting -/

theorem brief_suspend (span : Micros) : (suspend span : Routine ν _).Brief :=
  fun _ _ _ ↦ trivial

/-- A wait ends after so many looks at the latest. -/
theorem brief_await (a : Awaited ν) {watch : Nat → Routine ν Unit} (hw : ∀ n, (watch n).Brief)
    (n : Nat) (status : Word) : (b.await a watch n status).Brief := by
  induction n generalizing status with
  | zero =>
    rw [await]
    split
    · trivial
    · intro cancelled
      cases cancelled with
      | true => trivial
      | false =>
        refine (brief_escalate _ _).bind fun x ↦ ?_
        cases x with
        | error e => trivial
        | ok => exact fun _ ↦ trivial
  | succ n ih =>
    rw [await]
    split
    · trivial
    · intro cancelled
      cases cancelled with
      | true => trivial
      | false =>
        refine (brief_suspend _).bind fun _ ↦ (brief_read _).bind fun x ↦ ?_
        cases x with
        | ok status => exact (hw n).bind fun _ ↦ ih status
        | error fault =>
          refine (brief_escalate _ _).bind fun x ↦ ?_
          cases x with
          | error e => trivial
          | ok => exact (brief_note _).bind fun _ ↦ (hw n).bind fun _ ↦ ih status

/-! ## The light cache -/

theorem brief_awaitCache (started : Micros) : (awaitCache b started : Routine ν _).Brief := by
  refine (brief_tryWrite _ _ _).bind fun _ ↦ ?_
  refine (brief_await _ (fun _ ↦ brief_done ()) _ _).bind fun x ↦ ?_
  cases x with
  | error e => trivial
  | ok status => exact (brief_request _).bind fun _ ↦ (brief_note _).bind fun _ ↦ trivial

theorem brief_deriveCache (ctx : EpochContext) (parents : Word) :
    (b.deriveCache ctx parents : Routine ν _).Brief := by
  refine (brief_note _).bind fun _ ↦ (brief_request _).bind fun started ↦ ?_
  refine (brief_tryWrite _ _ _).bind fun _ ↦ (brief_tryWrite _ _ _).bind fun _ ↦ ?_
  intro x
  have rest : (awaitCache b started : Routine ν _).Brief := brief_awaitCache started
  cases x with
  | ok => exact rest
  | error fault => exact (brief_note _).bind fun _ ↦ rest

theorem brief_uploadPiece (piece : ByteArray) (offset : Nat) :
    (uploadPiece piece offset : Routine ν _).Brief := by
  intro x
  cases x with
  | ok => trivial
  | error fault =>
    refine (brief_note _).bind fun _ y ↦ ?_
    cases y with
    | ok => trivial
    | error fault => exact (brief_note _).bind fun _ ↦ trivial

theorem brief_uploadPieces (cache : ByteArray) (n i : Nat) :
    (uploadPieces cache n i : Routine ν _).Brief := by
  induction n generalizing i with
  | zero => trivial
  | succ n ih =>
    intro cancelled
    cases cancelled with
    | true => trivial
    | false =>
      refine (brief_uploadPiece _ _).bind fun x ↦ ?_
      cases x with
      | error e => trivial
      | ok =>
        dsimp only
        split
        · exact (brief_note _).bind fun _ ↦ ih (i + 1)
        · exact ih (i + 1)

theorem brief_uploadCache (ctx : EpochContext) : (uploadCache ctx : Routine ν _).Brief := by
  rw [uploadCache]
  cases ctx.lightCache with
  | none => trivial
  | some cache =>
    refine (brief_note _).bind fun _ ↦ (brief_request _).bind fun started ↦ ?_
    refine (brief_uploadPieces _ _ _).bind fun x ↦ ?_
    cases x with
    | error e => trivial
    | ok => exact (brief_request _).bind fun _ ↦ (brief_note _).bind fun _ ↦ trivial

/-! ## The dataset -/

theorem brief_mentionProgress (range left : Nat) :
    (mentionProgress range left : Routine ν _).Brief := by
  rw [mentionProgress]
  split
  · exact (brief_readOr _ _ _).bind fun _ ↦ brief_note _
  · trivial

theorem brief_firstStatus : (firstStatus : Routine ν _).Brief := by
  refine (brief_read _).bind fun x ↦ ?_
  cases x with
  | ok status => trivial
  | error fault => exact (brief_note _).bind fun _ ↦ trivial

theorem brief_awaitDag (range : Nat) (status : Word) :
    (b.awaitDag range status : Routine ν _).Brief := by
  rw [awaitDag]
  split
  · exact (brief_note _).bind fun _ ↦ trivial
  · exact brief_await _ (brief_mentionProgress range) _ _

theorem brief_generate (ctx : EpochContext) : (b.generate ctx : Routine ν _).Brief := by
  refine (brief_enter _).bind fun _ ↦ (brief_note _).bind fun _ ↦ ?_
  refine (brief_request _).bind fun started ↦ (brief_tryWrite _ _ _).bind fun _ ↦ ?_
  refine brief_firstStatus.bind fun status ↦ (brief_awaitDag _ status).bind fun x ↦ ?_
  cases x with
  | error e => trivial
  | ok status => exact (brief_request _).bind fun _ ↦ (brief_note _).bind fun _ ↦ trivial

theorem brief_move (src dst length : UInt64) : (move src dst length : Routine ν _).Brief :=
  (brief_note _).bind fun _ _ ↦ trivial

theorem brief_spreadPieces (n i : Nat) : (spreadPieces n i : Routine ν _).Brief := by
  induction n generalizing i with
  | zero => trivial
  | succ n ih =>
    intro cancelled
    cases cancelled with
    | true => trivial
    | false =>
      refine (brief_move _ _ _).bind fun x ↦ ?_
      cases x with
      | ok => exact ih (i + 1)
      | error fault => exact (brief_note _).bind fun _ ↦ trivial

theorem brief_spread : (spread : Routine ν _).Brief := by
  refine (brief_enter _).bind fun _ ↦ (brief_note _).bind fun _ ↦ ?_
  refine (brief_request _).bind fun started ↦ (brief_spreadPieces _ _).bind fun x ↦ ?_
  rcases x with e | all
  · trivial
  · cases all with
    | false => trivial
    | true =>
      refine (brief_move _ _ _).bind fun y ↦ ?_
      cases y with
      | error fault => exact (brief_note _).bind fun _ ↦ trivial
      | ok => exact (brief_request _).bind fun _ ↦ (brief_note _).bind fun _ ↦ trivial

end HashBoard.Board
