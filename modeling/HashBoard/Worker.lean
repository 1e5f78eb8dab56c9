import HashBoard.Board.EpochChange
import HashBoard.Board.Handle
import HashBoard.Board.Search

/-!
# Workers

A worker follows the latest published work: it prepares the board when the epoch changes, and keeps
the board searching otherwise. Work that is published while a search runs reaches it through the
kicker, a task beside the worker that turns publications into reasons to look for other work.
-/

namespace HashBoard.Worker

open Routine Board

variable {ν : Type} [Quantity ν]

/-- How long a worker parks when it has nothing to do. -/
def idlePark : Micros := 3_000_000

/-- Parks until kicked, shut down, or long enough. -/
def idle : Routine ν Unit := request (.park idlePark)

/-- Turns every publication after the one with number `seen` into a kick, until no more will
come. -/
def kicker (seen : Nat) : Routine ν Unit :=
  repeating seen fun seen ↦ do
    match ← request (.nextChange seen) with
    | some latest => do
      kick
      pure (.inl latest)
    | none => pure (.inr ())

/-- What a round of a worker leads to: another round with the epoch the board is prepared for, or
the end. -/
abbrev Turn := Option Word ⊕ Except BoardError Unit

/-- Parks, then goes on. -/
def idleThen (epoch : Option Word) : Routine ν Turn := do
  idle
  pure (.inl epoch)

/-- Prepares the board for the epoch of some work. Generating takes a while, so the next round looks
for newer work. -/
def prepare (b : Board) (epoch : Option Word) (wanted : Word) : Routine ν Turn := do
  match ← request (.epochContext wanted) with
  | none => do
    note (.unknownEpoch wanted)
    idleThen epoch
  | some ctx =>
    match ← b.prepareEpoch ctx with
    | .ok _ => pure (.inl (some wanted))
    | .error .cancelled => pure (.inr (.ok ()))
    | .error e =>
      if e.isTerminal then pure (.inr (.error e))
      else do
        note (.epochNotPrepared wanted e)
        idleThen epoch

/-- What a worker does about the latest work. -/
def serve (b : Board) (epoch : Option Word) (work : Work) : Routine ν Turn := do
  if !work.isSupported then
    note (.unsupportedWork work.algorithm)
    pure (.inr (.error (.unsupportedWork work.algorithm)))
  else if (← memory).halted then idleThen epoch
  else if epoch ≠ some work.epoch then prepare b epoch work.epoch
  else if ← isBusy then idleThen epoch
  else
    match ← b.search work with
    | .ok _ => pure (.inl epoch)
    | .error e => pure (.inr (.error e))

/-- One round of a worker. A kick that lands after the flag is cleared ends the next search. -/
def turn (b : Board) (epoch : Option Word) : Routine ν Turn := do
  if ← isCancelled then pure (.inr (.ok ()))
  else
    revise fun m ↦ { m with newWork := false }
    match ← request .latestWork with
    | none => idleThen epoch
    | some work => serve b epoch work

/-- Serves the latest work until shutdown or a fatal error. -/
def workLoop (b : Board) : Routine ν (Except BoardError Unit) := do
  match ← repeating none (turn b) with
  | .error e => pure (.error e)
  | .ok () => do
    let s := (← memory).status
    note (.workerStopped s.solutions s.epoch s.hashRate)
    pure (.ok ())

/-- Runs a worker to its end. The board is disconnected however it ends. -/
def run (b : Board) : Routine ν (Except BoardError Unit) := do
  let seen ← request .subscribe
  request (.startKicker seen)
  let result ← workLoop b
  request .stopKicker
  disconnect
  pure result

end HashBoard.Worker
