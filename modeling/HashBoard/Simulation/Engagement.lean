import HashBoard.Simulation.Session

/-!
# Engagements of a worker

An engagement brings up one simulated board and lets a worker run on it to the worker's end. A
visitor can do things meanwhile at times counted from the end of the bring-up, and the source of
synthetic work may run beside the worker.
-/

namespace HashBoard

open Simulation Routine

/-- What is set up before an engagement. -/
structure Engagement (ν : Type) extends Setup ν where
  /-- Where epochs are looked up. -/
  almanac : Almanac := .listed []
  /-- Work that is published before the worker starts; only the last is seen. Where work is
  synthetic each stands for the next piece. -/
  published : List Work := []
  /-- Somebody takes nonces. -/
  sinkOpen : Bool := true
  /-- The source of work that runs beside the worker. -/
  source : Option Synthetic := none
  /-- What is done meanwhile. -/
  visits : List Visit := []

/-- What is taken down of an engagement whose board could be brought up. -/
structure EngagementReport (ν : Type) where
  /-- How the worker ended. -/
  result : Except BoardError Unit
  /-- When the board was brought up. -/
  broughtUp : Micros
  /-- The state of things when the worker ended, with everything since the beginning. -/
  entry : Entry ν
  /-- Nonces that were handed over. -/
  solutions : List Solution
  /-- Epochs that were looked up in a list, in order. -/
  asked : List Word
  /-- The connection is open. -/
  connected : Bool

namespace Engagement

variable {ν : Type} [Quantity ν]

/-- The source as a task. -/
def sourceTask (kind : Synthetic) : Task ν := .start { role := .source, board := 0 } kind.run

/-- What is done before the worker starts: the work is published. -/
def opening (e : Engagement ν) (b : Board) : Routine ν Unit :=
  e.published.forM fun work ↦ ((Deed.publish (some work)).under e.almanac).perform b 0

/-- The visits, each deed with what it comes to. -/
def visitsMade (e : Engagement ν) : List Visit :=
  e.visits.map fun visit ↦ { visit with deed := visit.deed.under e.almanac }

/-- Lets the worker run with the source beside it, once the work is published. -/
def worked? (e : Engagement ν) (w : World ν) (b : Board) :
    Option (World ν × Except BoardError Unit) :=
  let source : List (Task ν) := (e.source.map sourceTask).toList
  (World.play? { w with sinkOpen := e.sinkOpen } Session.seat (e.opening b) []).bind fun (w, _) ↦
    Session.visited? w b ({}, []) (Worker.run b) source e.visitsMade

/-- Takes down what came of an engagement. -/
def takeDown (broughtUp : Micros) (w : World ν) (result : Except BoardError Unit) :
    World ν × EngagementReport ν :=
  let (w', entry) := Session.takeDown w .nothing
  (w', { result, broughtUp, entry, solutions := w.solutions.reverse, asked := w.asked.reverse,
         connected := (w.site 0).link.board.connected })

/-- Runs an engagement. The answer is an error if the board cannot be brought up, and nothing if the
worker would never end. -/
def run? (e : Engagement ν) :
    Option (World ν × Except (HostError ⊕ BoardError) (EngagementReport ν)) :=
  match Session.bringUp? e.toSetup (Session.world e.toSetup e.almanac) with
  | none => none
  | some (w, .error error) => some (w, .error error)
  | some (w, .ok b) =>
    match e.worked? w b with
    | none => none
    | some (w', result) =>
      let (w', report) := takeDown w.now w' result
      some (w', .ok report)

end Engagement

/-! ## The source alone -/

/-- What is taken down of a source of synthetic work without a board. -/
structure SourceReport (ν : Type) where
  /-- The work that was asked for piece by piece, in order. -/
  published : List Work
  /-- The work in the feed at the end. -/
  latest : Option Work
  /-- What was said, in order. -/
  log : List (Logged ν)

namespace Synthetic

variable {ν : Type} [Quantity ν] (s : Synthetic)

/-- The seat of whoever asks for synthetic work. -/
def seat : Seat := { role := .main, board := 0 }

/-- Publishes the next `n` pieces of work and lists them. -/
def publishMany : (n : Nat) → Routine ν (List Work)
  | 0 => pure []
  | n + 1 => do
    s.publishNext
    let work ← request .latestWork
    let rest ← publishMany n
    pure (work.toList ++ rest)

/-- Lets time pass, then tells the source to stop and waits for it. -/
def letRun (span : Micros) : Routine ν Unit := do
  sleep span
  request .cancel
  request .settle

/-- Asks for `n` pieces of work one by one, then lets the source run for some time, if it is any.
Nothing is the answer if it would never end. -/
def report? (n : Nat) (span : Micros) : Option (SourceReport ν) :=
  let w : World ν := { sites := #[], almanac := .synthetic s }
  (w.play? seat (s.publishMany n) []).bind fun (w, published, _) ↦
    let ran :=
      if span = 0 then some w
      else (w.play? seat (letRun span) [Engagement.sourceTask s]).map fun (w, _, _) ↦ w
    ran.map fun w ↦ { published, latest := w.feed.latest, log := w.log.reverse }

end Synthetic

end HashBoard
