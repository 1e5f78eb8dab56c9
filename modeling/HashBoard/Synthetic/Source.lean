import HashBoard.Routine.Basic

/-!
# The source of synthetic work

Publishes the next synthetic work at once and then once an interval, counted from the start.
-/

namespace HashBoard.Synthetic

open Routine

variable {ν : Type} (s : Synthetic)

/-- Publishes the next work. -/
def publishNext : Routine ν Unit := do
  let serial ← request .nextSerial
  let work := s.work serial
  note (.workPublished work.header serial)
  request (.publish (some work))

/-- Publishes work until shutdown. -/
def run : Routine ν Unit := do
  note (.sourceStarted s.epoch s.interval)
  let start ← now
  repeating start fun due ↦ do
    if ← request (.tick due) then
      s.publishNext
      pure (.inl (due + s.interval))
    else pure (.inr ())
  note .sourceStopped

end HashBoard.Synthetic
