import HashBoard.Dag.Phase
import HashBoard.Intensity
import HashBoard.Pll
import HashBoard.Rate
import HashBoard.Stacks

/-!
# What a driver remembers of a board

Three kinds of memory. The flags are read and set by every party at any time. The controller's state
is touched only by whoever holds the access lock. The status is a snapshot for onlookers.
-/

namespace HashBoard

/-- A snapshot of a board for onlookers. -/
structure Status (ν : Type) where
  /-- Rate of the last sample. -/
  hashRate : HashRate
  /-- Averages of the last flush. -/
  averages : Averages ν
  /-- Number of nonces reported. -/
  solutions : Nat
  /-- Epoch of the last successful epoch change. -/
  epoch : Option Word
  /-- Core clock in MHz. -/
  clock : ν
  /-- The last telemetry sample. -/
  telemetry : Option (Telemetry ν)
  /-- A search is running. -/
  searching : Bool
  /-- How far an epoch change has come. -/
  phase : EpochPhase

/-- Everything that is remembered of a board. -/
structure Memory (ν : Type) where
  /-- There is fresh work, or another reason to leave the search. -/
  newWork : Bool
  /-- An epoch is being changed, or the board halted itself. -/
  busy : Bool
  /-- The board halted itself; this is never taken back. -/
  halted : Bool
  /-- The core clock. -/
  clock : ClockState ν
  /-- Counts and windows of the averages. -/
  averager : Averager ν
  /-- Pacing of the most recent search. -/
  applied : Intensity
  /-- Tuning is on. -/
  autoTune : Bool
  /-- Epoch of the last successful epoch change. -/
  lastEpoch : Option Word
  /-- The snapshot. -/
  status : Status ν

namespace Memory

variable {ν : Type} [Quantity ν]

/-- The memory of a board that was just connected. -/
def start (now : Micros) (autoTune : Bool) : Memory ν :=
  let zero : ν := Quantity.ofNat 0
  { newWork := false
    busy := false
    halted := false
    clock := ⟨zero, zero, zero⟩
    averager := Averager.start now
    applied := {}
    autoTune
    lastEpoch := none
    status :=
      { hashRate := 0
        averages := ⟨zero, zero, zero, zero⟩
        solutions := 0
        epoch := none
        clock := zero
        telemetry := none
        searching := false
        phase := .idle } }

/-- The memory with a changed snapshot. -/
def withStatus (m : Memory ν) (f : Status ν → Status ν) : Memory ν :=
  { m with status := f m.status }

/-- The memory with a changed clock. -/
def withClock (m : Memory ν) (f : ClockState ν → ClockState ν) : Memory ν :=
  { m with clock := f m.clock }

end Memory

end HashBoard
