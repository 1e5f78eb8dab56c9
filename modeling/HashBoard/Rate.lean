import HashBoard.Decimal.Fixed
import HashBoard.Quantity
import HashBoard.Registers

/-!
# Hash rates

The rate shown is the number of checks of one sample over the time since the sample before. The
averages are kept apart from it: counts are added up, once a minute the sum becomes a one-minute
rate in MH/s, and a plausible one joins two windows of the last 10 and the last 60 such rates.
-/

namespace HashBoard

/-- Hashes per second. -/
abbrev HashRate := UInt64

namespace HashRate

/-- The rate of a count over some seconds; zero over no time. -/
def ofCount {ν : Type} [Quantity ν] (hashes : UInt64) (secs : ν) : HashRate :=
  if Quantity.le secs (Quantity.ofNat 0) then 0
  else Quantity.count (Quantity.ofNat hashes.toNat / secs)

/-- A rate in the largest unit that leaves at least one, with two places. -/
def display (r : HashRate) : String :=
  let scaled (unit : Float) (name : String) : String :=
    Decimal.fixed 2 (Float.ofNat r.toNat / unit) ++ name
  if 1_000_000_000 ≤ r then scaled 1000000000.0 " GH/s"
  else if 1_000_000 ≤ r then scaled 1000000.0 " MH/s"
  else if 1_000 ≤ r then scaled 1000.0 " kH/s"
  else toString r.toNat ++ " H/s"

end HashRate

/-- Averages in MH/s, and the error rate in percent. -/
structure Averages (ν : Type) where
  /-- Rate of the last minute. -/
  oneMinute : ν
  /-- Mean of the short window. -/
  tenMinutes : ν
  /-- Mean of the long window. -/
  sixtyMinutes : ν
  /-- Percentage of results that failed verification. -/
  errorPercent : ν
  deriving Repr

/-- Counts since the last flush, and the windows of one-minute rates, oldest first. -/
structure Averager (ν : Type) where
  /-- Checks since the last flush. -/
  counter : UInt64
  /-- When the counter was last flushed. -/
  lastFlush : Micros
  /-- The last ten plausible rates. -/
  short : List ν
  /-- The last sixty plausible rates. -/
  long : List ν
  /-- Result of the last flush. -/
  latest : Averages ν
  deriving Repr

namespace Averager

variable {ν : Type} [Quantity ν]

/-- Time between flushes: a minute. -/
def flushInterval : Micros := 60_000_000

/-- Length of the short window. -/
def shortWindow : Nat := 10

/-- Length of the long window. -/
def longWindow : Nat := 60

/-- An averager that has seen nothing. -/
def start (now : Micros) : Averager ν :=
  let zero : ν := Quantity.ofNat 0
  { counter := 0, lastFlush := now, short := [], long := [], latest := ⟨zero, zero, zero, zero⟩ }

/-- A window with a sample joined at the end and the oldest dropped beyond `size`. -/
def join (size : Nat) (window : List ν) (sample : ν) : List ν :=
  (window ++ [sample]).drop (window.length + 1 - size)

/-- Mean of a window; zero of an empty one. -/
def mean (window : List ν) : ν :=
  if window.isEmpty then Quantity.ofNat 0
  else window.foldl (· + ·) (Quantity.ofNat 0) / Quantity.ofNat window.length

/-- Whether a one-minute rate joins the windows: strictly between 10 and 100 MH/s. -/
def isPlausible (rate : ν) : Bool :=
  Quantity.lt (Quantity.ofNat 10) rate && Quantity.lt rate (Quantity.ofNat 100)

/-- The sum of two counts, or the greatest count. -/
def addSaturating (a b : UInt64) : UInt64 :=
  if a.toNat + b.toNat < UInt64.size then a + b else 0xffff_ffff_ffff_ffff

/-- The one-minute rate of a count, in MH/s. -/
def rate (counter : UInt64) : ν :=
  Quantity.ofNat counter.toNat / Quantity.ofNat 60 / Quantity.ofNat 1_000_000

/-- Adds a count. Once a minute has passed since the last flush the counter is flushed and the fresh
averages are the answer; a time before the last flush counts as no time. -/
def record (a : Averager ν) (delta : UInt64) (now : Micros) (errorRate : ν) :
    Averager ν × Option (Averages ν) :=
  let counter := addSaturating a.counter delta
  if now - a.lastFlush < flushInterval then ({ a with counter }, none)
  else
    let oneMinute : ν := rate counter
    let short := if isPlausible oneMinute then join shortWindow a.short oneMinute else a.short
    let long := if isPlausible oneMinute then join longWindow a.long oneMinute else a.long
    let latest : Averages ν :=
      { oneMinute, tenMinutes := mean short, sixtyMinutes := mean long,
        errorPercent := errorRate * Quantity.ofNat 100 }
    ({ counter := 0, lastFlush := now, short, long, latest }, some latest)

end Averager

end HashBoard
