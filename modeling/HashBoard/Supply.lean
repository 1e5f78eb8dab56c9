import HashBoard.Fault
import HashBoard.Quantity

/-!
# Core supply

Rail A is set by a wiper of 256 positions whose voltage falls with the position along a fitted
curve. Rail B sits behind a regulator that is reached over a two-wire bus, driven by hand through a
queue register: a word with bit 8 opens a transaction with an address, a word with bit 9 closes it.
-/

namespace HashBoard

/-- The voltage of each wiper position. -/
abbrev VoltageTable (ν : Type) := Fin 256 → ν

/-- One register write of a fixed sequence, with the time to wait after it. -/
structure SupplyStep where
  /-- What is written. -/
  value : Word
  /-- Where it is written. -/
  addr : Word
  /-- How long to wait afterwards. -/
  settle : Micros := 0
  deriving DecidableEq, Repr

namespace Supply

variable {ν : Type} [Quantity ν]

/-- Least voltage a rail may be set to, in mV. -/
def minMillivolts : Word := 500

/-- Greatest voltage a rail may be set to, in mV. -/
def maxMillivolts : Word := 920

/-- Refuses a voltage outside the band. -/
def checkRange (rail : Rail) (mv : Word) : Except BoardError Unit :=
  if minMillivolts ≤ mv ∧ mv ≤ maxMillivolts then .ok () else .error (.outOfRange rail mv)

/-! ## Rail A -/

/-- The fitted curve. -/
def curve : VoltageTable ν := fun code ↦
  (0.6 : ν) + (2.661 : ν) /
    (Quantity.ofNat 20 - Quantity.ofNat 2048 / (Quantity.ofNat code.val + (153.6 : ν)))

/-- A voltage in volts. -/
def volts (mv : Word) : ν := Quantity.ofNat mv.toNat / Quantity.ofNat 1000

/-- The voltage of a position. -/
def voltage (table : VoltageTable ν) (code : Nat) : ν := table (Fin.ofNat 256 code)

/-- The position a halving search lands on. -/
def landing (table : VoltageTable ν) (v : ν) : (halvings idx : Nat) → Nat ⊕ Nat
  | 0, idx => .inr idx
  | n + 1, idx =>
    let here := voltage table idx
    if Quantity.lt v here then landing table v n (idx + (1 <<< n))
    else if Quantity.lt here v then landing table v n (idx - (1 <<< n))
    else .inl idx

/-- The first of some positions whose voltage is nearest to `v`. -/
def nearest (table : VoltageTable ν) (v : ν) (best : Nat) : List Nat → Nat
  | [] => best
  | c :: cs =>
    let distance (code : Nat) : ν := Quantity.abs (voltage table code - v)
    nearest table v (if Quantity.lt (distance c) (distance best) then c else best) cs

/-- The position whose voltage is closest to `v`: a halving search from the middle, then a look at
the neighbours of the position it lands on, since the last step can overshoot by one. -/
def closestCode (table : VoltageTable ν) (v : ν) : Nat :=
  if Quantity.le v (table 255) then 255
  else if Quantity.le (table 0) v then 0
  else match landing table v 7 128 with
    | .inl idx => idx
    | .inr idx =>
      let lo := idx - 1
      let hi := min (idx + 1) 255
      nearest table v lo (List.range' (lo + 1) (hi - lo))

/-- The writes that set the wiper. -/
def wiperSteps (code : Nat) : List SupplyStep :=
  [{ value := 0xa, addr := Reg.railACtrl },
    { value := 0x158, addr := Reg.railAFifo },
    { value := 0x00, addr := Reg.railAFifo },
    { value := 0x200 ||| UInt32.ofNat code, addr := Reg.railAFifo },
    { value := 0x1, addr := Reg.railAGo }]

/-! ## Rail B -/

/-- Queues a word for rail B. -/
private def queued (value : Word) : SupplyStep := { value, addr := Reg.railBFifo }

/-- Selects the two-wire port. -/
private def selectPort : SupplyStep := { value := 0xa, addr := Reg.railBCtrl }

/-- Opens a transaction with the regulator, at 7-bit address 0x4d. -/
private def opening : SupplyStep := queued 0x19a

/-- Sends the queue and gives the regulator a second to settle. -/
private def sendAndSettle : SupplyStep :=
  { value := 0x1, addr := Reg.railBGo, settle := 1_000_000 }

/-- Corrects the regulator's loop compensation. -/
def loopFix : List SupplyStep :=
  [selectPort] ++
    ([opening] ++ [0xd0, 0x04, 0x22, 0x08, 0x1c, 0x25c].map queued) ++
    ([opening] ++ [0xd0, 0x04, 0x24, 0x08, 0x22, 0x22c].map queued) ++
    [sendAndSettle]

/-- Corrects the regulator's over-voltage limit on one of its pages. -/
private def overVoltagePage (page : Word) : List SupplyStep :=
  [selectPort, opening] ++ [0xd0, 0x04, 0xaa, page, 0xf3, 0x2e0].map queued ++ [sendAndSettle]

/-- Corrects the regulator's over-voltage limit, first in its loadable and then in its working
memory. -/
def overVoltageFix : List SupplyStep := overVoltagePage 0x0a ++ overVoltagePage 0x06

/-- A voltage in the regulator's unit of 1/256 V, to the nearest. -/
def railBCode (ν : Type) [Quantity ν] (mv : Word) : Word :=
  Quantity.word (Quantity.round ((volts mv : ν) * Quantity.ofNat 256))

/-- The writes that set the voltage of a code. -/
def railBSteps (code : Word) : List SupplyStep :=
  [selectPort, opening] ++
    [0xd0, 0x04, 0x42, 0x06, code &&& 0xff, (0x200 : Word) ||| (code >>> 8)].map queued ++
    [{ value := 0x1, addr := Reg.railBGo }]

end Supply

end HashBoard
