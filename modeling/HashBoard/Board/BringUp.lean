import HashBoard.Board.Basic
import HashBoard.Board.Clock
import HashBoard.Board.Rails

/-!
# Bringing a board up

Connecting, asking the board who it is, and leaving it at the configured voltages and its stock
clock. Only a board that cannot be connected to is an error; every other fault is absorbed.
-/

namespace HashBoard.Board

open Routine

variable {ν : Type} [Quantity ν]

/-- Makes a call that may fail, mentioning the fault. -/
def attempt (c : Routine ν (Except LinkFault Unit)) (failed : LinkFault → Event ν) :
    Routine ν Unit := do
  match ← c with
  | .ok () => pure ()
  | .error fault => note (failed fault)

/-- Reads a word of the identity, assuming a value if that fails. -/
def identityWord (addr default : Word) (what : String) : Routine ν Word := do
  match ← call (.read addr) with
  | .ok value => pure value
  | .error fault => do
    note (.identityUnread what fault)
    pure default

/-- Asks the board who it is. -/
def readIdentity : Routine ν Identity := do
  let lo ← identityWord Reg.identityLo 0 "identity"
  let mid ← identityWord Reg.identityMid 0 "identity"
  let hi ← identityWord Reg.identityHi 0 "identity"
  let deviceType ← identityWord Reg.deviceType Reg.deviceTypeUnknown "device type"
  let bitstream ← identityWord Reg.bitstreamVersion 0 "bitstream version"
  pure { lo, mid, hi, deviceType, bitstream }

/-- Connects to the board, sets the connection up and asks the board who it is. -/
def connect (endpoint : Endpoint) (index : Nat) (settings : Settings) :
    Routine ν (Except BoardError Board) := do
  match ← request (.connect endpoint) with
  | .error fault => pure (.error (.link fault))
  | .ok () => do
    note (.connected endpoint)
    attempt (call (.setTimeout settings.transportTimeout)) .timeoutFailed
    attempt (call (.enableInterrupts Reg.nonceInterrupt)) .interruptsFailed
    let identity ← readIdentity
    let t ← now
    revise fun _ ↦ Memory.start t (0 < settings.autoTune)
    pure (.ok { index, settings, identity })

/-- Chooses the clock to return to after generating: the configured one, or the stock clock. -/
def chooseTarget (b : Board) : Routine ν Unit := do
  let m ← memory
  note (.stockClock m.clock.baseline)
  if b.settings.targetClock = 0 then reviseClock fun c ↦ { c with target := m.clock.baseline }
  else
    note (.targetClock b.settings.targetClock)
    reviseClock fun c ↦ { c with target := Quantity.ofNat b.settings.targetClock.toNat }

/-- Applies a saved tune in place of tuning, if tuning is on and there is one. -/
def loadTune (b : Board) : Routine ν Unit := do
  note (.tuneKey b.tuneKey)
  match b.settings.autoTune, b.settings.tuneFile with
  | 0, _ | _, none => pure ()
  | _, some file =>
    if ← request (.fileExists file) then
      if ← request (.loadTune file b.tuneKey) then
        note (.tuneApplied file)
        revise fun m ↦ { m with autoTune := false }

/-- Sets voltages and clock of a connected board. -/
def configure (b : Board) : Routine ν Unit := do
  note (.identified b.identity)
  acquire
  setVoltage Supply.curve b.settings.railA b.settings.railB
  let _ ← setClock (ν := ν) .stock
  b.chooseTarget
  b.loadTune
  release
  note (.searchSettings b.settings.workDelay b.settings.intensity b.settings.skipStallDetection)

/-- Connects to a board and leaves it in a known state. -/
def bringUp (endpoint : Endpoint) (index : Nat) (settings : Settings) :
    Routine ν (Except BoardError Board) := do
  match ← connect endpoint index settings with
  | .error e => pure (.error e)
  | .ok b => do
    b.configure
    pure (.ok b)

end HashBoard.Board
