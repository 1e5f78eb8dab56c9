import HashBoard.Board.Call
import HashBoard.Simulation.Signal
import HashBoard.Simulation.Table

/-!
# Simulated boards

A board that exists as a register file with just enough behaviour for a driver to run on it: the
generators are finished as soon as they are started, the clock generator is always locked, and
registers can be made to advance with every read. What reaches the board is recorded, and reads,
writes, copies and interrupts can be made to fail.

Nonces queue up until a wait for an interrupt takes the first of them. A wait that finds a nonce
takes it without touching the signal; any other wait ends when the signal does or when its time is
up, and takes whatever is there by then.
-/

namespace HashBoard

open Simulation Text

/-- A simulated board. -/
structure SimulatedBoard where
  /-- The register file; what is not in it is zero. -/
  registers : Table Word Word := []
  /-- Values that reads of a register give before the register file is asked. -/
  scripts : Table Word (List Word) := []
  /-- What is added to a register after each read of it. -/
  steps : Table Word Word := []
  /-- Registers that cannot be read. -/
  brokenReads : List Word := []
  /-- Registers that cannot be written. -/
  brokenWrites : List Word := []
  /-- Number of reads of each register. -/
  reads : Table Word Nat := []
  /-- Writes, the last first. -/
  writes : List (Word × Word) := []
  /-- Bulk writes, the last first. -/
  bulkWrites : List (Word × List UInt8 × Bool) := []
  /-- Address and length of the copies from the host, the last first. -/
  uploads : List (UInt64 × Nat) := []
  /-- How many more copies from the host to an address fail. -/
  uploadFailures : Table UInt64 Nat := []
  /-- Source, destination and length of the copies within the stacks, the last first. -/
  moves : List (UInt64 × UInt64 × UInt64) := []
  /-- The number of the copy within the stacks that fails. -/
  brokenMove : Option Nat := none
  /-- Nonces that wait to be taken. -/
  nonces : List UInt64 := []
  /-- How many waits there are for each nonce the board finds by itself. -/
  nonceEvery : Option Word := none
  /-- Number of waits for an interrupt. -/
  waits : Word := 0
  /-- Waiting for an interrupt fails. -/
  interruptsBroken : Bool := false
  /-- The generators do not finish. -/
  holding : Bool := false
  /-- The interrupt lines that were taken over. -/
  mask : Word := 0
  /-- How long a call may take, once it was set. -/
  timeout : Option Micros := none
  /-- The connection is open. -/
  connected : Bool := true
  /-- Ends a wait for an interrupt. -/
  interrupt : Signal := {}
  deriving Inhabited

namespace SimulatedBoard

/-- A healthy board with its core at 500 MHz. -/
def healthy : SimulatedBoard where
  registers :=
    [(Reg.deviceType, 0x4842_4d31), (Reg.bitstreamVersion, 0x0302_0001),
      (Reg.identityLo, 0x4000_1234), (Reg.identityMid, 0x0123_4567),
      (Reg.identityHi, 0x89ab_cdef), (Reg.pllVco, 0x0000_0a01), (Reg.pllClk0, 0x0000_0004),
      (Reg.pllStatus, 0x1), (Reg.temperature, 42_533), (Reg.supply, 18_568),
      (Reg.stackHealth, 0x1716b)]
  steps := [(Reg.stallCount, 1)]

/-- A healthy board that also counts checks and finds a nonce now and then. -/
def mining : SimulatedBoard :=
  { healthy with
    steps := [(Reg.stallCount, 1), (Reg.checksLo, 250_000)]
    nonceEvery := some 50 }

variable (b : SimulatedBoard)

/-- The contents of a register. -/
def register (addr : Word) : Word := b.registers.getD addr 0

/-- The board with other contents of a register. -/
def setRegister (addr value : Word) : SimulatedBoard :=
  { b with registers := b.registers.put addr value }

/-- A failure of an access to a register. -/
def accessFailed (access : String) (addr : Word) : LinkFault :=
  .io (access ++ " 0x" ++ hexPadded 4 addr.toNat ++ " failed")

/-- Reads a register. -/
def read (addr : Word) : SimulatedBoard × Except LinkFault Word :=
  let b := { b with reads := b.reads.put addr (b.reads.getD addr 0 + 1) }
  if addr ∈ b.brokenReads then (b, .error (accessFailed "read" addr))
  else match b.scripts.getD addr [] with
    | value :: rest => ({ b with scripts := b.scripts.put addr rest }, .ok value)
    | [] =>
      let value := b.register addr
      match b.steps.get? addr with
      | some step => (b.setRegister addr (value + step), .ok value)
      | none => (b, .ok value)

/-- What a register holds after a write: a generator that is started is finished at once. -/
def settled (value addr : Word) : Word :=
  if b.holding then value
  else if addr = Reg.cacheControl ∧ value = Reg.cacheStart then Reg.cacheDone
  else if addr = Reg.dagControl ∧ value = Reg.dagStart then Reg.dagDone
  else value

/-- Writes a register. -/
def write (value addr : Word) : SimulatedBoard × Except LinkFault Unit :=
  if addr ∈ b.brokenWrites then (b, .error (accessFailed "write" addr))
  else
    ({ b.setRegister addr (b.settled value addr) with writes := (addr, value) :: b.writes }, .ok ())

/-- The word of four bytes, the first one highest. -/
def wordOfBytes (b0 b1 b2 b3 : UInt8) : Word :=
  (b0.toUInt32 <<< 24) ||| (b1.toUInt32 <<< 16) ||| (b2.toUInt32 <<< 8) ||| b3.toUInt32

/-- The word of four bytes: the first one is the highest if they are to be swapped, and the lowest
if not. -/
def wordInOrder (swap : Bool) (b0 b1 b2 b3 : UInt8) : Word :=
  if swap then wordOfBytes b0 b1 b2 b3 else wordOfBytes b3 b2 b1 b0

/-- The words of bytes, with zero bytes behind the last ones. -/
def wordsOfBytes (swap : Bool) : List UInt8 → List Word
  | b0 :: b1 :: b2 :: b3 :: rest => wordInOrder swap b0 b1 b2 b3 :: wordsOfBytes swap rest
  | [b0, b1, b2] => [wordInOrder swap b0 b1 b2 0]
  | [b0, b1] => [wordInOrder swap b0 b1 0 0]
  | [b0] => [wordInOrder swap b0 0 0 0]
  | [] => []

/-- The board with words in neighbouring registers. -/
def setRegisters : (addr : Word) → List Word → SimulatedBoard → SimulatedBoard
  | _, [], b => b
  | addr, w :: rest, b => setRegisters (addr + 4) rest (b.setRegister addr w)

/-- Writes neighbouring registers. -/
def writeBulk (bytes : List UInt8) (addr : Word) (swap : Bool) :
    SimulatedBoard × Except LinkFault Unit :=
  if addr ∈ b.brokenWrites then (b, .error (accessFailed "bulk write" addr))
  else
    let b := setRegisters addr (wordsOfBytes swap bytes) b
    ({ b with bulkWrites := (addr, bytes, swap) :: b.bulkWrites }, .ok ())

/-- Takes a copy of some length from the host. -/
def upload (length : Nat) (addr : UInt64) : SimulatedBoard × Except LinkFault Unit :=
  match b.uploadFailures.getD addr 0 with
  | 0 => ({ b with uploads := (addr, length) :: b.uploads }, .ok ())
  | left + 1 => ({ b with uploadFailures := b.uploadFailures.put addr left }, .error .timeout)

/-- Copies within the stacks. -/
def move (src dst length : UInt64) : SimulatedBoard × Except LinkFault Unit :=
  if b.brokenMove = some b.moves.length then (b, .error (.io "copy engine fault"))
  else ({ b with moves := (src, dst, length) :: b.moves }, .ok ())

/-! ## Interrupts -/

/-- Queues a nonce and ends a wait. -/
def pushNonce (nonce : UInt64) : SimulatedBoard :=
  { b with nonces := b.nonces ++ [nonce], interrupt := b.interrupt.raise }

/-- Ends a wait. -/
def kick : SimulatedBoard := { b with interrupt := b.interrupt.raise }

/-- Takes the first nonce of the queue. -/
def takeNonce : SimulatedBoard × Option UInt64 :=
  match b.nonces with
  | [] => (b, none)
  | nonce :: rest => ({ b with nonces := rest }, some nonce)

/-- Counts a wait; every so many waits the board finds a nonce by itself. -/
def countWait : SimulatedBoard :=
  let waits := b.waits + 1
  let found : List UInt64 :=
    match b.nonceEvery with
    | some every =>
      if waits % every = 0 then
        [((b.register Reg.startNonceHi).toUInt64 <<< 32 ||| (b.register Reg.startNonceLo).toUInt64)
          + waits.toUInt64]
      else []
    | none => []
  { b with waits, nonces := b.nonces ++ found }

/-- Begins a wait for an interrupt. It ends at once if it fails, if a nonce is there, or if the
signal was kept; otherwise somebody waits from now on and there is no answer yet. -/
def beginWait : SimulatedBoard × Option (Except LinkFault (Option UInt64)) :=
  if b.interruptsBroken then (b, some (.error .disconnected))
  else
    let b := b.countWait
    match b.takeNonce with
    | (b, some nonce) => (b, some (.ok (some nonce)))
    | (b, none) =>
      let (interrupt, ended) := b.interrupt.begin
      ({ b with interrupt }, if ended then some (.ok none) else none)

/-- Ends a wait for an interrupt, whatever ended it. -/
def finishWait : SimulatedBoard × Except LinkFault (Option UInt64) :=
  let (b, nonce) := { b with interrupt := b.interrupt.finish }.takeNonce
  (b, .ok nonce)

/-- Makes a call that takes no time; a wait for an interrupt ends at once. -/
def perform : (c : Call) → SimulatedBoard × c.Answer
  | .setTimeout span => ({ b with timeout := some span }, .ok ())
  | .enableInterrupts mask => ({ b with mask := b.mask ||| mask }, .ok ())
  | .read addr => b.read addr
  | .write value addr => b.write value addr
  | .writeBulk bytes addr swap => b.writeBulk bytes addr swap
  | .upload bytes addr => b.upload bytes.size addr
  | .move src dst length => b.move src dst length
  | .awaitInterrupt .. =>
    match b.beginWait with
    | (b, some answer) => (b, answer)
    | (b, none) => b.finishWait
  | .kick => (b.kick, ())
  | .disconnect => ({ b with connected := false }, ())

/-! ## What was recorded -/

/-- Values written to a register, in order. -/
def writesTo (addr : Word) : List Word :=
  ((b.writes.filter fun w ↦ w.1 = addr).map Prod.snd).reverse

/-- How often a register was read. -/
def readCount (addr : Word) : Nat := b.reads.getD addr 0

/-- The board with nothing recorded. -/
def clearLog : SimulatedBoard :=
  { b with writes := [], bulkWrites := [], uploads := [], moves := [], reads := [] }

end SimulatedBoard

end HashBoard
