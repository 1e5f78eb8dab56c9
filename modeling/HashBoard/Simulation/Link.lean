import HashBoard.Simulation.Disturbance

/-!
# Links

The connection between a driver and a simulated board. Calls of each kind are numbered from the
connection on, and a plan can make the call with a given number fail, in which case it does not
reach the board. Every call is recorded with its answer, a wait for an interrupt when it ends.
-/

namespace HashBoard

open Simulation Text

/-- Kinds of calls that can fail. -/
inductive CallKind
  /-- Setting how long a call may take. -/
  | setTimeout
  /-- Taking over interrupt lines. -/
  | enableInterrupts
  /-- Reading a register. -/
  | read
  /-- Writing a register. -/
  | write
  /-- Writing neighbouring registers. -/
  | writeBulk
  /-- Copying from the host. -/
  | upload
  /-- Copying within the stacks. -/
  | move
  /-- Waiting for an interrupt. -/
  | awaitInterrupt
  deriving DecidableEq, Repr

namespace Call

/-- The kind of a call, if it can fail. -/
def kind? : Call → Option CallKind
  | .setTimeout _ => some .setTimeout
  | .enableInterrupts _ => some .enableInterrupts
  | .read _ => some .read
  | .write .. => some .write
  | .writeBulk .. => some .writeBulk
  | .upload .. => some .upload
  | .move .. => some .move
  | .awaitInterrupt .. => some .awaitInterrupt
  | .kick | .disconnect => none

/-- The answer of a call that fails. -/
def failing (f : LinkFault) : (c : Call) → c.Answer
  | .setTimeout _ | .enableInterrupts _ | .read _ | .write .. | .writeBulk .. | .upload ..
  | .move .. | .awaitInterrupt .. => .error f
  | .kick | .disconnect => ()

/-- Why a call failed, if it did. -/
def fault? : (c : Call) → c.Answer → Option LinkFault
  | .setTimeout _, .error f | .enableInterrupts _, .error f | .read _, .error f
  | .write .., .error f | .writeBulk .., .error f | .upload .., .error f | .move .., .error f
  | .awaitInterrupt .., .error f => some f
  | _, _ => none

end Call

/-- A call with its answer. -/
structure Exchange where
  /-- The call. -/
  call : Call
  /-- Its answer. -/
  answer : call.Answer

/-- Whether a call changes the board or ends the connection. The others read, wait, or set up the
connection. -/
def Exchange.isChange (e : Exchange) : Bool :=
  match e.call with
  | .write .. | .writeBulk .. | .upload .. | .move .. | .disconnect => true
  | .setTimeout _ | .enableInterrupts _ | .read _ | .awaitInterrupt .. | .kick => false

/-- A fault as one word. -/
def LinkFault.kindName : LinkFault → String
  | .connect .. => "Connect"
  | .io _ => "Io"
  | .timeout => "Timeout"
  | .disconnected => "Disconnected"

namespace Exchange

/-- How a call ended, behind its text. -/
def ending (e : Exchange) : String :=
  match e.call.fault? e.answer with
  | some f => "!" ++ f.kindName
  | none => ""

/-- One line for an exchange: a letter for the call, its arguments in hexadecimal, and what came of
it. -/
def line : Exchange → String
  | ⟨.setTimeout span, a⟩ => "t " ++ toString span ++ ending ⟨.setTimeout span, a⟩
  | ⟨.enableInterrupts mask, a⟩ => "m " ++ hex mask.toNat ++ ending ⟨.enableInterrupts mask, a⟩
  | ⟨.read addr, a⟩ =>
    "r " ++ hex addr.toNat ++ (match a with
      | .ok value => "=" ++ hex value.toNat
      | .error f => "!" ++ f.kindName)
  | ⟨.write value addr, a⟩ =>
    "w " ++ hex addr.toNat ++ "=" ++ hex value.toNat ++ ending ⟨.write value addr, a⟩
  | ⟨.writeBulk bytes addr swap, a⟩ =>
    "b " ++ hex addr.toNat ++ "=" ++ hexBytes bytes ++ (if swap then " flip" else "") ++
      ending ⟨.writeBulk bytes addr swap, a⟩
  | ⟨.upload bytes addr, a⟩ =>
    "h " ++ hex addr.toNat ++ "+" ++ hex bytes.size ++ ending ⟨.upload bytes addr, a⟩
  | ⟨.move src dst length, a⟩ =>
    "d " ++ hex src.toNat ++ ">" ++ hex dst.toNat ++ "+" ++ hex length.toNat ++
      ending ⟨.move src dst length, a⟩
  | ⟨.awaitInterrupt mask timeout, a⟩ =>
    "i " ++ hex mask.toNat ++ " " ++ toString timeout ++ (match a with
      | .ok (some nonce) => "=" ++ hex nonce.toNat
      | .ok none => "=none"
      | .error f => "!" ++ f.kindName)
  | ⟨.kick, _⟩ => "k"
  | ⟨.disconnect, _⟩ => "x"

end Exchange

/-- A call that a plan makes fail: the call of a kind with a number, counted from zero. -/
structure PlannedFault where
  /-- Kind of the call. -/
  kind : CallKind
  /-- Number among the calls of its kind. -/
  number : Nat
  /-- How it fails. -/
  fault : LinkFault

/-- The connection between a driver and a simulated board. -/
structure Link where
  /-- The board. -/
  board : SimulatedBoard
  /-- The plan. -/
  plan : List PlannedFault := []
  /-- Number of calls of each kind. -/
  calls : Table CallKind Nat := []
  /-- Calls with their answers, the last first. -/
  exchanges : List Exchange := []
  deriving Inhabited

namespace Link

variable (l : Link)

/-- Counts a call, and tells how it fails if the plan wants that. -/
def count (c : Call) : Link × Option LinkFault :=
  match c.kind? with
  | none => (l, none)
  | some kind =>
    let number := l.calls.getD kind 0
    ({ l with calls := l.calls.put kind (number + 1) },
      (l.plan.find? fun p ↦ p.kind = kind ∧ p.number = number).map (·.fault))

/-- Records an exchange. -/
def record (e : Exchange) : Link := { l with exchanges := e :: l.exchanges }

/-- Makes a call that takes no time. -/
def perform (c : Call) : Link × c.Answer :=
  match l.count c with
  | (l, some f) => (l.record ⟨c, c.failing f⟩, c.failing f)
  | (l, none) =>
    let (board, answer) := l.board.perform c
    ({ l with board }.record ⟨c, answer⟩, answer)

/-- Begins a wait for an interrupt; answers if it ended at once. -/
def beginWait (mask : Word) (timeout : Micros) :
    Link × Option (Except LinkFault (Option UInt64)) :=
  let c : Call := .awaitInterrupt mask timeout
  match l.count c with
  | (l, some f) => (l.record ⟨c, .error f⟩, some (.error f))
  | (l, none) =>
    let (board, answer) := l.board.beginWait
    let l := { l with board }
    match answer with
    | some answer => (l.record ⟨c, answer⟩, some answer)
    | none => (l, none)

/-- Ends a wait for an interrupt, whatever ended it. -/
def finishWait (mask : Word) (timeout : Micros) : Link × Except LinkFault (Option UInt64) :=
  let (board, answer) := l.board.finishWait
  ({ l with board }.record ⟨.awaitInterrupt mask timeout, answer⟩, answer)

/-- Changes the board from outside. -/
def disturb (d : Disturbance) : Link := { l with board := d.apply l.board }

/-- Adds to the plan. -/
def plot (faults : List PlannedFault) : Link := { l with plan := l.plan ++ faults }

end Link

end HashBoard
