import HashBoard.Fault

/-!
# Calls to a board

Everything a driver can do to a board over its connection. A call either succeeds or fails with a
link fault; only the wait for an interrupt takes time.
-/

namespace HashBoard

/-- A call over the connection to a board. -/
inductive Call
  /-- Sets how long a call may take. -/
  | setTimeout (span : Micros)
  /-- Takes over the interrupt lines of a mask. -/
  | enableInterrupts (mask : Word)
  /-- Reads a register. -/
  | read (addr : Word)
  /-- Writes a register and reads it back to confirm. -/
  | write (value addr : Word)
  /-- Writes neighbouring registers from bytes, swapping the bytes of each word if asked to. -/
  | writeBulk (bytes : List UInt8) (addr : Word) (swap : Bool)
  /-- Copies bytes from the host into the memory stacks. -/
  | upload (bytes : ByteArray) (addr : UInt64)
  /-- Copies within the memory stacks. -/
  | move (src dst length : UInt64)
  /-- Waits for an interrupt; the answer is the nonce that came with it, or nothing. -/
  | awaitInterrupt (mask : Word) (timeout : Micros)
  /-- Ends a wait for an interrupt. -/
  | kick
  /-- Closes the connection. -/
  | disconnect

/-- What a call is answered with. -/
abbrev Call.Answer : Call → Type
  | .read _ => Except LinkFault Word
  | .awaitInterrupt .. => Except LinkFault (Option UInt64)
  | .kick | .disconnect => Unit
  | .setTimeout _ | .enableInterrupts _ | .write .. | .writeBulk .. | .upload .. | .move .. =>
    Except LinkFault Unit

end HashBoard
