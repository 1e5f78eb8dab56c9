import HashBoard.Routine.Basic

/-!
# Register access

Reads and writes of a driver that holds the access lock. Every access is mentioned: a read after it
succeeded, a write before it is attempted. Most faults are absorbed here, by assuming a value or by
going on; which ones are not is up to the caller.
-/

namespace HashBoard.Routine

variable {ν : Type}

/-- Reads a register. -/
def read (addr : Word) : Routine ν (Except LinkFault Word) := do
  match ← call (.read addr) with
  | .ok value => do
    note (.registerRead addr value)
    pure (.ok value)
  | .error fault => pure (.error fault)

/-- Reads a register, assuming a value if that fails. -/
def readOr (addr default : Word) (what : String) : Routine ν Word := do
  match ← read addr with
  | .ok value => pure value
  | .error fault => do
    note (.assumed what default addr fault)
    pure default

/-- Writes a register. -/
def write (value addr : Word) : Routine ν (Except LinkFault Unit) := do
  note (.registerWrite addr value)
  call (.write value addr)

/-- Writes a register and goes on if that fails. -/
def tryWrite (value addr : Word) (what : String) : Routine ν Unit := do
  match ← write value addr with
  | .ok () => pure ()
  | .error fault => note (.writeFailed what addr fault)

/-- Writes the words of a hash to eight neighbouring registers, the first byte of each word as its
highest. -/
def writeHash (bytes : List UInt8) (addr : Word) : Routine ν (Except LinkFault Unit) :=
  call (.writeBulk bytes addr true)

/-- Copies within the memory stacks. -/
def move (src dst length : UInt64) : Routine ν (Except LinkFault Unit) := do
  note (.copying src dst length)
  call (.move src dst length)

/-- Stops the hash core. The intensity is walked down first, so that the supply does not see the
whole load drop at once; if the flags cannot be read the core is stopped hard. -/
def stopCore : Routine ν Unit := do
  match ← read Reg.coreFlags with
  | .ok flags => forEach (tryWrite · Reg.coreFlags "ramped intensity") (Intensity.ramp flags)
  | .error fault => note (.rampFailed fault)
  tryWrite Reg.coreOff Reg.coreEnable "core disable"

end HashBoard.Routine
