import HashBoard.Endpoint
import HashBoard.Registers

/-!
# What can go wrong

Two layers of causes: a call to a board fails with a `LinkFault`, an operation on a board ends with
a `BoardError`. Almost every link fault is absorbed where it happens; the operations end early only
for the few causes that make going on pointless.
-/

namespace HashBoard

open Text

/-- Why a call to a board failed. -/
inductive LinkFault
  /-- The board could not be reached. -/
  | connect (endpoint reason : String)
  /-- The call went wrong. -/
  | io (text : String)
  /-- No answer in time. -/
  | timeout
  /-- The connection is gone. -/
  | disconnected
  deriving DecidableEq, Repr

/-- The wording of a failed call. -/
def LinkFault.message : LinkFault → String
  | .connect endpoint reason => "cannot connect to " ++ endpoint ++ ": " ++ reason
  | .io text => "I/O error: " ++ text
  | .timeout => "transaction timed out"
  | .disconnected => "disconnected"

/-- A core supply rail. -/
inductive Rail
  /-- Set by a wiper. -/
  | a
  /-- Behind a regulator on a two-wire bus. -/
  | b
  deriving DecidableEq, Repr

/-- The name of a rail. -/
def Rail.display : Rail → String
  | .a => "rail-a"
  | .b => "rail-b"

/-- Why an operation on a board ended. -/
inductive BoardError
  /-- The connection could not be made. -/
  | link (fault : LinkFault)
  /-- A register access failed. -/
  | register (addr : Word) (fault : LinkFault)
  /-- The board did not report something in time. -/
  | overdue (what : String)
  /-- A voltage outside what the rails may be set to. -/
  | outOfRange (rail : Rail) (millivolts : Word)
  /-- Work of an algorithm the board cannot do. -/
  | unsupportedWork (algorithm : String)
  /-- A piece of the light cache could not be uploaded. -/
  | uploadFailed (offset : UInt64)
  /-- No light cache came with the epoch. -/
  | missingCache (epoch : Word)
  /-- A fault that the settings make fatal. -/
  | escalated (reason : String)
  /-- Shutdown was requested. -/
  | cancelled
  /-- The board halted itself and takes no work until restarted. -/
  | halted
  /-- The list of boards was refused. -/
  | hosts (cause : HostError)
  deriving DecidableEq, Repr

namespace BoardError

/-- The wording of an error. -/
def message : BoardError → String
  | .link fault => "transport: " ++ fault.message
  | .register addr fault => "register 0x" ++ hexPadded 4 addr.toNat ++ ": " ++ fault.message
  | .overdue what => "timed out waiting for " ++ what
  | .outOfRange rail mv =>
    rail.display ++ " target " ++ toString mv.toNat ++ "mV outside 500..=920mV"
  | .unsupportedWork algorithm => "algorithm " ++ quoted algorithm ++ " not supported"
  | .uploadFailed offset => "light cache upload failed at offset 0x" ++ hex offset.toNat
  | .missingCache epoch => "no light cache supplied for epoch " ++ toString epoch.toNat
  | .escalated reason => "escalated: " ++ reason
  | .cancelled => "cancelled by shutdown"
  | .halted => "board halted by stack protection"
  | .hosts cause => "config: " ++ cause.message

/-- The wording of the fault that an error passes on, if it does. -/
def passedOn? : BoardError → Option String
  | .link fault | .register _ fault => some fault.message
  | .hosts cause => some cause.message
  | _ => none

/-- Whether an error ends the board's worker. The others are logged and the worker goes on; a
halted board parks its worker rather than ending it. -/
def isTerminal : BoardError → Bool
  | .link _ | .unsupportedWork _ | .escalated _ | .uploadFailed _ | .missingCache _ | .cancelled =>
    true
  | .register .. | .overdue _ | .outOfRange .. | .halted | .hosts _ => false

end BoardError

end HashBoard
