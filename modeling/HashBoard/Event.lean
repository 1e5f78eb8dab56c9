import HashBoard.Board.Memory
import HashBoard.Fault
import HashBoard.Identity
import HashBoard.Settings
import HashBoard.Synthetic

/-!
# Events

What is worth a line in the log, as a value: the causes and numbers, not the wording. The wording,
the severity and the order of the fields are in `HashBoard.Event.Line`. Nothing the driver does
depends on which events are shown.
-/

namespace HashBoard

/-- Something worth a line in the log. -/
inductive Event (ν : Type)
  -- access
  /-- A register was read. -/
  | registerRead (addr value : Word)
  /-- A register is about to be written. -/
  | registerWrite (addr value : Word)
  /-- A copy within the memory stacks is about to be made. -/
  | copying (src dst length : UInt64)
  /-- A register could not be read and a value was assumed. -/
  | assumed (what : String) (default addr : Word) (fault : LinkFault)
  /-- A register could not be written. -/
  | writeFailed (what : String) (addr : Word) (fault : LinkFault)
  /-- A fault became fatal. -/
  | escalated (what cause : String)
  /-- The core cannot be walked down. -/
  | rampFailed (fault : LinkFault)
  -- bring-up
  /-- A simulated board is being connected. -/
  | connecting (endpoint : Endpoint)
  /-- A simulated board took a register write. -/
  | simulatedWrite (addr value : Word)
  /-- The connection is made. -/
  | connected (endpoint : Endpoint)
  /-- The call timeout could not be set. -/
  | timeoutFailed (fault : LinkFault)
  /-- The interrupt could not be taken over. -/
  | interruptsFailed (fault : LinkFault)
  /-- A word of the identity could not be read. -/
  | identityUnread (what : String) (fault : LinkFault)
  /-- The identity was read. -/
  | identified (identity : Identity)
  /-- The stock clock is known. -/
  | stockClock (mhz : ν)
  /-- A clock other than the stock clock is configured. -/
  | targetClock (mhz : Word)
  /-- The key of saved tunes. -/
  | tuneKey (key : String)
  /-- A saved tune was applied. -/
  | tuneApplied (file : String)
  /-- How searches will run. -/
  | searchSettings (delay : Micros) (intensity : Intensity) (skipStall : Bool)
  /-- The connection is closed. -/
  | disconnected
  -- clock
  /-- The oscillator word could not be read. -/
  | vcoUnread (fault : LinkFault)
  /-- The divisor word could not be read. -/
  | divisorUnread (fault : LinkFault)
  /-- A divider is zero. -/
  | zeroDivider (vco clk : Word)
  /-- The clock stays because it could not be read. -/
  | clockUnchanged (request : ClockRequest ν)
  /-- A new divisor is programmed. -/
  | clockSet (mhz divisor : ν)
  /-- The requested clock is too fast. -/
  | clockTooFast (requested divisor : ν)
  /-- The requested clock is too slow. -/
  | clockTooSlow (requested divisor : ν)
  /-- The clock is reset to stock. -/
  | clockReset
  /-- The clock generator did not lock. -/
  | unlocked
  /-- The stock clock could not be read back. -/
  | stockUnknown (mhz : ν)
  -- supply
  /-- A regulator write failed. -/
  | regulatorFailed (addr : Word) (fault : LinkFault)
  /-- Rail A is being set. -/
  | settingRailA (mv : Word) (code : Nat) (volts : ν)
  /-- Rail B's corrections are being applied. -/
  | correctingRailB
  /-- Rail B is being set. -/
  | settingRailB (mv code : Word)
  /-- A voltage outside the band was dropped. -/
  | voltageDropped (error : BoardError)
  -- epoch change
  /-- An epoch change reached a phase. -/
  | phase (phase : EpochPhase)
  /-- A halted board was asked to change the epoch. -/
  | haltedEpoch (epoch : Word)
  /-- An epoch change succeeded. -/
  | epochReady (epoch : Word) (outcome : EpochOutcome)
  /-- An epoch change failed. -/
  | epochFailed (epoch : Word) (error : BoardError)
  /-- An epoch change starts. -/
  | changingEpoch (epoch : Word)
  /-- The board holds a dataset. -/
  | residentDag (epoch : Word)
  /-- The dataset it holds is the one needed. -/
  | residentSuffices
  /-- How the generator is set up. -/
  | generatorSetup (parents : Word) (mixers share rest : Nat)
  /-- The generator is powered down. -/
  | generatorOff
  /-- The configured clock is restored. -/
  | restoringClock (mhz : ν)
  /-- The board starts deriving the light cache. -/
  | cacheStarted
  /-- The seed could not be written. -/
  | seedFailed (fault : LinkFault)
  /-- Something overdue is no longer waited for. -/
  | notWaitingAnyLonger (error : BoardError)
  /-- The light cache status could not be read. -/
  | cacheUnread (fault : LinkFault)
  /-- The light cache is there. -/
  | cacheFinished (status : Word) (elapsed : Micros)
  /-- The upload of a light cache starts. -/
  | uploadStarted (size : Nat)
  /-- A piece could not be uploaded the first time. -/
  | pieceRetried (offset : Nat) (fault : LinkFault)
  /-- A piece could not be uploaded at all. -/
  | pieceFailed (offset : Nat) (fault : LinkFault)
  /-- How far the upload is. -/
  | uploadProgress (offset piece size : Nat)
  /-- The upload is complete. -/
  | uploadFinished (size : Nat) (elapsed : Micros)
  /-- The generator starts. -/
  | generatorStarted
  /-- The generator's status could not be read right after the start. -/
  | generatorUnchecked (fault : LinkFault)
  /-- The generator is not waited for. -/
  | generatorNotAwaited
  /-- The generator's status could not be read. -/
  | generatorUnread (fault : LinkFault)
  /-- How far the generator is. -/
  | generatorProgress (made : Word) (range : Nat)
  /-- The generator is finished. -/
  | generatorFinished (status : Word) (size : UInt64) (elapsed : Micros)
  /-- Spreading the dataset starts. -/
  | duplicating
  /-- A piece could not be copied. -/
  | duplicationFailed (piece : Nat) (fault : LinkFault)
  /-- The image could not be copied. -/
  | imageFailed (fault : LinkFault)
  /-- The dataset is spread. -/
  | duplicated (elapsed : Micros)
  -- search
  /-- The header could not be written. -/
  | headerFailed (fault : LinkFault)
  /-- The boundary is looser than the one asked for. -/
  | boundaryRaised (requested programmed : Hash)
  /-- The boundary could not be written. -/
  | boundaryFailed (fault : LinkFault)
  /-- The flag word could not be written. -/
  | flagsFailed (fault : LinkFault)
  /-- The core runs on new work. -/
  | workProgrammed (header : Hash) (nonce : UInt64) (intensity : Intensity)
  /-- Waiting for an interrupt failed. -/
  | interruptFailed (fault : LinkFault)
  /-- The stall counter could not be read. -/
  | stallUnread (fault : LinkFault)
  /-- A nonce was reported. -/
  | solution (header : Hash) (nonce : UInt64)
  /-- The core stopped moving. -/
  | coreStalled
  /-- A search ended. -/
  | searchEnded (exit : SearchExit)
  /-- A search failed. -/
  | searchFailed (error : BoardError)
  -- telemetry
  /-- The die temperature could not be read. -/
  | temperatureUnread (fault : LinkFault)
  /-- The core supply could not be read. -/
  | supplyUnread (fault : LinkFault)
  /-- The status line. -/
  | averages (board : Nat) (averages : Averages ν) (intensity : Intensity) (clock : ν)
      (sample : Telemetry ν) (showStacks : Bool) (stage : UInt8)
  /-- A stack tripped. -/
  | stackTripped (health : StackHealth)
  /-- A stack lost its calibration. -/
  | stackUncalibrated (health : StackHealth)
  -- worker
  /-- A nonce was lost because nobody takes it. -/
  | solutionDropped (nonce : UInt64)
  /-- The board cannot do the work. -/
  | unsupportedWork (algorithm : String)
  /-- The source knows nothing about an epoch. -/
  | unknownEpoch (epoch : Word)
  /-- An epoch change failed and will be tried again. -/
  | epochNotPrepared (epoch : Word) (error : BoardError)
  /-- The worker ends. -/
  | workerStopped (solutions : Nat) (epoch : Option Word) (rate : HashRate)
  -- work source
  /-- Reading the source's variables. -/
  | syntheticNotice (notice : Synthetic.Notice)
  /-- The source starts. -/
  | sourceStarted (epoch : Word) (interval : Micros)
  /-- New work is published. -/
  | workPublished (header : Hash) (serial : UInt64)
  /-- The source ends. -/
  | sourceStopped
  -- daemon
  /-- Reading the settings' variables. -/
  | settingsNotice (notice : Settings.Notice)
  /-- No boards are named. -/
  | oneSimulatedBoard
  /-- A nonce reached the daemon. -/
  | solutionFound (board : Nat) (nonce : UInt64) (header : Hash)
  /-- All boards are brought up. -/
  | started (boards : Nat)
  /-- How to see more. -/
  | debuggingHint
  /-- A signal to stop came. -/
  | signalled (name : String)
  /-- A board's fault ends the daemon. -/
  | boardEscalated (reason : String)
  /-- The daemon ends. -/
  | exiting
  /-- A board could not be brought up. -/
  | bringUpFailed (board : Nat) (endpoint : Endpoint) (error : BoardError)
  /-- A worker ended with a fatal fault. -/
  | workerDied (error : BoardError)
  /-- A worker ended with another error. -/
  | workerEnded (error : BoardError)

end HashBoard
