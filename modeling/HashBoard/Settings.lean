import HashBoard.Endpoint
import HashBoard.Environment
import HashBoard.Intensity

/-!
# Board settings

The settings shared by all boards, their defaults, and how they are read from the environment. Only
the list of boards can be refused. Each other variable belongs to one field: a value that cannot be
read leaves that field at its default and is mentioned in a notice.
-/

namespace HashBoard

/-- Where the light cache of an epoch comes from. -/
inductive CacheStrategy
  /-- The board derives it from the seed. -/
  | onChip
  /-- The host uploads it. -/
  | upload
  deriving DecidableEq, Repr

/-- How the core hands nonces over. -/
inductive NonceReporting
  /-- One nonce for each interrupt. -/
  | interrupt
  /-- Up to four nonces in slots that are looked at after a pause. -/
  | polled
  deriving DecidableEq, Repr

/-- What all boards are run with. -/
structure Settings where
  /-- The boards. -/
  hosts : List Endpoint := []
  /-- Time a call to a board may take. -/
  transportTimeout : Micros := 5_000_000
  /-- Voltage of rail A in mV; zero leaves it alone. -/
  railA : Word := 0
  /-- Voltage of rail B in mV; zero leaves it alone. -/
  railB : Word := 0
  /-- Core clock in MHz after generating; zero keeps the stock clock. -/
  targetClock : Word := 0
  /-- Number of mixers. -/
  mixers : Word := 8
  /-- Longest wait for an interrupt, or the pause before polling. -/
  workDelay : Micros := 100_000
  /-- Pacing of the core where tuning has no opinion. -/
  intensity : Intensity := {}
  /-- Never take a core for stalled. -/
  skipStallDetection : Bool := false
  /-- Make failures of polling, interrupts and control words fatal. -/
  dieOnError : Bool := false
  /-- Generate even if the board holds the dataset. -/
  forceDag : Bool := false
  /-- Do not wait for the generator. -/
  skipDagWait : Bool := false
  /-- Where the light cache comes from. -/
  cacheStrategy : CacheStrategy := .onChip
  /-- How nonces are handed over. -/
  nonceReporting : NonceReporting := .interrupt
  /-- Always mention the stacks in the status line. -/
  showStackStats : Bool := false
  /-- Tuning level; zero is off. -/
  autoTune : UInt8 := 0
  /-- File of saved tunes. -/
  tuneFile : Option String := none
  /-- Time between telemetry samples of a search. -/
  telemetryInterval : Micros := 5_000_000
  deriving Repr

namespace Settings

/-- Something about the environment that is worth a line. -/
inductive Notice
  /-- A value that cannot be read was ignored. -/
  | ignored (name value : String)
  /-- A number of mixers outside the range was replaced. -/
  | mixersReplaced (requested used : Word)
  deriving DecidableEq, Repr

variable (env : Environment)

/-- A 32-bit number from the environment. -/
def word? (name : String) : Option Word := (env.number? (UInt32.size - 1) name).map UInt32.ofNat

/-- An 8-bit number from the environment. -/
def byte? (name : String) : Option UInt8 := (env.number? (UInt8.size - 1) name).map UInt8.ofNat

/-- A span of `unit` microseconds each from the environment. -/
def span? (unit : Nat) (name : String) : Option Micros :=
  (env.number? (UInt64.size - 1) name).map (unit * ·)

/-- The number of mixers brought into the range of the registers. -/
def clampMixers (requested : Word) : Word :=
  if requested < 1 then 1 else if Reg.maxMixers < requested then Reg.maxMixers else requested

/-- The settings of the environment for given boards. -/
def withHosts (hosts : List Endpoint) : Settings :=
  let defaults : Settings := {}
  { hosts
    transportTimeout := (span? env 1_000 "HBM_TIMEOUT_MS").getD defaults.transportTimeout
    railA := (word? env "HBM_RAIL_A_MV").getD defaults.railA
    railB := (word? env "HBM_RAIL_B_MV").getD defaults.railB
    targetClock := (word? env "HBM_CLOCK_MHZ").getD defaults.targetClock
    mixers := clampMixers ((word? env "HBM_DAG_MIXERS").getD defaults.mixers)
    workDelay := (span? env 1 "HBM_WORK_DELAY_US").getD defaults.workDelay
    intensity :=
      { patience := (byte? env "HBM_PATIENCE").getD 0
        numerator := (byte? env "HBM_INTENSITY_N").getD 0
        denominator := (byte? env "HBM_INTENSITY_D").getD 0 }
    skipStallDetection := env.flag "HBM_SKIP_STALL_DETECT"
    dieOnError := env.flag "HBM_DIE_ON_ERROR"
    forceDag := env.flag "HBM_FORCE_DAG"
    skipDagWait := env.flag "HBM_SKIP_DAG_WAIT"
    cacheStrategy := if env.flag "HBM_CACHE_UPLOAD" then .upload else .onChip
    nonceReporting := if env.flag "HBM_POLLED_NONCES" then .polled else .interrupt
    showStackStats := env.flag "HBM_SHOW_STACK_STATS"
    autoTune := (byte? env "HBM_AUTOTUNE").getD defaults.autoTune
    tuneFile := env.text? "HBM_TUNE_FILE"
    telemetryInterval :=
      (span? env 1_000_000 "HBM_TELEMETRY_SECS").getD defaults.telemetryInterval }

/-- The settings of the environment: none if it names no boards, refused if the list of boards
is. -/
def ofEnvironment : Except HostError (Option Settings) :=
  match env.text? "HBM_HOSTS" with
  | none => .ok none
  | some list => (Endpoint.expandList list).map fun hosts ↦ some (withHosts env hosts)

/-- The notice of a number that cannot be read. -/
def ignored (bound : Nat) (name : String) : List Notice :=
  match env.misread? bound name with
  | some value => [.ignored name value]
  | none => []

/-- What reading the settings has to say, in the order the variables are read. -/
def notices : List Notice :=
  let word := ignored env (UInt32.size - 1)
  let byte := ignored env (UInt8.size - 1)
  let span := ignored env (UInt64.size - 1)
  let requested := (word? env "HBM_DAG_MIXERS").getD 8
  span "HBM_TIMEOUT_MS" ++ word "HBM_RAIL_A_MV" ++ word "HBM_RAIL_B_MV" ++ word "HBM_CLOCK_MHZ" ++
    word "HBM_DAG_MIXERS" ++
    (if clampMixers requested = requested then []
      else [.mixersReplaced requested (clampMixers requested)]) ++
    span "HBM_WORK_DELAY_US" ++ byte "HBM_PATIENCE" ++ byte "HBM_INTENSITY_N" ++
    byte "HBM_INTENSITY_D" ++ byte "HBM_AUTOTUNE" ++ span "HBM_TELEMETRY_SECS"

/-- What is said on the way to `ofEnvironment`: nothing unless the list of boards is accepted. -/
def noticesOfEnvironment : List Notice :=
  match ofEnvironment env with
  | .ok (some _) => notices env
  | _ => []

end Settings

end HashBoard
