import HashBoard.Decimal.Shortest
import HashBoard.Event
import HashBoard.Text.Runs

/-!
# Log lines

The wording of every event, its severity, the part of the program it is filed under, and its fields
in order. A line is the severity in colour, the board in brackets where there is one, the part, the
message, and the fields behind it in grey.

A board is named on a line either by the event itself or by the task the event happened in. The two
are written differently: a task's name still carries the escapes of the field it was recorded as.
-/

namespace HashBoard

open Text Decimal

/-- How severe an event is, the most severe first. -/
inductive Level
  /-- Something is lost. -/
  | error
  /-- Something went wrong and was absorbed. -/
  | warn
  /-- What happens. -/
  | info
  /-- How it happens. -/
  | debug
  /-- Every access. -/
  | trace
  deriving DecidableEq, Repr

namespace Level

/-- Rank of a severity, zero for the most severe. -/
def rank : Level → Nat
  | .error => 0
  | .warn => 1
  | .info => 2
  | .debug => 3
  | .trace => 4

/-- The severity in capitals, five characters wide. -/
def padded : Level → String
  | .error => "ERROR"
  | .warn => "WARN "
  | .info => "INFO "
  | .debug => "DEBUG"
  | .trace => "TRACE"

/-- The colour of a severity. -/
def colour : Level → String
  | .error => "1"
  | .warn => "3"
  | .info => "2"
  | .debug => "4"
  | .trace => "5"

end Level

/-- A line of the log. -/
structure Line where
  /-- Severity. -/
  level : Level
  /-- Part of the program. -/
  target : String
  /-- Wording. -/
  message : String
  /-- Names and values, in order. -/
  fields : List (String × String) := []
  /-- The number of the board the event itself names. -/
  board : Option Nat := none

namespace Line

/-- The name that all parts of the program belong to. -/
def program : String := "hbm_miner"

/-- The variable by which a reader of the log chooses lines. -/
def filterVariable : String := "RUST_LOG"

/-- The full name of the part a line belongs to. -/
def part (l : Line) : String := program ++ "::" ++ l.target

/-- The board's name as it appears in a line: as the event names it, else as the task does. -/
def device (l : Line) (task : Option Nat) : Option String :=
  match l.board, task with
  | some index, _ => some (boardName index)
  | none, some index => some ("\x1b[3mdevice\x1b[0m\x1b[2m=\x1b[0m" ++ boardName index)
  | none, none => none

/-- The line as text. -/
def render (l : Line) (task : Option Nat) : String :=
  let device := match l.device task with
    | some name => "\x1b[36m[" ++ name ++ "]\x1b[0m "
    | none => ""
  let fields := String.join (l.fields.map fun f ↦ " " ++ f.1 ++ "=" ++ f.2)
  "\x1b[3" ++ l.level.colour ++ "m" ++ l.level.padded ++ "\x1b[0m " ++ device ++
    l.target ++ ": " ++ l.message ++
    (if fields.isEmpty then "" else "\x1b[90m" ++ fields ++ "\x1b[0m")

end Line

/-! ## Texts of values -/

namespace Event

/-- A number in hexadecimal with a mark in front. -/
def hexMarked (n : Nat) : String := "0x" ++ hex n

/-- A register word in hexadecimal with at least `width` digits. -/
def hexWord (width : Nat) (w : Word) : String := "0x" ++ hexPadded width w.toNat

/-- A memory address in hexadecimal. -/
def hexAddress (a : UInt64) : String := "0x" ++ hexPadded 9 a.toNat

/-- A span in whole milliseconds. -/
def millis (span : Micros) : String := toString (span / 1000)

/-- The whole part of a value, as a number of any sign. -/
def whole (x : Float) : String :=
  if x < 0.0 then toString (-((Quantity.count (-x)).toNat : Int))
  else toString (Quantity.count x).toNat

/-- A clock request as one word. -/
def requestText : ClockRequest Float → String
  | .read => "Read"
  | .stock => "ResetToDefault"
  | .target mhz => "Target(" ++ shortest mhz ++ ")"

/-- A share of a whole in percent. -/
def percent (places : Nat) (part whole : Float) : String := fixed places (part / whole * 100.0)

/-- The status line of a board. -/
def averagesText (a : Averages Float) (intensity : Intensity) (clock : Float)
    (sample : Telemetry Float) (showStacks : Bool) (stage : UInt8) : String :=
  "Avg 1m:" ++ fixed 2 a.oneMinute ++ " 10m:" ++ fixed 2 a.tenMinutes ++ " 60m:" ++
    fixed 2 a.sixtyMinutes ++ "Mhs Err=" ++ fixed 2 a.errorPercent ++ "% [" ++
    intensity.display ++ "] " ++ toString (Quantity.word clock).toNat ++ "MHz " ++
    fixed 2 (sample.supply / 1000.0) ++ "V " ++ whole sample.temperature ++ "C" ++
    (if showStacks || sample.health.isWorthReporting then " HBM " ++ sample.health.display
      else "") ++
    (if 0 < stage then " Tuning... S" ++ toString stage.toNat else "")

/-! ## Wording -/

/-- A fault among the fields. -/
def fault (f : LinkFault) : String × String := ("error", f.message)

/-- An error among the fields. -/
def cause (e : BoardError) : String × String := ("error", e.message)

/-- A number among the fields. -/
def number (name : String) (n : Nat) : String × String := (name, toString n)

/-- The line of an event. -/
def line : Event Float → Line
  | .registerRead addr value =>
    { level := .trace, target := "fpga", message := "read",
      fields := [("addr", hexWord 4 addr), ("value", hexWord 8 value)] }
  | .registerWrite addr value =>
    { level := .trace, target := "fpga", message := "write",
      fields := [("addr", hexWord 4 addr), ("value", hexWord 8 value)] }
  | .copying src dst length =>
    { level := .trace, target := "fpga", message := "device copy",
      fields := [("src", hexAddress src), ("dst", hexAddress dst), number "len" length.toNat] }
  | .assumed what default addr f =>
    { level := .warn, target := "fpga",
      message := what ++ " unreadable, assuming " ++ hexMarked default.toNat,
      fields := [cause (.register addr f)] }
  | .writeFailed what addr f =>
    { level := .warn, target := "fpga", message := "failed setting " ++ what,
      fields := [cause (.register addr f)] }
  | .escalated what reason =>
    { level := .error, target := "fpga", message := what ++ "; stopping (die-on-error)",
      fields := [("error", reason)] }
  | .rampFailed f =>
    { level := .warn, target := "fpga", message := "cannot ramp hash core down, stopping hard",
      fields := [fault f] }
  | .connecting endpoint =>
    { level := .debug, target := "transport::sim", message := "connecting simulated board",
      fields := [("endpoint", endpoint.display)] }
  | .simulatedWrite addr value =>
    { level := .trace, target := "transport::sim", message := "sim write",
      fields := [("addr", hexWord 4 addr), ("value", hexWord 8 value)] }
  | .connected endpoint =>
    { level := .info, target := "fpga", message := "connected",
      fields := [("endpoint", endpoint.display)] }
  | .timeoutFailed f =>
    { level := .warn, target := "fpga", message := "failed setting transport timeout",
      fields := [fault f] }
  | .interruptsFailed f =>
    { level := .warn, target := "fpga", message := "failed enabling interrupts",
      fields := [fault f] }
  | .identityUnread what f =>
    { level := .warn, target := "fpga", message := "error reading " ++ what, fields := [fault f] }
  | .identified identity =>
    { level := .info, target := "fpga", message := "board identified",
      fields := [("fpga", identity.typeName), ("serial", identity.serial),
        ("bitstream", hexPadded 8 identity.bitstream.toNat)] }
  | .stockClock mhz =>
    { level := .info, target := "fpga", message := "stock clock", fields := [("mhz", fixed 0 mhz)] }
  | .targetClock mhz =>
    { level := .info, target := "fpga", message := "target clock",
      fields := [number "mhz" mhz.toNat] }
  | .tuneKey key =>
    { level := .info, target := "fpga", message := "tune id", fields := [("id", key)] }
  | .tuneApplied file =>
    { level := .info, target := "fpga", message := "applied saved tune, auto-tune off",
      fields := [("file", file)] }
  | .searchSettings delay intensity skipStall =>
    { level := .info, target := "fpga", message := "search settings",
      fields := [number "work_delay_us" (delay % UInt64.size), ("intensity", intensity.display),
        ("skip_stall_detect", if skipStall then "true" else "false")] }
  | .disconnected => { level := .debug, target := "fpga", message := "disconnected" }
  | .vcoUnread f =>
    { level := .warn, target := "fpga::clock", message := "cannot read VCO", fields := [fault f] }
  | .divisorUnread f =>
    { level := .warn, target := "fpga::clock", message := "cannot read clock divisor",
      fields := [fault f] }
  | .zeroDivider vco clk =>
    { level := .warn, target := "fpga::clock", message := "PLL reports a zero divider",
      fields := [("vco", hexWord 8 vco), ("clk0", hexWord 8 clk)] }
  | .clockUnchanged request =>
    { level := .warn, target := "fpga::clock", message := "clock unchanged",
      fields := [("request", requestText request)] }
  | .clockSet mhz divisor =>
    { level := .info, target := "fpga::clock", message := "core clock set",
      fields := [number "mhz" (Quantity.word mhz).toNat, ("divisor", shortest divisor)] }
  | .clockTooFast requested divisor =>
    { level := .warn, target := "fpga::clock", message := "core clock would exceed limit",
      fields := [("requested", shortest requested), ("divisor", shortest divisor)] }
  | .clockTooSlow requested divisor =>
    { level := .warn, target := "fpga::clock", message := "core clock below divider range",
      fields := [("requested", shortest requested), ("divisor", shortest divisor)] }
  | .clockReset =>
    { level := .debug, target := "fpga::clock", message := "resetting core clock to stock" }
  | .unlocked =>
    { level := .warn, target := "fpga::clock", message := "continuing unlocked",
      fields := [cause (.overdue "PLL lock")] }
  | .stockUnknown mhz =>
    { level := .warn, target := "fpga::clock",
      message := "stock clock unknown, keeping previous reading",
      fields := [("mhz", shortest mhz)] }
  | .regulatorFailed addr f =>
    { level := .warn, target := "fpga::voltage", message := "regulator write failed",
      fields := [("addr", hexWord 4 addr), fault f] }
  | .settingRailA mv code volts =>
    { level := .info, target := "fpga::voltage", message := "setting rail A",
      fields := [number "target_mv" mv.toNat, number "code" code, ("actual_v", fixed 3 volts)] }
  | .correctingRailB =>
    { level := .debug, target := "fpga::voltage", message := "applying rail B regulator fix-ups" }
  | .settingRailB mv code =>
    { level := .info, target := "fpga::voltage", message := "setting rail B",
      fields := [number "target_mv" mv.toNat, number "code" code.toNat] }
  | .voltageDropped e =>
    { level := .warn, target := "fpga::voltage", message := "voltage request dropped",
      fields := [cause e] }
  | .phase p =>
    { level := .debug, target := "fpga::dag", message := "epoch phase",
      fields := [("phase", p.display)] }
  | .haltedEpoch epoch =>
    { level := .warn, target := "fpga::dag", message := "board halted, not building DAG",
      fields := [number "epoch" epoch.toNat] }
  | .epochReady epoch outcome =>
    { level := .info, target := "fpga::dag", message := "epoch ready",
      fields := [number "epoch" epoch.toNat, ("outcome", outcome.display)] }
  | .epochFailed epoch e =>
    { level := .error, target := "fpga::dag", message := "epoch change failed",
      fields := [number "epoch" epoch.toNat, cause e] }
  | .changingEpoch epoch =>
    { level := .info, target := "fpga::dag", message := "changing epoch",
      fields := [number "epoch" epoch.toNat] }
  | .residentDag epoch =>
    { level := .info, target := "fpga::dag", message := "board holds a DAG",
      fields := [number "resident" epoch.toNat] }
  | .residentSuffices =>
    { level := .info, target := "fpga::dag", message := "no DAG generation needed" }
  | .generatorSetup parents mixers share rest =>
    { level := .debug, target := "fpga::dag", message := "DAG generator parameters",
      fields := [number "parent_nodes" parents.toNat, number "mixers" mixers,
        number "per_mixer" share, number "leftover" rest] }
  | .generatorOff => { level := .debug, target := "fpga::dag", message := "generator to low power" }
  | .restoringClock mhz =>
    { level := .info, target := "fpga::dag", message := "restoring target clock",
      fields := [number "mhz" (Quantity.word mhz).toNat] }
  | .cacheStarted => { level := .info, target := "fpga::dag", message := "generating light cache" }
  | .seedFailed f =>
    { level := .warn, target := "fpga::dag", message := "failed writing seed", fields := [fault f] }
  | .notWaitingAnyLonger e =>
    { level := .warn, target := "fpga::dag", message := "continuing without completion",
      fields := [cause e] }
  | .cacheUnread f =>
    { level := .debug, target := "fpga::dag", message := "light cache status unreadable",
      fields := [fault f] }
  | .cacheFinished status elapsed =>
    { level := .info, target := "fpga::dag", message := "light cache generated",
      fields := [number "status" status.toNat, ("elapsed_ms", millis elapsed)] }
  | .uploadStarted size =>
    { level := .info, target := "fpga::dag", message := "uploading light cache",
      fields := [number "bytes" size] }
  | .pieceRetried offset f =>
    { level := .warn, target := "fpga::dag", message := "cache chunk failed, retrying",
      fields := [number "offset" offset, fault f] }
  | .pieceFailed offset f =>
    { level := .error, target := "fpga::dag", message := "cache chunk failed twice",
      fields := [number "offset" offset, fault f] }
  | .uploadProgress offset piece size =>
    { level := .info, target := "fpga::dag", message := "cache upload",
      fields := [("pct", percent 1 (Float.ofNat offset + Float.ofNat piece) (Float.ofNat size))] }
  | .uploadFinished size elapsed =>
    { level := .info, target := "fpga::dag", message := "light cache uploaded",
      fields := [number "bytes" size, ("elapsed_ms", millis elapsed)] }
  | .generatorStarted => { level := .info, target := "fpga::dag", message := "generating DAG" }
  | .generatorUnchecked f =>
    { level := .warn, target := "fpga::dag", message := "error checking DAG status",
      fields := [fault f] }
  | .generatorNotAwaited =>
    { level := .warn, target := "fpga::dag",
      message := "not waiting for DAG generation, expect failed hashes" }
  | .generatorUnread f =>
    { level := .debug, target := "fpga::dag", message := "DAG status unreadable",
      fields := [fault f] }
  | .generatorProgress made range =>
    { level := .info, target := "fpga::dag", message := "DAG progress",
      fields := [("pct", percent 2 (Float.ofNat made.toNat) (Float.ofNat range))] }
  | .generatorFinished status size elapsed =>
    { level := .info, target := "fpga::dag", message := "DAG generated",
      fields := [number "status" status.toNat, number "bytes" size.toNat,
        ("elapsed_ms", millis elapsed)] }
  | .duplicating => { level := .debug, target := "fpga::dag", message := "duplicating DAG items" }
  | .duplicationFailed piece f =>
    { level := .error, target := "fpga::dag", message := "failed to duplicate DAG",
      fields := [number "chunk" piece, fault f] }
  | .imageFailed f =>
    { level := .error, target := "fpga::dag", message := "failed to copy DAG image",
      fields := [fault f] }
  | .duplicated elapsed =>
    { level := .info, target := "fpga::dag", message := "DAG duplicated",
      fields := [("elapsed_ms", millis elapsed)] }
  | .headerFailed f =>
    { level := .warn, target := "fpga::search", message := "failed setting header",
      fields := [fault f] }
  | .boundaryRaised requested programmed =>
    { level := .debug, target := "fpga::search", message := "boundary raised to floor",
      fields := [("requested", requested.abridged), ("programmed", programmed.abridged)] }
  | .boundaryFailed f =>
    { level := .warn, target := "fpga::search", message := "failed setting target",
      fields := [fault f] }
  | .flagsFailed f =>
    { level := .warn, target := "fpga::search", message := "failed setting core flags",
      fields := [fault f] }
  | .workProgrammed header nonce intensity =>
    { level := .debug, target := "fpga::search", message := "work programmed",
      fields := [("job", header.abridged), ("nonce", hexMarked nonce.toNat),
        ("intensity", intensity.display)] }
  | .interruptFailed f =>
    { level := .error, target := "fpga::search", message := "FPGA interrupt error",
      fields := [fault f] }
  | .stallUnread f =>
    { level := .warn, target := "fpga::search", message := "error checking for hashcore stall",
      fields := [fault f] }
  | .solution header nonce =>
    { level := .info, target := "fpga::search", message := "solution",
      fields := [("job", header.abridged), ("nonce", hexMarked nonce.toNat)] }
  | .coreStalled =>
    { level := .warn, target := "fpga::search", message := "hash core stalled, restarting search" }
  | .searchEnded exit =>
    { level := .debug, target := "fpga::search", message := "search ended",
      fields := [("exit", exit.display)] }
  | .searchFailed e =>
    { level := .error, target := "fpga::search", message := "search failed", fields := [cause e] }
  | .temperatureUnread f =>
    { level := .debug, target := "fpga::telemetry", message := "temperature unreadable",
      fields := [fault f] }
  | .supplyUnread f =>
    { level := .debug, target := "fpga::telemetry", message := "supply unreadable",
      fields := [fault f] }
  | .averages board a intensity clock sample showStacks stage =>
    { level := .info, target := "fpga::telemetry",
      message := averagesText a intensity clock sample showStacks stage,
      board := some board }
  | .stackTripped health =>
    { level := .error, target := "fpga::telemetry",
      message := "HBM stack catastrophic temperature, powered off, refusing work",
      fields := [("stacks", health.display)] }
  | .stackUncalibrated health =>
    { level := .error, target := "fpga::telemetry",
      message := "HBM calibration failed, refusing work", fields := [("stacks", health.display)] }
  | .solutionDropped nonce =>
    { level := .warn, target := "worker", message := "solution dropped, sink closed",
      fields := [("nonce", hexMarked nonce.toNat)] }
  | .unsupportedWork algorithm =>
    { level := .error, target := "worker", message := "algorithm not supported",
      fields := [("algorithm", algorithm)] }
  | .unknownEpoch epoch =>
    { level := .warn, target := "worker", message := "no DAG parameters for epoch",
      fields := [number "epoch" epoch.toNat] }
  | .epochNotPrepared epoch e =>
    { level := .warn, target := "worker", message := "epoch not prepared",
      fields := [number "epoch" epoch.toNat, cause e] }
  | .workerStopped solutions epoch rate =>
    { level := .info, target := "worker", message := "worker stopped",
      fields := [number "solutions" solutions,
        ("epoch", match epoch with
          | some e => "Some(" ++ toString e.toNat ++ ")"
          | none => "None"),
        ("hashrate", rate.display)] }
  | .syntheticNotice (.badEpoch value) =>
    { level := .warn, target := "dummy", message := "Invalid HBM_DUMMY_EPOCH, using 0",
      fields := [("value", value)] }
  | .syntheticNotice (.badInterval value) =>
    { level := .warn, target := "dummy", message := "Invalid HBM_DUMMY_INTERVAL_SECS, using 30",
      fields := [("value", value)] }
  | .sourceStarted epoch interval =>
    { level := .info, target := "dummy", message := "dummy work source started",
      fields := [number "epoch" epoch.toNat, number "interval_s" (interval / 1_000_000)] }
  | .workPublished header serial =>
    { level := .debug, target := "dummy", message := "new dummy work",
      fields := [("header", header.abridged), number "seq" serial.toNat] }
  | .sourceStopped => { level := .debug, target := "dummy", message := "dummy work source stopped" }
  | .settingsNotice (.ignored name value) =>
    { level := .warn, target := "config", message := "ignoring unparseable setting",
      fields := [("var", name), ("value", value)] }
  | .settingsNotice (.mixersReplaced requested used) =>
    { level := .warn, target := "config", message := "HBM_DAG_MIXERS out of range",
      fields := [number "requested" requested.toNat, number "using" used.toNat] }
  | .oneSimulatedBoard =>
    { level := .info, target := "daemon",
      message := "HBM_HOSTS not set, driving one simulated board" }
  | .solutionFound board nonce header =>
    { level := .info, target := "daemon", message := "Solution found.",
      board := some board,
      fields := [("nonce", "0x" ++ hexPadded 16 nonce.toNat), ("header", header.abridged)] }
  | .started boards =>
    { level := .info, target := "daemon", message := "Started.",
      fields := [number "boards" boards] }
  | .debuggingHint =>
    { level := .info, target := "daemon",
      message := "For debugging, set " ++ Line.filterVariable ++ "=" ++ Line.program ++
        "=debug or trace." }
  | .signalled name =>
    { level := .info, target := "daemon", message := "Received SIG" ++ name ++ "." }
  | .boardEscalated reason =>
    { level := .error, target := "daemon", message := "Board escalated, shutting down.",
      fields := [("reason", reason)] }
  | .exiting => { level := .info, target := "daemon", message := "Exiting." }
  | .bringUpFailed board endpoint e =>
    { level := .error, target := "daemon", message := "Board init failed.",
      board := some board,
      fields := [("endpoint", endpoint.display), cause e] }
  | .workerDied e =>
    { level := .error, target := "daemon", message := "worker died", fields := [cause e] }
  | .workerEnded e =>
    { level := if e.isTerminal then .error else .warn, target := "daemon",
      message := "worker stopped", fields := [cause e] }

end Event

/-- An event with the board whose task it happened in. -/
structure Logged (ν : Type) where
  /-- The board whose task it was. -/
  task : Option Nat
  /-- What happened. -/
  event : Event ν

namespace Logged

variable (l : Logged Float)

/-- Whether an event is at least as severe as `level`. -/
def isShown (level : Level) : Bool := l.event.line.level.rank ≤ level.rank

/-- The line of an event as text. -/
def text : String := l.event.line.render l.task

/-- The board and the part of the program a line belongs to, as `board|part`; the number of the
board is left out where there is none. -/
def heading : String :=
  let board := match l.event.line.board <|> l.task with
    | some index => toString index
    | none => ""
  board ++ "|" ++ l.event.line.target

end Logged

namespace Log

/-- The lines of events that are at least as severe as `level`, each run of equal ones once. -/
def lines (level : Level) (log : List (Logged Float)) : List String :=
  condense ((log.filter (·.isShown level)).map Logged.text)

/-- The lines of events that are at least as severe as `level`, under the headings they belong
to. -/
def byHeading (level : Level) (log : List (Logged Float)) : List (String × List String) :=
  let shown := log.filter (·.isShown level)
  let headings := (shown.map Logged.heading).eraseDups
  headings.map fun h ↦ (h, (shown.filter fun l ↦ l.heading = h).map Logged.text)

end Log

end HashBoard
