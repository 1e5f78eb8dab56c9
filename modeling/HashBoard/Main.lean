import HashBoard.Daemon
import HashBoard.Event.Filter
import Std.Async.Signal
import Std.Time.DateTime.Timestamp

/-!
# The command line

Runs the daemon beside the clock on the wall: the time of the simulated world is the time since the
start, and it catches up many times a second. An interrupt or a termination signal tells the daemon
to stop. What is said goes to standard output with the time of day in front, and a failure that ends
the daemon goes to standard error.
-/

namespace HashBoard.CommandLine

/-- The variables of the process. -/
def environment : IO Environment := do
  let found ← Daemon.variableNames.mapM fun name ↦ return (name, ← IO.getEnv name)
  return fun name ↦ match found.lookup name with
    | some (some value) => .text value
    | some none | none => .unset

/-- A number with at least two digits. -/
def twoDigits (n : Nat) : String := if n < 10 then "0" ++ toString n else toString n

/-- Seconds since a midnight as the time of day. -/
def timeOfDay (seconds : Nat) : String :=
  ":".intercalate [twoDigits (seconds / 3600 % 24), twoDigits (seconds / 60 % 60),
    twoDigits (seconds % 60)]

/-- Prints the lines that are shown. -/
def print (filter : LogFilter) (log : List (Logged Float)) : IO Unit := do
  for l in log do
    if filter.shows l.event.line then
      let now ← Std.Time.Timestamp.now
      IO.println (timeOfDay now.toSecondsSinceUnixEpoch.val.toNat ++ " " ++ l.text)

/-- A signal that is waited for, by its name. -/
structure Awaited where
  /-- Its name. -/
  name : String
  /-- Ends when the signal comes. -/
  arrival : Std.Async.AsyncTask Int

/-- Starts to wait for a signal. -/
def await (name : String) (signal : Std.Async.Signal) : IO Awaited := do
  let waiter ← Std.Async.Signal.Waiter.mk signal false
  return ⟨name, ← waiter.wait⟩

/-- The name of a signal that has come, if one has. -/
def arrived? (signals : List Awaited) : IO (Option String) := do
  let come ← signals.filterM fun s ↦ IO.hasFinished s.arrival
  return come.head?.map (·.name)

/-- What a daemon that cannot go on is reported as. -/
def stuck : IO.Error := IO.userError "the daemon waits for nothing"

/-- Ends a daemon that was drained. -/
def finish (filter : LogFilter) (d : Daemon Float) (signal : String) (verdict : Verdict) :
    IO (Option String) :=
  match d.finish? signal verdict with
  | none => throw stuck
  | some (d, failure) => do
    print filter d.drain.1
    return failure

/-- Lets the daemon follow the clock until there is a reason to end, and then ends it. -/
partial def follow (filter : LogFilter) (signals : List Awaited) (start : Nat) (d : Daemon Float) :
    IO (Option String) := do
  let elapsed := 1000 * ((← IO.monoMsNow) - start)
  match d.watch? elapsed with
  | none => throw stuck
  | some (d, verdict) =>
    print filter d.drain.1
    let signal? ← arrived? signals
    match verdict, signal? with
    | .time, none =>
      IO.sleep 20
      follow filter signals start d.drain.2
    | _, _ => finish filter d.drain.2 (signal?.getD "") verdict

/-- Brings up the boards and runs the daemon to its end. The answer is the failure that ended it, if
it was one. -/
def run (filter : LogFilter) (env : Environment) (s : Settings) (said : List (Event Float)) :
    IO (Option String) := do
  let start ← IO.monoMsNow
  match Daemon.start? env s said with
  | none => throw stuck
  | some d =>
    print filter d.drain.1
    if d.workers = 0 then finish filter d.drain.2 "" .idle
    else
      let signals := [← await "INT" .sigint, ← await "TERM" .sigterm]
      follow filter signals start d.drain.2

end HashBoard.CommandLine

open HashBoard in
/-- Runs the daemon with the settings of the environment. -/
def main : IO UInt32 := do
  let filter := LogFilter.ofText ((← IO.getEnv Line.filterVariable).getD "").toList
  let env ← CommandLine.environment
  match Daemon.settings env with
  | .error e =>
    let behind := match e.passedOn? with
      | some text => "\n\nCaused by:\n    " ++ text
      | none => ""
    IO.eprintln ("Error: " ++ e.message ++ behind)
    return 1
  | .ok (s, said) =>
    match ← CommandLine.run filter env s said with
    | some failure =>
      IO.eprintln ("Error: " ++ failure)
      return 1
    | none => return 0
