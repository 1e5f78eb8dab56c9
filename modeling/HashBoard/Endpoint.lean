import HashBoard.Text.Numeral
import HashBoard.Text.Quoted
import HashBoard.Text.Split

/-!
# Board addresses

A board is reached at a host and a port. A list of boards is written as entries between commas, an
entry as `host`, `host:port` or `host:first-last`; the last form names one board for each port of
the range. Everything up to the last colon is the host, so hosts may hold colons themselves.
-/

namespace HashBoard

open Text

/-- The network address of one board. -/
structure Endpoint where
  /-- Host name or address. -/
  host : String
  /-- Port. -/
  port : UInt16
  deriving DecidableEq, Repr

/-- Why a list of boards is refused. -/
inductive HostError
  /-- The entry names no host, or a port that is none. -/
  | invalidHost (entry : String)
  /-- The range is no range of ports. -/
  | invalidPortRange (ports : String)
  /-- The list names no board. -/
  | noHosts
  deriving DecidableEq, Repr

/-- The wording of a refusal. -/
def HostError.message : HostError → String
  | .invalidHost entry => "invalid host entry " ++ quoted entry
  | .invalidPortRange ports => "invalid port range " ++ quoted ports
  | .noHosts => "no hosts configured"

namespace Endpoint

/-- The port of an entry that names none. -/
def defaultPort : UInt16 := 2000

/-- A board's address as it is written in an entry. -/
def display (e : Endpoint) : String := e.host ++ ":" ++ toString e.port.toNat

/-- A port number, with blanks around it allowed. -/
def port? (cs : List Char) : Option Nat := numeral? 65535 (trim cs)

/-- The boards at `host` with ports from `first` to `last`. -/
def onPorts (host : List Char) (first last : Nat) : List Endpoint :=
  (List.range' first (last + 1 - first)).map fun p ↦ ⟨String.ofList host, UInt16.ofNat p⟩

/-- The boards named by a trimmed entry. -/
def expandTrimmed (entry : List Char) : Except HostError (List Endpoint) :=
  match splitLast? ':' entry with
  | none =>
    if entry.isEmpty then .error (.invalidHost (String.ofList entry))
    else .ok [⟨String.ofList entry, defaultPort⟩]
  | some (host, ports) =>
    if host.isEmpty then .error (.invalidHost (String.ofList entry))
    else match splitFirst? '-' ports with
      | none => match port? ports with
        | some p => .ok (onPorts host p p)
        | none => .error (.invalidHost (String.ofList entry))
      | some (first, last) => match port? first, port? last with
        | some a, some b =>
          if b < a then .error (.invalidPortRange (String.ofList ports))
          else .ok (onPorts host a b)
        | _, _ => .error (.invalidPortRange (String.ofList ports))

/-- The boards named by one entry. -/
def expand (entry : String) : Except HostError (List Endpoint) := expandTrimmed (trim entry.toList)

/-- The boards named by entries, in order; the first entry refused decides. -/
def expandEntries : List (List Char) → Except HostError (List Endpoint)
  | [] => .ok []
  | entry :: entries =>
    match expandTrimmed (trim entry) with
    | .error e => .error e
    | .ok boards => (expandEntries entries).map (boards ++ ·)

/-- The boards named by a list of entries. Blank entries count for nothing, but some entry has to
name a board. -/
def expandList (list : String) : Except HostError (List Endpoint) :=
  let entries := (pieces ',' list.toList).filter fun e ↦ !(trim e).isEmpty
  match expandEntries entries with
  | .error e => .error e
  | .ok [] => .error .noHosts
  | .ok boards => .ok boards

/-- The address of a single board. An entry that names several is refused whole. -/
def parse (s : String) : Except HostError Endpoint :=
  match expand s with
  | .error e => .error e
  | .ok [board] => .ok board
  | .ok _ => .error (.invalidHost s)

end Endpoint

end HashBoard
