import HashBoard.Dag.Schedule
import HashBoard.Environment
import HashBoard.Work

/-!
# Synthetic work

Work for running without a pool: a fresh header at a fixed interval, always for the same epoch. The
sizes follow the growth of the dataset, so a board sees realistic dimensions; the seed is made from
the epoch's number, which no board checks.
-/

namespace HashBoard

/-- What the synthetic work is like. -/
structure Synthetic where
  /-- Epoch of all the work. -/
  epoch : Word := 0
  /-- Time between headers. -/
  interval : Micros := 30_000_000
  deriving DecidableEq, Repr

namespace Synthetic

/-- Something about the environment that is worth a line. -/
inductive Notice
  /-- The epoch cannot be read. -/
  | badEpoch (value : String)
  /-- The interval cannot be read, or is zero. -/
  | badInterval (value : String)
  deriving DecidableEq, Repr

/-- A whole number of seconds above zero in a variable. -/
def interval? (env : Environment) : Option Nat :=
  (env.number? (UInt64.size - 1) "HBM_DUMMY_INTERVAL_SECS").filter (0 < ·)

/-- The kind of work the environment asks for. -/
def ofEnvironment (env : Environment) : Synthetic :=
  let defaults : Synthetic := {}
  { epoch :=
      ((env.number? (UInt32.size - 1) "HBM_DUMMY_EPOCH").map UInt32.ofNat).getD defaults.epoch
    interval := ((interval? env).map (1_000_000 * ·)).getD defaults.interval }

/-- What reading the environment has to say. -/
def notices (env : Environment) : List Notice :=
  (match env.misread? (UInt32.size - 1) "HBM_DUMMY_EPOCH" with
    | some value => [.badEpoch value]
    | none => []) ++
  (match env.text? "HBM_DUMMY_INTERVAL_SECS", interval? env with
    | some value, none => [.badInterval value]
    | _, _ => [])

variable (s : Synthetic)

/-- The work with a serial number: the header starts with the number and the epoch, the nonces
start at a place of their own, and the boundary is stricter than the core takes. -/
def work (serial : UInt64) : Work where
  header := Hash.ofBytes (Hash.bigEndianBytes 8 serial.toNat ++
    Hash.bigEndianBytes 4 s.epoch.toNat ++ List.replicate 20 0x5a)
  boundary := Hash.leadingZeros 32
  startNonce := serial <<< 40
  epoch := s.epoch
  algorithm := supportedAlgorithm

/-- What is needed to build the dataset, for the one epoch there is. -/
def context? (epoch : Word) : Option EpochContext :=
  if epoch = s.epoch then
    some
      { epoch
        dagSize := UInt64.ofNat (Dag.dagSize epoch)
        lightSize := UInt64.ofNat (Dag.lightSize epoch)
        seed := Hash.ofNat epoch.toNat
        lightCache := none }
  else none

end Synthetic

end HashBoard
