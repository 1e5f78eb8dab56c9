import HashBoard.Hash
import HashBoard.Registers

/-!
# Work

What a board is given to search, what it needs to know about an epoch, and what it finds.
-/

namespace HashBoard

/-- The only algorithm the board can do. -/
def supportedAlgorithm : String := "ethash"

/-- A unit of search work. -/
structure Work where
  /-- The header that is hashed. -/
  header : Hash
  /-- Greatest acceptable hash. -/
  boundary : Hash
  /-- First nonce to try. -/
  startNonce : UInt64
  /-- Epoch whose dataset is needed. -/
  epoch : Word
  /-- Name of the algorithm. -/
  algorithm : String
  deriving DecidableEq

/-- Whether the board can do the work. -/
def Work.isSupported (w : Work) : Bool := w.algorithm == supportedAlgorithm

/-- What is needed to build the dataset of an epoch. -/
structure EpochContext where
  /-- The epoch. -/
  epoch : Word
  /-- Size of the dataset in bytes. -/
  dagSize : UInt64
  /-- Size of the light cache in bytes. -/
  lightSize : UInt64
  /-- Seed of the light cache. -/
  seed : Hash
  /-- The light cache itself, if the source supplies it. -/
  lightCache : Option ByteArray

/-- A nonce that a board reported. -/
structure Solution where
  /-- The nonce. -/
  nonce : UInt64
  /-- The work it was found for. -/
  work : Work
  /-- When it was found. -/
  foundAt : Micros
  /-- Number of the board. -/
  board : Nat
  deriving DecidableEq

/-- Why a search ended. -/
inductive SearchExit
  /-- There is other work, or a reason to look for it. -/
  | newWork
  /-- Shutdown was requested. -/
  | shutdown
  /-- The core stopped moving. -/
  | stalled
  deriving DecidableEq, Repr

/-- The reason as one word. -/
def SearchExit.display : SearchExit → String
  | .newWork => "NewWork"
  | .shutdown => "Shutdown"
  | .stalled => "Stalled"

end HashBoard
