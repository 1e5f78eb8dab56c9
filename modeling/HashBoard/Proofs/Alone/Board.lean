import HashBoard.Proofs.Board.Registers
import HashBoard.Proofs.Epoch.Asks

/-!
# Boards that do nothing on their own

A simulated board can be told to fail, to answer from a script, to count with every read, and to
leave its generators running. On a board where none of this concerns an epoch change, every access
succeeds, a read gives what the register holds and changes nothing, and a write changes one
register.
-/

namespace HashBoard

open Simulation

/-- The registers that an epoch change reads when nothing fails. -/
def Reg.consulted : List Word :=
  [Reg.pllVco, Reg.pllClk0, Reg.pllStatus, Reg.itemCount, Reg.itemReciprocal, Reg.dagPower,
    Reg.coreFlags, Reg.dagStatus, Reg.cacheControl, Reg.dagControl]

/-- The registers that an epoch change writes; the seed is addressed by the first of its words. -/
def Reg.isProgrammed (addr : Word) : Bool :=
  addr ∈ Reg.setup || Reg.isGenerator addr || addr = Reg.cacheSeed

theorem Reg.isProgrammed_of_setup {addr : Word} (h : addr ∈ Reg.setup) :
    Reg.isProgrammed addr ∧ addr ≠ Reg.dagStatus := by
  have all : Reg.setup.all fun addr ↦ Reg.isProgrammed addr ∧ addr ≠ Reg.dagStatus := by decide
  exact of_decide_eq_true (List.all_eq_true.mp all addr h)

/-- The eight words of the seed. -/
def Reg.isSeed (addr : Word) : Bool := (addr - Reg.cacheSeed).toNat < 32

namespace SimulatedBoard

/-- Nothing that concerns an epoch change was made to fail, to be held, or to change by itself. -/
structure Intact (b : SimulatedBoard) : Prop where
  readable : ∀ addr ∈ Reg.consulted, addr ∉ b.brokenReads
  unscripted : ∀ addr ∈ Reg.consulted, b.scripts.getD addr [] = []
  steady : ∀ addr ∈ Reg.consulted, b.steps.get? addr = none
  writable : ∀ addr, Reg.isProgrammed addr → addr ∉ b.brokenWrites
  uploads : ∀ addr, b.uploadFailures.getD addr 0 = 0
  moves : b.brokenMove = none
  finishing : b.holding = false

/-- What the registers hold and what was recorded does not matter. -/
theorem Intact.recorded {b : SimulatedBoard} (h : b.Intact) (registers : Table Word Word)
    (reads : Table Word Nat) (writes : List (Word × Word))
    (bulkWrites : List (Word × List UInt8 × Bool)) (uploads : List (UInt64 × Nat))
    (moves : List (UInt64 × UInt64 × UInt64)) :
    Intact { b with registers, reads, writes, bulkWrites, uploads, moves } :=
  ⟨h.readable, h.unscripted, h.steady, h.writable, h.uploads, h.moves, h.finishing⟩

/-- What a register holds after a write to a board that finishes everything at once. -/
def finished (value addr : Word) : Word := SimulatedBoard.settled {} value addr

variable {b : SimulatedBoard} {addr value : Word}

theorem finished_of_ne (hcache : addr ≠ Reg.cacheControl) (hdag : addr ≠ Reg.dagControl) :
    finished value addr = value := by
  simp [finished, settled, hcache, hdag]

/-! ## Single accesses -/

/-- A register that can be read and does not change by itself is found as it is. -/
theorem Intact.read_eq (h : b.Intact) (haddr : addr ∈ Reg.consulted) :
    b.read addr = ({ b with reads := b.reads.put addr (b.reads.getD addr 0 + 1) },
      .ok (b.register addr)) := by
  rw [read, if_neg (h.readable addr haddr)]
  simp only [h.unscripted addr haddr, h.steady addr haddr]
  rfl

theorem Intact.write_eq (h : b.Intact) (haddr : Reg.isProgrammed addr) (value : Word) :
    b.write value addr = ({ b.setRegister addr (finished value addr) with
      writes := (addr, value) :: b.writes }, .ok ()) := by
  rw [write, if_neg (h.writable addr haddr), finished, settled, settled, h.finishing]

theorem Intact.upload_eq (h : b.Intact) (length : Nat) (addr : UInt64) :
    b.upload length addr = ({ b with uploads := (addr, length) :: b.uploads }, .ok ()) := by
  rw [upload, h.uploads addr]

theorem Intact.move_eq (h : b.Intact) (src dst length : UInt64) :
    b.move src dst length = ({ b with moves := (src, dst, length) :: b.moves }, .ok ()) := by
  rw [move, h.moves]
  rfl

/-! ## Neighbouring registers -/

theorem Intact.setRegisters (h : b.Intact) (addr : Word) (words : List Word) :
    (setRegisters addr words b).Intact := by
  induction words generalizing addr b with
  | nil => exact h
  | cons word words ih =>
    have hset : (b.setRegister addr word).Intact := h.recorded ..
    exact ih hset (addr + 4)

theorem writes_setRegisters (addr : Word) (words : List Word) :
    (setRegisters addr words b).writes = b.writes := by
  induction words generalizing addr b with
  | nil => rfl
  | cons word words ih => exact ih (b := b.setRegister addr word) (addr + 4)

end SimulatedBoard

end HashBoard
