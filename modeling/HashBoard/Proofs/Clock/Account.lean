import HashBoard.Proofs.Board.Registers
import HashBoard.Proofs.Clock.Rounding
import HashBoard.Proofs.Scene.Memory
import HashBoard.Proofs.Search.Asks

/-!
# The clock generator along a run

Only a clock change writes the two words of the clock generator, and only the owner makes one. The
account is those two words, the stock clock and the clock to return to as they are remembered, and
how many epoch changes were made. The board is faithful about both words.
-/

namespace HashBoard.Returning

open Routine Board

/-- The clock generator, and what is remembered of the clock. -/
structure Account (ν : Type) where
  /-- The oscillator word. -/
  vcoWord : Word
  /-- The stock clock. -/
  baseline : ν
  /-- The divisor word and the clock to return to. -/
  setting : Pll.Setting ν
  /-- How many epoch changes were made. -/
  made : Nat

variable {ν α : Type}

/-- What is remembered of the clock is what the account says. -/
def Account.Recalls (s : Account ν) (c : ClockState ν) : Prop :=
  c.baseline = s.baseline ∧ c.target = s.setting.target

/-- A reply tells truthfully what is remembered of the clock. -/
def Right (s : Account ν) : (r : Request ν) → Reply r → Prop
  | .memory, m => s.Recalls m.clock
  | _, _ => True

/-- The account after something was asked and answered, if `m` was remembered. -/
def Account.after (s : Account ν) (m : Memory ν) (said : Answered ν) : Account ν where
  vcoWord := (said.leaves Reg.pllVco).getD s.vcoWord
  baseline := (remembered m said.request).clock.baseline
  setting :=
    { clkWord := (said.leaves Reg.pllClk0).getD s.setting.clkWord
      target := (remembered m said.request).clock.target }
  made := s.made

/-- The board is faithful about both words. Others leave the account alone. -/
def watch (ν : Type) : Watch ν (Account ν) where
  safe _ := True
  acts s r x t :=
    Right s r x ∧ Answered.Faithful Reg.pllVco s.vcoWord ⟨r, x⟩ ∧
      Answered.Faithful Reg.pllClk0 s.setting.clkWord ⟨r, x⟩ ∧
      ∃ m, s.Recalls m.clock ∧ t = s.after m ⟨r, x⟩
  drifts s t := t = s
  refl _ := rfl
  trans h h' := h'.trans h
  safe_of_drifts _ h := h

variable {s t : Account ν} {r : Request ν} {x : Reply r} {p : Routine ν α}

theorem acts_of_moves (h : (watch ν).moves s r x t) : (watch ν).acts s r x t := by
  obtain ⟨u, rfl, ha⟩ := h
  exact ha

theorem ensures_request (r : Request ν) (s : Account ν) :
    (request r).Ensures (watch ν) (fun x t ↦ (watch ν).acts s r x t) s :=
  ⟨trivial, trivial, fun _ _ hm ↦ acts_of_moves hm⟩

/-! ## What leaves the clock alone -/

/-- A request that leaves the clock generator and what is remembered of the clock alone. -/
structure Spares (r : Request ν) : Prop where
  vco : ¬r.Writes Reg.pllVco
  clk : ¬r.Writes Reg.pllClk0
  clock : ∀ m : Memory ν, m.clock.AtPar (remembered m r).clock

theorem after_of_spares (hr : Spares r) (x : Reply r) {m : Memory ν} (hm : s.Recalls m.clock) :
    s.after m ⟨r, x⟩ = s := by
  obtain ⟨vcoWord, baseline, ⟨clkWord, target⟩, made⟩ := s
  obtain ⟨hbaseline, htarget⟩ := hm
  simp only [Account.after, leaves_of_not_writes hr.vco, leaves_of_not_writes hr.clk,
    (hr.clock m).baseline, (hr.clock m).target, hbaseline, htarget, Option.getD_none]

/-- A routine that leaves the clock alone leaves the account alone. -/
theorem ensures_spares (h : p.Only Spares) (s : Account ν) :
    p.Ensures (watch ν) (fun _ t ↦ t = s) s := by
  refine h.ensures rfl (fun _ _ ↦ trivial) (fun _ _ _ _ ↦ trivial) ?_
  rintro t r x u rfl hr hm
  obtain ⟨-, -, -, m, hrecalls, rfl⟩ := acts_of_moves hm
  exact after_of_spares hr x hrecalls

theorem spares_of_isQuiet (h : r.isQuiet) : Spares r := by
  refine ⟨r.not_writes_of_isQuiet h _, r.not_writes_of_isQuiet h _, fun m ↦ ?_⟩
  rw [remembered_of_isQuiet h]
  exact ⟨rfl, rfl⟩

theorem spares_note (event : Event ν) : Spares (.note event) := ⟨id, id, fun _ ↦ ⟨rfl, rfl⟩⟩

theorem spares_write {value addr : Word} (h : addr ≠ Reg.pllVco) (h' : addr ≠ Reg.pllClk0) :
    Spares (.call (.write value addr) : Request ν) := ⟨h, h', fun _ ↦ ⟨rfl, rfl⟩⟩

/-- The eight words of a hash lie in front of both words or behind them. -/
theorem spares_writeHash {hash : List UInt8} (hlen : hash.length = 32) {addr : Word} {swap : Bool}
    (h : 32 ≤ (Reg.pllVco - addr).toNat) (h' : 32 ≤ (Reg.pllClk0 - addr).toNat) :
    Spares (.call (.writeBulk hash addr swap) : Request ν) := by
  refine ⟨?_, ?_, fun _ ↦ ⟨rfl, rfl⟩⟩
  · rw [Request.Writes, hlen]
    exact Nat.not_lt.mpr h
  · rw [Request.Writes, hlen]
    exact Nat.not_lt.mpr h'

theorem spares_revise {f : Memory ν → Memory ν} (h : ∀ m : Memory ν, m.clock.AtPar (f m).clock) :
    Spares (.revise f) := ⟨id, id, h⟩

theorem spares_books (f : Memory ν → Memory ν) (h : Bookkeeping f) : Spares (.revise f) :=
  spares_revise fun m ↦ (h m).clock

theorem spares_reviseStatus (f : Status ν → Status ν) : Spares (.revise fun m ↦ m.withStatus f) :=
  spares_revise fun _ ↦ ⟨rfl, rfl⟩

theorem spares_look : Spares (.isCancelled : Request ν) := ⟨id, id, fun _ ↦ ⟨rfl, rfl⟩⟩

theorem spares_acquire : Spares (.acquire : Request ν) := ⟨id, id, fun _ ↦ ⟨rfl, rfl⟩⟩

theorem spares_release : Spares (.release : Request ν) := ⟨id, id, fun _ ↦ ⟨rfl, rfl⟩⟩

theorem roomToBuild_spares : RoomToBuild (Spares : Request ν → Prop) where
  quiet _ := spares_of_isQuiet
  phases _ := spares_note _
  overdue _ := spares_note _
  enters _ := spares_reviseStatus _
  looks := spares_look
  acquire := spares_acquire
  release := spares_release
  status := ⟨id, id, fun _ ↦ ⟨rfl, rfl⟩⟩
  writes value addr h := by
    refine spares_write ?_ ?_
    · rintro rfl
      exact absurd h (by decide)
    · rintro rfl
      exact absurd h (by decide)
  seed seed := by
    have hlen : seed.reversed.length = 32 := by
      rw [Hash.reversed, List.length_reverse, seed.length_eq]
    exact spares_writeHash hlen (by decide) (by decide)
  uploads _ _ := ⟨id, id, fun _ ↦ ⟨rfl, rfl⟩⟩
  moves _ _ _ := ⟨id, id, fun _ ↦ ⟨rfl, rfl⟩⟩

theorem roomToSearch_spares {work : Work} : RoomToSearch (Spares : Request ν → Prop) work where
  quiet _ := spares_of_isQuiet
  programmed _ _ _ := spares_note _
  stall := ⟨id, id, fun _ ↦ ⟨rfl, rfl⟩⟩
  slots _ _ := ⟨id, id, fun _ ↦ ⟨rfl, rfl⟩⟩
  checks _ _ := ⟨id, id, fun _ ↦ ⟨rfl, rfl⟩⟩
  interrupts _ _ := ⟨id, id, fun _ ↦ ⟨rfl, rfl⟩⟩
  looks := spares_look
  tunes _ := ⟨id, id, fun _ ↦ ⟨rfl, rfl⟩⟩
  averages f h := spares_revise fun m ↦ (h m).clock
  books := spares_books
  searching _ := spares_reviseStatus _
  halt := spares_revise fun _ ↦ ⟨rfl, rfl⟩
  acquire := spares_acquire
  release := spares_release
  writes value addr h := by
    refine spares_write ?_ ?_
    · rintro rfl
      exact absurd h (by decide)
    · rintro rfl
      exact absurd h (by decide)
  header := spares_writeHash work.header.length_eq (by decide) (by decide)
  target hash := spares_writeHash hash.length_eq (by decide) (by decide)
  submits _ _ := ⟨id, id, fun _ ↦ ⟨rfl, rfl⟩⟩

theorem spares_of_modest (h : Modest r) : Spares r := by
  cases h with
  | quiet h => exact spares_of_isQuiet h
  | coreFlags value => exact spares_write (by decide) (by decide)
  | coreOff | powerOff => exact spares_write (by decide) (by decide)
  | books h => exact spares_books _ h
  | halt | newWork => exact spares_revise fun _ ↦ ⟨rfl, rfl⟩
  | _ => exact ⟨id, id, fun _ ↦ ⟨rfl, rfl⟩⟩

end HashBoard.Returning
