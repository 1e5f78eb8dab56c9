import HashBoard.Proofs.Scene.Memory
import HashBoard.Proofs.Search.Asks

/-!
# How often the generator is started

An epoch change starts the generator once at most, and not at all for the epoch of the last change
that succeeded. That epoch is remembered, and nobody but the owner touches what is remembered of it:
a change sets it right before it succeeds, and one that fails leaves it.

The account is the remembered epoch and the number of starts, beside what the history asks for: how
many starts there may be, the epoch of the last success, and the epoch of the change under way. The
remembered epoch is always that of the last success, or the one that is about to be.
-/

namespace HashBoard

/-- Starts the generator of the dataset. -/
def Request.isStart {ν : Type} : Request ν → Bool
  | .call (.write value addr) => value = Reg.dagStart ∧ addr = Reg.dagControl
  | _ => false

namespace Once

open Routine Board

/-- The remembered epoch and the starts, beside what the history asks for. -/
structure Account where
  /-- The epoch that is remembered. -/
  lastEpoch : Option Word
  /-- How often the generator was started. -/
  starts : Nat
  /-- How often it may have been started. -/
  allowed : Nat
  /-- The epoch of the last change that succeeded. -/
  done : Option Word
  /-- The epoch of the change under way. -/
  current : Option Word

variable {ν α : Type} {s t : Account} {epoch : Word}

/-- There were no more starts than there may be, and the remembered epoch is that of the last
success or of the change under way. -/
structure Account.Sound (s : Account) : Prop where
  starts : s.starts ≤ s.allowed
  last : s.lastEpoch = s.done ∨ ∃ epoch, s.current = some epoch ∧ s.lastEpoch = some epoch

/-- How the account stands where no change has come to its end. -/
structure Account.Idle (s : Account) : Prop where
  starts : s.starts ≤ s.allowed
  last : s.lastEpoch = s.done

theorem Account.Idle.sound (h : s.Idle) : s.Sound := ⟨h.starts, .inl h.last⟩

/-- A reply tells the remembered epoch truthfully. -/
def Right (lastEpoch : Option Word) : (r : Request ν) → Reply r → Prop
  | .memory, m => m.lastEpoch = lastEpoch
  | _, _ => True

/-- Others leave the account alone. -/
def watch (ν : Type) : Watch ν Account where
  safe := Account.Sound
  acts s r x t :=
    Right s.lastEpoch r x ∧
      ∃ m : Memory ν, m.lastEpoch = s.lastEpoch ∧
        t = { s with
          lastEpoch := (remembered m r).lastEpoch
          starts := s.starts + if r.isStart then 1 else 0 }
  drifts s t := t = s
  refl _ := rfl
  trans h h' := h'.trans h
  safe_of_drifts h hs := h ▸ hs

/-! ## What leaves the account alone -/

/-- A request that starts nothing and leaves the remembered epoch alone. -/
structure Spares (r : Request ν) : Prop where
  start : r.isStart = false
  epoch : ∀ m : Memory ν, (remembered m r).lastEpoch = m.lastEpoch

theorem eq_of_moves {r : Request ν} {x : Reply r} (hr : Spares r) (hm : (watch ν).moves s r x t) :
    t = s ∧ Right s.lastEpoch r x := by
  obtain ⟨u, rfl, hright, m, hlast, rfl⟩ := hm
  refine ⟨?_, hright⟩
  rw [hr.start, hr.epoch, hlast]
  rfl

theorem ensures_spares {p : Routine ν α} (h : p.Only Spares) (hs : s.Sound) :
    p.Ensures (watch ν) (fun _ t ↦ t = s) s := by
  refine h.ensures rfl ?_ (fun _ _ _ _ ↦ trivial) ?_
  · rintro t rfl
    exact hs
  · rintro t r x u rfl hr hm
    exact (eq_of_moves hr hm).1

theorem spares_of_isQuiet {r : Request ν} (h : r.isQuiet) : Spares r := by
  constructor
  · cases r with
    | call c =>
      cases c with
      | write => cases h
      | _ => rfl
    | _ => rfl
  · intro m
    rw [remembered_of_isQuiet h]

theorem spares_note (event : Event ν) : Spares (.note event) := ⟨rfl, fun _ ↦ rfl⟩

theorem spares_write {value addr : Word} (h : addr ≠ Reg.dagControl) :
    Spares (.call (.write value addr) : Request ν) := by
  refine ⟨?_, fun _ ↦ rfl⟩
  simp [Request.isStart, h]

theorem spares_books (f : Memory ν → Memory ν) (h : Bookkeeping f) : Spares (.revise f) :=
  ⟨rfl, fun m ↦ (h m).lastEpoch⟩

theorem spares_reviseStatus (f : Status ν → Status ν) : Spares (.revise fun m ↦ m.withStatus f) :=
  ⟨rfl, fun _ ↦ rfl⟩

theorem spares_acquire : Spares (.acquire : Request ν) := ⟨rfl, fun _ ↦ rfl⟩

theorem spares_release : Spares (.release : Request ν) := ⟨rfl, fun _ ↦ rfl⟩

theorem spares_look : Spares (.isCancelled : Request ν) := ⟨rfl, fun _ ↦ rfl⟩

theorem spares_writeHash (hash : List UInt8) (addr : Word) (swap : Bool) :
    Spares (.call (.writeBulk hash addr swap) : Request ν) := ⟨rfl, fun _ ↦ rfl⟩

theorem roomToDrive_spares : RoomToDrive (Spares : Request ν → Prop) where
  quiet _ := spares_of_isQuiet
  preparing := spares_note _
  enter := spares_reviseStatus _
  changing _ := spares_note _
  clocks _ _ := spares_note _
  clock _ := ⟨rfl, fun _ ↦ rfl⟩
  books := spares_books
  writes value addr h := by
    refine spares_write ?_
    rintro rfl
    exact absurd h (by decide)
  stop := ⟨rfl, fun _ ↦ rfl⟩

theorem roomToAwait_spares : RoomToAwait (Spares : Request ν → Prop) where
  quiet _ := spares_of_isQuiet
  overdue := spares_note _
  looks := spares_look
  acquire := spares_acquire
  release := spares_release
  status := ⟨rfl, fun _ ↦ rfl⟩

theorem roomToCache_spares : RoomToCache (Spares : Request ν → Prop) where
  quiet _ := spares_of_isQuiet
  phases _ := spares_note _
  overdue := spares_note _
  enters _ := spares_reviseStatus _
  looks := spares_look
  acquire := spares_acquire
  release := spares_release
  writes value addr h := by
    refine spares_write ?_
    rintro rfl
    exact absurd h (by decide)
  seed _ := spares_writeHash _ _ _
  uploads _ _ := ⟨rfl, fun _ ↦ rfl⟩

theorem roomToSearch_spares {work : Work} : RoomToSearch (Spares : Request ν → Prop) work where
  quiet _ := spares_of_isQuiet
  programmed _ _ _ := spares_note _
  stall := ⟨rfl, fun _ ↦ rfl⟩
  slots _ _ := ⟨rfl, fun _ ↦ rfl⟩
  checks _ _ := ⟨rfl, fun _ ↦ rfl⟩
  interrupts _ _ := ⟨rfl, fun _ ↦ rfl⟩
  looks := spares_look
  tunes _ := ⟨rfl, fun _ ↦ rfl⟩
  averages f h := ⟨rfl, fun m ↦ (h m).lastEpoch⟩
  books := spares_books
  searching _ := spares_reviseStatus _
  halt := ⟨rfl, fun _ ↦ rfl⟩
  acquire := spares_acquire
  release := spares_release
  writes value addr h := by
    refine spares_write ?_
    rintro rfl
    exact absurd h (by decide)
  header := spares_writeHash _ _ _
  target _ := spares_writeHash _ _ _
  submits _ _ := ⟨rfl, fun _ ↦ rfl⟩

end Once

end HashBoard
