import HashBoard.Proofs.Scene.Upkeep
import HashBoard.Proofs.Search.Asks

/-!
# How complete a dataset is

The word that says which epoch the resident dataset belongs to is written at the end of an epoch
change that built one. It is to mean that the generator was started, that its end was seen unless
the settings say not to wait for it, and that every copy was made that spreads the dataset. Three
failures on the way there are swallowed: a start that could not be written, an end that did not
come in time, and a copy that failed.

The account is how far the call under way has got with the dataset, kept from what it asked and was
answered.
-/

namespace HashBoard

namespace Dag

/-- Source, destination and length of a copy within the memory stacks. -/
abbrev Copy := UInt64 × UInt64 × UInt64

/-- The copy of a piece of the staged dataset. -/
def pieceCopy (i : Nat) : Copy :=
  (Reg.staging + UInt64.ofNat i * Reg.chunkSize, pieceTarget (UInt64.ofNat i), Reg.chunkSize)

/-- The copies of the first pieces. -/
def pieceCopies (n : Nat) : List Copy := (List.range n).map pieceCopy

/-- The copies that spread a dataset: all pieces, and then the image. -/
def copies : List Copy := pieceCopies Reg.chunkCount ++ [(0, Reg.imageTarget, Reg.imageLength)]

@[simp] theorem length_pieceCopies (n : Nat) : (pieceCopies n).length = n := by simp [pieceCopies]

theorem pieceCopies_succ (n : Nat) : pieceCopies (n + 1) = pieceCopies n ++ [pieceCopy n] := by
  simp [pieceCopies, List.range_succ]

theorem length_copies : copies.length = 257 := by simp [copies, Reg.chunkCount]

end Dag

/-! ## The account -/

/-- How far a call has got with a dataset. -/
structure Progress where
  /-- The epoch that the call is for. -/
  epoch : Option Word := none
  /-- The generator was started. -/
  started : Bool := false
  /-- The generator was seen to have finished. -/
  finished : Bool := false
  /-- The copies that were made, in order. -/
  copies : List Dag.Copy := []
  /-- A failure on the way was swallowed. -/
  swallowed : Bool := false
  /-- What the word on the board was last read as. -/
  shown : Option Word := none

namespace Progress

variable {ν : Type}

/-- What a request and its reply add. A start that succeeds makes what was seen before stale. -/
def after (s : Progress) : Answered ν → Progress
  | ⟨.call (.write value addr), .ok ()⟩ =>
    if addr = Reg.dagControl ∧ value = Reg.dagStart then
      { s with started := true, finished := false }
    else s
  | ⟨.call (.write value addr), .error _⟩ =>
    if addr = Reg.dagControl ∧ value = Reg.dagStart then { s with swallowed := true } else s
  | ⟨.call (.read addr), .ok value⟩ =>
    if addr = Reg.dagControl then { s with finished := s.finished || value &&& Reg.dagDone ≠ 0 }
    else if addr = Reg.dagStatus then { s with shown := some value }
    else s
  | ⟨.call (.move src dst length), .ok ()⟩ => { s with copies := s.copies ++ [(src, dst, length)] }
  | ⟨.call (.move ..), .error _⟩ => { s with swallowed := true }
  | ⟨.note (.notWaitingAnyLonger e), ()⟩ =>
    if e = .overdue "DAG generation" then { s with swallowed := true } else s
  | _ => s

/-- The dataset was generated. -/
def IsGenerated (b : Board) (s : Progress) : Prop :=
  s.started ∧ (b.settings.skipDagWait ∨ s.finished)

/-- The dataset was generated and spread. -/
def IsComplete (b : Board) (s : Progress) : Prop := s.IsGenerated b ∧ s.copies = Dag.copies

/-- The word on the board was last read as that of a resident dataset of an epoch. -/
def Shows (epoch : Word) (s : Progress) : Prop :=
  ∃ value, s.shown = some value ∧ value &&& Reg.dagStatusValid ≠ 0 ∧
    value &&& (0xffff : Word) = epoch &&& (0xffff : Word)

/-- Nothing was done yet for an epoch. -/
def Fresh (epoch : Word) (s : Progress) : Prop :=
  s.epoch = some epoch ∧ s.started = false ∧ s.finished = false ∧ s.copies = [] ∧
    s.swallowed = false

instance (b : Board) (s : Progress) : Decidable (s.IsGenerated b) :=
  inferInstanceAs (Decidable (_ ∧ _))

instance (b : Board) (s : Progress) : Decidable (s.IsComplete b) :=
  inferInstanceAs (Decidable (_ ∧ _))

end Progress

/-- A write that says that the dataset of an epoch is resident. -/
def Request.marks {ν : Type} : Request ν → Option Word
  | .call (.write value addr) =>
    if addr = Reg.dagStatus ∧ value &&& Reg.dagStatusValid ≠ 0 then some value else none
  | _ => none

namespace Status

open Routine Board

variable {ν α : Type} {b : Board} {s t : Progress} {r : Request ν} {x : Reply r}
  {p : Routine ν α}

/-- Where a word is written, it is that of the epoch, and the dataset is complete unless something
was swallowed. -/
def Marked (b : Board) (value : Word) (s : Progress) : Prop :=
  (∃ epoch, s.epoch = some epoch ∧
    value = Reg.dagStatusValid ||| (epoch &&& (0xffff : Word))) ∧
  (s.IsComplete b ↔ s.swallowed = false)

/-- A word is written only where that says what it should. -/
def watch (ν : Type) (b : Board) : Watch ν Progress where
  safe _ := True
  allows s r := ∀ value, r.marks = some value → Marked b value s
  acts s r x t := t = s.after ⟨r, x⟩
  drifts s t := t = s
  refl _ := rfl
  trans h h' := h'.trans h
  safe_of_drifts _ h := h
  allows_of_drifts h hr := h ▸ hr

theorem eq_of_moves (hm : (watch ν b).moves s r x t) : t = s.after ⟨r, x⟩ := by
  obtain ⟨u, rfl, h⟩ := hm
  exact h

/-! ## What adds nothing -/

/-- A request that does not write the word. -/
def Unmarked (r : Request ν) : Prop := r.marks = none

/-- A request that adds nothing to the account and does not write the word. -/
def Idles (r : Request ν) : Prop := Unmarked r ∧ ∀ s (x : Reply r), Progress.after s ⟨r, x⟩ = s

theorem allows_of_unmarked (h : Unmarked r) : (watch ν b).allows s r := by
  intro value hmarks
  rw [h] at hmarks
  cases hmarks

theorem ensures_unmarked (h : p.Only Unmarked) (s : Progress) :
    p.Ensures (watch ν b) (fun _ _ ↦ True) s :=
  h.ensures trivial (fun _ _ ↦ trivial) (fun _ _ _ ↦ allows_of_unmarked)
    fun _ _ _ _ _ _ _ ↦ trivial

theorem ensures_idle (h : p.Only Idles) (s : Progress) :
    p.Ensures (watch ν b) (fun _ t ↦ t = s) s := by
  refine h.ensures (R := fun t ↦ t = s) rfl (fun _ _ ↦ trivial)
    (fun _ _ _ hr ↦ allows_of_unmarked hr.1) fun t r x u ht hr hm ↦ ?_
  rw [eq_of_moves hm, hr.2, ht]

theorem ensures_true (h : p.Only Idles) (s : Progress) :
    p.Ensures (watch ν b) (fun _ _ ↦ True) s := (ensures_idle h s).mono fun _ _ _ ↦ trivial

/-- What idles keeps whatever holds of the account. -/
theorem ensures_keep {R : Progress → Prop} (hs : R s) (h : p.Only Idles) :
    p.Ensures (watch ν b) (fun _ ↦ R) s :=
  (ensures_idle h s).mono fun _ _ ht ↦ ht ▸ hs

theorem epoch_after (s : Progress) (said : Answered ν) : (s.after said).epoch = s.epoch := by
  unfold Progress.after
  repeat' split
  all_goals rfl

/-! ### Requests by kind -/

theorem unmarked_write {value addr : Word} (h : addr ≠ Reg.dagStatus) :
    Unmarked (.call (.write value addr) : Request ν) := if_neg fun haddr ↦ h haddr.1

theorem idles_read {addr : Word} (hcontrol : addr ≠ Reg.dagControl)
    (hstatus : addr ≠ Reg.dagStatus) :
    Idles (.call (.read addr) : Request ν) := by
  refine ⟨rfl, fun s x ↦ ?_⟩
  cases x with
  | ok value => exact (if_neg hcontrol).trans (if_neg hstatus)
  | error fault => rfl

theorem idles_of_isQuiet (h : r.isQuiet) : Idles r := by
  cases r with
  | call c =>
    cases c with
    | read addr =>
      have htelling : addr ∉ Reg.telling := by simpa [Request.isQuiet] using h
      refine idles_read ?_ ?_
      · rintro rfl
        exact htelling (by decide)
      · rintro rfl
        exact htelling (by decide)
    | kick => exact ⟨rfl, fun _ _ ↦ rfl⟩
    | _ => simp [Request.isQuiet] at h
  | note event =>
    refine ⟨rfl, fun s x ↦ ?_⟩
    cases event with
    | notWaitingAnyLonger e => simp [Request.isQuiet, Event.isMilestone] at h
    | _ => rfl
  | _ => exact ⟨rfl, fun _ _ ↦ rfl⟩

theorem idles_write {value addr : Word} (hstatus : addr ≠ Reg.dagStatus)
    (hstart : ¬(addr = Reg.dagControl ∧ value = Reg.dagStart)) :
    Idles (.call (.write value addr) : Request ν) := by
  refine ⟨unmarked_write hstatus, fun s x ↦ ?_⟩
  cases x with
  | ok => exact if_neg hstart
  | error fault => exact if_neg hstart

end Status

end HashBoard
