import HashBoard.Proofs.Alone.Clock
import HashBoard.Proofs.Dag.Ranges

/-!
# The registers of the mixers

The ranges that tile the nodes of the dataset are written to the registers of as many mixers, one
after the other. Each pair of registers lies behind the ones before it and in front of the status
word, so that no write disturbs another one.
-/

namespace HashBoard

open Routine

/-- The range that the registers hold for a mixer. -/
def Reg.rangeOf (register : Word → Word) (k : Nat) : Nat × Nat :=
  ((register (Reg.mixerStart (.ofNat k))).toNat, (register (Reg.mixerEnd (.ofNat k))).toNat)

/-- The ranges depend on nothing but the registers of the mixers. -/
theorem Reg.ranges_congr {register register' : Word → Word} {n : Nat} (hn : n ≤ Reg.maxMixers.toNat)
    (h : ∀ addr, Reg.isRange addr → register addr = register' addr) :
    (List.range' 0 n).map (Reg.rangeOf register) =
      (List.range' 0 n).map (Reg.rangeOf register') := by
  refine List.map_congr_left fun k hk ↦ ?_
  have hk : k < n := by simpa using hk
  obtain ⟨hstart, hend⟩ := Reg.isRange_mixer (Nat.lt_of_lt_of_le hk hn)
  rw [Reg.rangeOf, Reg.rangeOf, h _ hstart, h _ hend]

/-- A register of a mixer that comes after some others. -/
def Reg.IsRangeFrom (k : Nat) (addr : Word) : Prop :=
  Reg.isRange addr ∧ 0x400c + 8 * k ≤ addr.toNat

theorem Reg.toNat_mixer {k : Nat} (h : k < Reg.maxMixers.toNat) :
    (Reg.mixerStart (.ofNat k)).toNat = 0x400c + 8 * k ∧
      (Reg.mixerEnd (.ofNat k)).toNat = 0x4010 + 8 * k := by
  have all : ∀ k < Reg.maxMixers.toNat, (Reg.mixerStart (.ofNat k)).toNat = 0x400c + 8 * k ∧
      (Reg.mixerEnd (.ofNat k)).toNat = 0x4010 + 8 * k := by decide
  exact all k h

theorem Reg.isProgrammed_of_isRange {addr : Word} (h : Reg.isRange addr) :
    Reg.isProgrammed addr := by
  simp [isProgrammed, isGenerator_of_isRange h]

theorem Reg.ne_of_isRange {addr addr' : Word} (h : Reg.isRange addr) (h' : ¬Reg.isRange addr') :
    addr ≠ addr' := fun heq ↦ h' (heq ▸ h)

theorem SimulatedBoard.finished_of_isRange {addr value : Word} (h : Reg.isRange addr) :
    finished value addr = value :=
  finished_of_ne (Reg.ne_of_isRange h (by decide)) (Reg.ne_of_isRange h (by decide))

namespace Board

variable {ν : Type} [Quantity ν] {s : View ν}

/-- The registers of the mixers hold the ranges that were written to them. -/
theorem completes_programRanges {ranges : List (Nat × Nat)} {k : Nat}
    (room : k + ranges.length ≤ Reg.maxMixers.toNat)
    (small : ∀ range ∈ ranges, range.1 < UInt32.size ∧ range.2 < UInt32.size) :
    (programRanges (.ofNat k) ranges).Completes (fun _ t ↦ s.Changes (Reg.IsRangeFrom k) t ∧
      (List.range' k ranges.length).map (Reg.rangeOf t.register) = ranges) s := by
  induction ranges generalizing k s with
  | nil => exact completes_done ⟨.refl s, rfl⟩
  | cons range rest ih =>
    obtain ⟨start, stop⟩ := range
    rw [List.length_cons] at room
    obtain ⟨⟨hstart, hstop⟩, hsmall⟩ := List.forall_mem_cons.mp small
    have hk : k < Reg.maxMixers.toNat := by omega
    obtain ⟨hrangeStart, hrangeEnd⟩ := Reg.isRange_mixer hk
    obtain ⟨haddrStart, haddrEnd⟩ := Reg.toNat_mixer hk
    have hnext : UInt32.ofNat k + 1 = UInt32.ofNat (k + 1) := (UInt32.ofNat_add k 1).symm
    refine .bind (completes_tryWrite (Reg.isProgrammed_of_isRange hrangeStart) ?_)
    refine .bind (completes_tryWrite (Reg.isProgrammed_of_isRange hrangeEnd) ?_)
    rw [hnext]
    have hpair : s.Changes (Reg.IsRangeFrom k)
        ((s.put (Reg.mixerStart (.ofNat k)) (.ofNat start)).put (Reg.mixerEnd (.ofNat k))
          (.ofNat stop)) := by
      have hfirst := (View.Changes.refl s).put (A := Reg.IsRangeFrom k) (Reg.mixerStart (.ofNat k))
        (.ofNat start) ⟨hrangeStart, by omega⟩ (Reg.ne_of_isRange hrangeStart (by decide))
      exact hfirst.put _ _ ⟨hrangeEnd, by omega⟩ (Reg.ne_of_isRange hrangeEnd (by decide))
    refine (ih (by omega) hsmall).mono fun _ t ⟨hchanges, hrest⟩ ↦ ⟨?_, ?_⟩
    · exact hpair.trans (hchanges.mono fun addr h ↦ ⟨h.1, Nat.le_trans (by omega) h.2⟩)
    · have hne : Reg.mixerEnd (.ofNat k) ≠ Reg.mixerStart (.ofNat k) := by
        rw [ne_eq, ← UInt32.toNat_inj, haddrStart, haddrEnd]
        omega
      have hfirst : Reg.rangeOf t.register k = (start, stop) := by
        rw [Reg.rangeOf, hchanges.register _ fun h ↦ absurd h.2 (by omega),
          hchanges.register _ fun h ↦ absurd h.2 (by omega), View.register_put, View.register_put,
          View.register_put, if_neg hne, if_pos rfl, if_pos rfl,
          SimulatedBoard.finished_of_isRange hrangeStart,
          SimulatedBoard.finished_of_isRange hrangeEnd, UInt32.toNat_ofNat_of_lt' hstart,
          UInt32.toNat_ofNat_of_lt' hstop]
      rw [List.length_cons, List.range'_succ, List.map_cons, hrest, hfirst]

end Board

end HashBoard
