import HashBoard.Proofs.Routine.Reads
import HashBoard.Proofs.Search.Asks
import HashBoard.Proofs.Tally.Counter

/-!
# Nonces in slots

A board that raises no interrupts keeps its nonces in slots and shows which of them are full. A poll
reads the two words of each full slot, in order, and empties the slots if there was one.
-/

namespace HashBoard

variable {ν : Type}

/-- The nonce that two words of a slot were read as. -/
def slotNonce (talk : List (Answered ν)) (slot : Word) : UInt64 :=
  .ofNat ((wordRead (Reg.polledNonceHi slot) talk).toNat * UInt32.size +
    (wordRead (Reg.polledNonceLo slot) talk).toNat)

/-- The slots from number `k` on, `n` of them, that some flags show full. -/
def fullSlots (flags : Word) (k n : Nat) : List Word :=
  ((List.range' k n).map UInt32.ofNat).filter fun slot ↦ flags &&& Reg.polledReady slot ≠ 0

/-- The nonces in the slots that were shown full, in order. -/
def slotNonces (talk : List (Answered ν)) : List UInt64 :=
  (fullSlots (wordRead Reg.coreEnable talk) 0 Reg.polledSlots).map (slotNonce talk)

/-- Whether the slots are emptied. -/
def Answered.isClear : Answered ν → Bool
  | ⟨.call (.write value addr), _⟩ => value = Reg.coreClearNonces ∧ addr = Reg.coreEnable
  | _ => false

/-- How often the slots were emptied. -/
def clears (talk : List (Answered ν)) : Nat := talk.countP Answered.isClear

namespace Finds

open Routine Board

variable {talk : List (Answered ν)} {nonces : List UInt64} {flags : Word} {k n : Nat}

/-! ## Accounts of the slots -/

theorem fullSlots_succ :
    fullSlots flags k (n + 1) =
      if flags &&& Reg.polledReady (UInt32.ofNat k) = 0 then fullSlots flags (k + 1) n
      else UInt32.ofNat k :: fullSlots flags (k + 1) n := by
  rw [fullSlots, List.range'_succ, List.map_cons, List.filter_cons]
  split
  · rename_i h
    rw [if_neg (of_decide_eq_true h)]
    rfl
  · rename_i h
    rw [if_pos (by simpa using h)]
    rfl

/-- What reads nothing says nothing of the slots. -/
theorem slotNonces_append (h : ∀ said ∈ talk, ∀ addr, said.request ≠ .call (.read addr))
    (more : List (Answered ν)) : slotNonces (talk ++ more) = slotNonces more := by
  have word (addr : Word) : wordRead addr (talk ++ more) = wordRead addr more :=
    wordRead_append (fun said hs ↦ h said hs addr) more
  have nonce : slotNonce (talk ++ more) = slotNonce more := by
    funext slot
    rw [slotNonce, word, word, slotNonce]
  rw [slotNonces, word, nonce, slotNonces]

/-- Where nothing was read no slot is full. -/
theorem slotNonces_eq_nil (h : ∀ said ∈ talk, ∀ addr, said.request ≠ .call (.read addr)) :
    slotNonces talk = [] := by
  have hnone : fullSlots 0 0 Reg.polledSlots = [] := by decide
  have hword : wordRead Reg.coreEnable ([] : List (Answered ν)) = 0 := rfl
  rw [← List.append_nil talk, slotNonces_append h, slotNonces, hword, hnone, List.map_nil]

theorem clears_append (talk talk' : List (Answered ν)) :
    clears (talk ++ talk') = clears talk + clears talk' := List.countP_append

theorem clears_eq_zero
    (h : ∀ said ∈ talk, said.request ≠ .call (.write Reg.coreClearNonces Reg.coreEnable)) :
    clears talk = 0 := by
  refine List.countP_eq_zero.mpr fun said hs hclear ↦ ?_
  unfold Answered.isClear at hclear
  split at hclear
  · obtain ⟨rfl, rfl⟩ := of_decide_eq_true hclear
    exact h _ hs rfl
  · cases hclear

/-! ## Reading the slots -/

theorem slot_ne {j : Nat} (hk : k < Reg.polledSlots) (hj : j < Reg.polledSlots) (hne : k ≠ j) :
    Reg.polledNonceHi (UInt32.ofNat k) ≠ Reg.polledNonceHi (UInt32.ofNat j) ∧
      Reg.polledNonceHi (UInt32.ofNat k) ≠ Reg.polledNonceLo (UInt32.ofNat j) ∧
      Reg.polledNonceLo (UInt32.ofNat k) ≠ Reg.polledNonceHi (UInt32.ofNat j) ∧
      Reg.polledNonceLo (UInt32.ofNat k) ≠ Reg.polledNonceLo (UInt32.ofNat j) := by
  have all : ∀ k < Reg.polledSlots, ∀ j < Reg.polledSlots, k ≠ j →
      Reg.polledNonceHi (UInt32.ofNat k) ≠ Reg.polledNonceHi (UInt32.ofNat j) ∧
      Reg.polledNonceHi (UInt32.ofNat k) ≠ Reg.polledNonceLo (UInt32.ofNat j) ∧
      Reg.polledNonceLo (UInt32.ofNat k) ≠ Reg.polledNonceHi (UInt32.ofNat j) ∧
      Reg.polledNonceLo (UInt32.ofNat k) ≠ Reg.polledNonceLo (UInt32.ofNat j) := by decide
  exact all k hk j hj hne

theorem slot_own_ne (hk : k < Reg.polledSlots) :
    Reg.polledNonceHi (UInt32.ofNat k) ≠ Reg.polledNonceLo (UInt32.ofNat k) ∧
      Reg.coreEnable ≠ Reg.polledNonceHi (UInt32.ofNat k) ∧
      Reg.coreEnable ≠ Reg.polledNonceLo (UInt32.ofNat k) := by
  have all : ∀ k < Reg.polledSlots,
      Reg.polledNonceHi (UInt32.ofNat k) ≠ Reg.polledNonceLo (UInt32.ofNat k) ∧
      Reg.coreEnable ≠ Reg.polledNonceHi (UInt32.ofNat k) ∧
      Reg.coreEnable ≠ Reg.polledNonceLo (UInt32.ofNat k) := by decide
  exact all k hk

theorem exists_of_mem_fullSlots {slot : Word} (h : slot ∈ fullSlots flags k n) :
    ∃ j, k ≤ j ∧ j < k + n ∧ slot = UInt32.ofNat j := by
  obtain ⟨hslot, -⟩ := List.mem_filter.mp h
  obtain ⟨j, hj, rfl⟩ := List.mem_map.mp hslot
  obtain ⟨hkj, hjn⟩ := List.mem_range'_1.mp hj
  exact ⟨j, hkj, hjn, rfl⟩

/-- The slots from some on are read in order, each once. -/
theorem nonces_of_run_readSlots (h : k + n ≤ Reg.polledSlots)
    (run : Run (readSlots flags n (UInt32.ofNat k)) talk nonces) (more : List (Answered ν)) :
    nonces = (fullSlots flags k n).map (slotNonce (talk ++ more)) := by
  induction n generalizing k talk nonces with
  | zero => exact (run_done_iff.mp run).2.symm
  | succ n ih =>
    have hnext : UInt32.ofNat k + 1 = UInt32.ofNat (k + 1) := (UInt32.ofNat_add k 1).symm
    rw [readSlots, hnext] at run
    rw [fullSlots_succ]
    split at run
    · rename_i hempty
      rw [if_pos hempty]
      exact ih (by omega) run
    · rename_i hfull
      rw [if_neg hfull, List.map_cons]
      obtain ⟨first, hi, _, rfl, hhi, hrest⟩ := run_bind_iff.mp run
      obtain ⟨second, lo, _, rfl, hlo, hslots⟩ := run_bind_iff.mp hrest
      obtain ⟨third, rest, _, rfl, hthird, hdone⟩ := run_bind_iff.mp hslots
      obtain ⟨rfl, rfl⟩ := run_done_iff.mp hdone
      rw [List.append_nil, List.append_assoc, List.append_assoc]
      have hk : k < Reg.polledSlots := by omega
      congr 1
      · rw [slotNonce, wordRead_of_run hhi, wordRead_of_run_ne hhi (slot_own_ne hk).1,
          wordRead_of_run hlo, ← CheckCounter.toNat_compose, UInt64.ofNat_toNat]
      · -- the registers of later slots are others, so the words of this slot tell nothing of them
        rw [ih (by omega) hthird]
        refine List.map_congr_left fun slot hslot ↦ ?_
        obtain ⟨j, hkj, hj, rfl⟩ := exists_of_mem_fullSlots hslot
        obtain ⟨hhh, hhl, hlh, hll⟩ := slot_ne (j := j) hk (by omega) (by omega)
        rw [slotNonce, slotNonce, wordRead_of_run_ne hhi hhh, wordRead_of_run_ne hlo hlh,
          wordRead_of_run_ne hhi hhl, wordRead_of_run_ne hlo hll]

/-! ## Polling -/

theorem clears_of_run_tryWrite {what : String} {u : Unit}
    (run : Run (tryWrite Reg.coreClearNonces Reg.coreEnable what) talk u) : clears talk = 1 := by
  obtain ⟨mention, x, later, rfl, ⟨event, hmention⟩, hlater⟩ := exists_of_run_tryWrite run
  have hnone : clears later = 0 := by
    refine clears_eq_zero fun said hs ↦ ?_
    obtain ⟨event, hevent⟩ := hlater said hs
    rw [hevent]
    nofun
  have hfirst : clears [mention] = 0 := by
    refine clears_eq_zero (List.forall_mem_singleton.mpr ?_)
    rw [hmention]
    nofun
  have hwrite (x : Except LinkFault Unit) :
      clears [(⟨.call (.write Reg.coreClearNonces Reg.coreEnable), x⟩ : Answered ν)] = 1 := rfl
  have hparts : mention :: ⟨.call (.write Reg.coreClearNonces Reg.coreEnable), x⟩ :: later =
      [mention] ++ ([⟨.call (.write Reg.coreClearNonces Reg.coreEnable), x⟩] ++ later) := rfl
  rw [hparts, clears_append, clears_append, hfirst, hwrite, hnone]

/-- A poll gathers the nonces of the full slots, and empties the slots if there are any. -/
theorem of_run_pollNonces (run : Run pollNonces talk nonces) (more : List (Answered ν)) :
    nonces = slotNonces (talk ++ more) ∧ clears talk = if nonces = [] then 0 else 1 := by
  obtain ⟨first, flags, _, rfl, hflags, hrest⟩ := run_bind_iff.mp run
  obtain ⟨second, found, third, rfl, hslots, hclear⟩ := run_bind_iff.mp hrest
  have hnonces : found = slotNonces (first ++ (second ++ third) ++ more) := by
    rw [slotNonces, List.append_assoc, List.append_assoc, wordRead_of_run hflags,
      nonces_of_run_readSlots (k := 0) (by decide) hslots (third ++ more)]
    refine List.map_congr_left fun slot hslot ↦ ?_
    obtain ⟨j, -, hj, rfl⟩ := exists_of_mem_fullSlots hslot
    obtain ⟨-, hhi, hlo⟩ := slot_own_ne (k := j) (by omega)
    rw [slotNonce, slotNonce, wordRead_of_run_ne hflags hhi, wordRead_of_run_ne hflags hlo]
  have quiet : ∀ r : Request ν, r.isQuiet →
      r ≠ .call (.write Reg.coreClearNonces Reg.coreEnable) := by
    rintro r hr rfl
    cases hr
  have hquiet : clears first = 0 ∧ clears second = 0 := by
    constructor
    · exact clears_eq_zero ((only_readOr quiet nofun).of_run hflags)
    · exact clears_eq_zero
        ((only_readSlots quiet (fun _ _ ↦ nofun) flags (k := 0) (by decide)).of_run hslots)
  rw [clears_append, clears_append, hquiet.1, hquiet.2, Nat.zero_add, Nat.zero_add]
  split at hclear
  · rename_i hsome
    obtain ⟨writing, _, _, rfl, hwriting, hdone⟩ := run_bind_iff.mp hclear
    obtain ⟨rfl, rfl⟩ := run_done_iff.mp hdone
    refine ⟨hnonces, ?_⟩
    rw [List.append_nil, clears_of_run_tryWrite hwriting, if_neg (by simpa using hsome)]
  · rename_i hnone
    obtain ⟨rfl, rfl⟩ := run_done_iff.mp hclear
    exact ⟨hnonces, (if_pos (by simpa using hnone)).symm⟩

end Finds

end HashBoard
