import Mathlib.Data.List.DropRight
import Mathlib.Data.UInt
import HashBoard.Proofs.Tally.Halves

/-!
# What the deltas of a counter add up to

A delta is the difference of two last values, so the deltas of neighbouring samples telescope: from
a counter on they add up to the last value, less the one that the counter started from, whichever
samples are corrected on the way (`last_add_sum`). A reset puts the counter back to the start, so
the sum begins anew there.

All of this is modulo `2 ^ 64`. Where the samples themselves never fall nothing is corrected and no
difference wraps, and the sum is right as it stands (`last_add_sum_of_rising`).
-/

namespace HashBoard.CheckCounter

/-- The two words of a sample. -/
structure Sample where
  /-- The low word. -/
  lo : Word
  /-- The high word. -/
  hi : Word
  deriving DecidableEq

namespace Sample

variable (s : Sample)

/-- Both words are zero. -/
def IsReset : Prop := s.lo = 0 ∧ s.hi = 0

instance : Decidable s.IsReset := inferInstanceAs (Decidable (_ ∧ _))

/-- The value of the two words. -/
def value : ℕ := s.hi.toNat * 2 ^ 32 + s.lo.toNat

/-- The value with one more carry in the high word, which wraps. -/
def carried : ℕ := (s.hi.toNat + 1) % 2 ^ 32 * 2 ^ 32 + s.lo.toNat

theorem toNat_compose_eq_value : (compose s.lo s.hi).toNat = s.value := toNat_compose s.lo s.hi

theorem toNat_compose_eq_carried : (compose s.lo (s.hi + 1)).toNat = s.carried := by
  rw [toNat_compose, UInt32.toNat_add]
  rfl

theorem value_eq_zero_iff : s.value = 0 ↔ s.IsReset := by
  rw [IsReset, ← UInt32.toNat_inj, ← UInt32.toNat_inj, UInt32.toNat_zero, value]
  omega

end Sample

/-- The counter after some samples. -/
def after (c : CheckCounter) (samples : List Sample) : CheckCounter :=
  samples.foldl (fun c s ↦ (c.advance s.lo s.hi).1) c

/-- Samples with the deltas that a counter makes of them. -/
def told : (c : CheckCounter) → (samples : List Sample) → List (Sample × UInt64)
  | _, [] => []
  | c, s :: rest => (s, (c.advance s.lo s.hi).2) :: (c.advance s.lo s.hi).1.told rest

/-- What a fresh counter makes of some samples, from the latest reset on. -/
def toldSinceReset (samples : List Sample) : List (Sample × UInt64) :=
  (told {} samples).rtakeWhile (¬·.1.IsReset)

variable {c : CheckCounter} {s : Sample} {samples more : List Sample}

/-! ### One sample -/

theorem advance_of_isReset (h : s.IsReset) : c.advance s.lo s.hi = ({}, 0) := if_pos h

/-- A delta is the difference of two last values, however the sample is corrected. -/
theorem delta_eq_last_sub (h : ¬s.IsReset) :
    (c.advance s.lo s.hi).2 = (c.advance s.lo s.hi).1.last - c.last := by
  rw [advance_of_nonzero c h]

theorem last_add_delta (h : ¬s.IsReset) :
    c.last + (c.advance s.lo s.hi).2 = (c.advance s.lo s.hi).1.last := by
  rw [delta_eq_last_sub h, UInt64.add_comm, UInt64.sub_add_cancel]

/-- Where a counter stands after a sample that is no reset. -/
theorem toNat_last_advance (h : ¬s.IsReset) : (c.advance s.lo s.hi).1.last.toNat =
    if s.value < c.last.toNat then s.carried else s.value := by
  rw [advance_of_nonzero c h, if_congr UInt64.lt_iff_toNat_lt rfl rfl, s.toNat_compose_eq_value]
  split
  · exact s.toNat_compose_eq_carried
  · exact s.toNat_compose_eq_value

/-- A sample that does not lie below where the counter stands takes it there. -/
theorem advance_of_rising (h : c.last.toNat ≤ s.value) :
    (c.advance s.lo s.hi).1.last.toNat = s.value ∧
      c.last.toNat + (c.advance s.lo s.hi).2.toNat = s.value := by
  by_cases reset : s.IsReset
  · have zero := s.value_eq_zero_iff.mpr reset
    rw [advance_of_isReset reset, zero]
    rw [zero] at h
    exact ⟨rfl, Nat.le_zero.mp h⟩
  · have last := toNat_last_advance (c := c) reset
    rw [if_neg (by omega)] at last
    refine ⟨last, ?_⟩
    have le : c.last ≤ (c.advance s.lo s.hi).1.last := by
      rw [UInt64.le_iff_toNat_le, last]
      exact h
    rw [delta_eq_last_sub reset, UInt64.toNat_sub_of_le _ _ le, last]
    omega

/-! ### Many samples -/

theorem after_append : c.after (samples ++ more) = (c.after samples).after more :=
  List.foldl_append

theorem told_append : c.told (samples ++ more) = c.told samples ++ (c.after samples).told more := by
  induction samples generalizing c with
  | nil => rfl
  | cons s samples ih => exact congrArg _ ih

theorem after_snoc : c.after (samples ++ [s]) = ((c.after samples).advance s.lo s.hi).1 :=
  List.foldl_concat ..

theorem told_snoc :
    c.told (samples ++ [s]) = c.told samples ++ [(s, ((c.after samples).advance s.lo s.hi).2)] :=
  told_append

theorem map_value_told : (c.told samples).map (·.1.value) = samples.map Sample.value := by
  induction samples generalizing c with
  | nil => rfl
  | cons s samples ih => exact congrArg _ ih

/-- **The deltas telescope.** -/
theorem last_add_sum (h : ∀ s ∈ samples, ¬s.IsReset) :
    c.last + ((c.told samples).map Prod.snd).sum = (c.after samples).last := by
  induction samples generalizing c with
  | nil => exact add_zero c.last
  | cons s samples ih =>
    obtain ⟨first, rest⟩ := List.forall_mem_cons.mp h
    calc c.last + (((c.told (s :: samples)).map Prod.snd).sum)
        = c.last + (c.advance s.lo s.hi).2 +
            (((c.advance s.lo s.hi).1.told samples).map Prod.snd).sum := by
          rw [told, List.map_cons, List.sum_cons, add_assoc]
      _ = (c.advance s.lo s.hi).1.last +
            (((c.advance s.lo s.hi).1.told samples).map Prod.snd).sum := by
          rw [last_add_delta first]
      _ = (c.after (s :: samples)).last := ih rest

/-- Where samples never fall the sum of the deltas does not wrap. -/
theorem last_add_sum_of_rising (h : (c.last.toNat :: samples.map Sample.value).IsChain (· ≤ ·)) :
    c.last.toNat + ((c.told samples).map (·.2.toNat)).sum =
      (samples.map Sample.value).getLastD c.last.toNat := by
  induction samples generalizing c with
  | nil => rfl
  | cons s samples ih =>
    rw [List.map_cons, List.isChain_cons_cons] at h
    obtain ⟨last, delta⟩ := advance_of_rising h.1
    have rest := ih (c := (c.advance s.lo s.hi).1) (last.symm ▸ h.2)
    rw [told, List.map_cons, List.sum_cons, ← Nat.add_assoc, delta, List.map_cons,
      List.getLastD_cons, ← last]
    exact rest

/-! ### Since the latest reset -/

/-- What was sampled before the latest reset does not matter. -/
theorem exists_since_reset (samples : List Sample) : ∃ earlier since, samples = earlier ++ since ∧
    after {} earlier = {} ∧ (∀ s ∈ since, ¬s.IsReset) ∧
      toldSinceReset samples = told {} since := by
  induction samples using List.reverseRecOn with
  | nil => exact ⟨[], [], rfl, rfl, List.forall_mem_nil _, rfl⟩
  | append_singleton samples s ih =>
    obtain ⟨earlier, since, rfl, fresh, unreset, htold⟩ := ih
    by_cases reset : s.IsReset
    · refine ⟨earlier ++ since ++ [s], [], (List.append_nil _).symm, ?_, List.forall_mem_nil _, ?_⟩
      · rw [after_snoc, advance_of_isReset reset]
      · rw [toldSinceReset, told_snoc, List.rtakeWhile_concat_neg]
        · rfl
        · simpa using reset
    · refine ⟨earlier, since ++ [s], List.append_assoc .., fresh, ?_, ?_⟩
      · exact List.forall_mem_append.mpr ⟨unreset, List.forall_mem_singleton.mpr reset⟩
      · rw [toldSinceReset, told_snoc, List.rtakeWhile_concat_pos, ← toldSinceReset, htold,
          told_snoc, after_append, fresh]
        simpa using reset

/-- What the deltas of a fresh counter add up to, and where the next sample takes it. -/
structure Telescopes (samples : List Sample) : Prop where
  /-- The deltas since the latest reset add up to the last value, modulo `2 ^ 64`. -/
  total : ((toldSinceReset samples).map Prod.snd).sum = (after {} samples).last
  /-- A sample that is no reset takes the counter to its value, or, exactly if that lies below where
  the counter stands, to its value with one more carry. -/
  next : ∀ s : Sample, ¬s.IsReset → (after {} (samples ++ [s])).last.toNat =
    if s.value < (after {} samples).last.toNat then s.carried else s.value
  /-- A reset is told as nothing, and leaves a fresh counter. -/
  reset : ∀ s : Sample, s.IsReset →
    told {} (samples ++ [s]) = told {} samples ++ [(s, 0)] ∧ after {} (samples ++ [s]) = {}
  /-- Where the samples since the latest reset never fall, the deltas add up to the last of them,
  and nothing wraps. -/
  rises : ((toldSinceReset samples).map (·.1.value)).IsChain (· ≤ ·) →
    ((toldSinceReset samples).map (·.2.toNat)).sum =
      ((toldSinceReset samples).map (·.1.value)).getLastD 0
  /-- So they do from any other sample on, less where the counter stood then. -/
  risesOn : ∀ more, ((after {} samples).last.toNat :: more.map Sample.value).IsChain (· ≤ ·) →
    (after {} samples).last.toNat + (((after {} samples).told more).map (·.2.toNat)).sum =
      (more.map Sample.value).getLastD (after {} samples).last.toNat

/-- **The deltas since the latest reset telescope.** -/
theorem deltas_telescope (samples : List Sample) : Telescopes samples := by
  obtain ⟨earlier, since, rfl, fresh, unreset, htold⟩ := exists_since_reset samples
  refine ⟨?_, ?_, ?_, ?_, fun more ↦ last_add_sum_of_rising⟩
  · rw [htold, after_append, fresh, ← last_add_sum unreset]
    exact (zero_add _).symm
  · intro s unreset
    rw [after_snoc]
    exact toNat_last_advance unreset
  · intro s reset
    rw [told_snoc, after_snoc, advance_of_isReset reset]
    exact ⟨rfl, rfl⟩
  · intro rising
    rw [htold, map_value_told] at rising ⊢
    have start : ((after {} []).last.toNat :: since.map Sample.value).IsChain (· ≤ ·) :=
      List.isChain_cons.mpr ⟨fun _ _ ↦ Nat.zero_le _, rising⟩
    have sum := last_add_sum_of_rising start
    exact (Nat.zero_add _).symm.trans sum

/-- A counter that wraps, is reset, and has a carry after that. -/
def Sample.wrapped : List Sample := [⟨300, 0⟩, ⟨16, 0⟩, ⟨0, 0⟩, ⟨50, 0⟩, ⟨20, 1⟩]

/-- Since its reset it has counted what it shows. -/
theorem sum_since_reset_of_wrapped :
    ((toldSinceReset Sample.wrapped).map (·.1.value)).IsChain (· ≤ ·) ∧
      ((toldSinceReset Sample.wrapped).map (·.2.toNat)).sum = 2 ^ 32 + 20 := by
  have rising : ((toldSinceReset Sample.wrapped).map (·.1.value)).IsChain (· ≤ ·) := by decide
  have last : ((toldSinceReset Sample.wrapped).map (·.1.value)).getLastD 0 = 2 ^ 32 + 20 := by
    decide
  exact ⟨rising, ((deltas_telescope Sample.wrapped).rises rising).trans last⟩

end HashBoard.CheckCounter
