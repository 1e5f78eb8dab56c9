import Mathlib.Data.List.Chain
import HashBoard.Checks

/-!
# What a counter makes of its samples

The counter is corrected by one in the high word where a sample lies below the one before. As long
as the board itself leaves the high word at zero this is right once: from the first wrap on the
counter stands one carry above the board, and the next wrap is told as a step back. `delta_iff` says
exactly which deltas are right for a counter that advances by the same step with every sample.
-/

namespace HashBoard

/-- Somewhere a sample lies below the one before. -/
def Wrapped (samples : List Word) : Prop := ¬samples.IsChain (· ≤ ·)

instance (samples : List Word) : Decidable (Wrapped samples) := inferInstanceAs (Decidable ¬_)

/-- The last sample lies below the one before, and so did an earlier one. -/
def Relapses (samples : List Word) : Prop :=
  ∃ earlier before last, samples = earlier ++ [before, last] ∧ last < before ∧
    Wrapped (earlier ++ [before])

namespace CheckCounter

/-- The counter after some samples of its low word, with zero in the high word. -/
def afterAll (c : CheckCounter) (samples : List Word) : CheckCounter :=
  samples.foldl (fun c lo ↦ (c.advance lo 0).1) c

/-- The deltas that a counter makes of some samples. -/
def tally : (c : CheckCounter) → (samples : List Word) → List UInt64
  | _, [] => []
  | c, lo :: rest => (c.advance lo 0).2 :: (c.advance lo 0).1.tally rest

variable {c : CheckCounter} {samples : List Word} {before lo step : Word}

theorem afterAll_snoc :
    c.afterAll (samples ++ [lo]) = ((c.afterAll samples).advance lo 0).1 := List.foldl_concat ..

theorem tally_snoc :
    c.tally (samples ++ [lo]) = c.tally samples ++ [((c.afterAll samples).advance lo 0).2] := by
  induction samples generalizing c with
  | nil => rfl
  | cons lo' samples ih => exact congrArg _ ih

@[simp] theorem length_tally : (c.tally samples).length = samples.length := by
  induction samples generalizing c with
  | nil => rfl
  | cons lo samples ih => exact congrArg Nat.succ ih

/-! ## One sample -/

theorem toNat_compose (lo hi : Word) :
    (compose lo hi).toNat = hi.toNat * UInt32.size + lo.toNat := by
  have hsize : UInt32.size = 2 ^ 32 := rfl
  have hor : 2 ^ 32 * hi.toNat + lo.toNat = 2 ^ 32 * hi.toNat ||| lo.toNat :=
    Nat.two_pow_add_eq_or_of_lt lo.toNat_lt hi.toNat
  have hlt : hi.toNat * 2 ^ 32 < 2 ^ 64 := by have := hi.toNat_lt; omega
  rw [compose, UInt64.toNat_or, UInt64.toNat_shiftLeft, UInt32.toNat_toUInt64,
    UInt32.toNat_toUInt64, UInt64.toNat_ofNat, Nat.shiftLeft_eq, Nat.mod_eq_of_lt hlt, hsize,
    Nat.mul_comm, hor]

@[simp] theorem toNat_compose_zero (lo : Word) : (compose lo 0).toNat = lo.toNat := by
  rw [toNat_compose, UInt32.toNat_zero, Nat.zero_mul, Nat.zero_add]

@[simp] theorem toNat_compose_one (lo : Word) : (compose lo 1).toNat = UInt32.size + lo.toNat := by
  rw [toNat_compose, UInt32.toNat_one, Nat.one_mul]

/-- A sample that lies where the counter stands, or above. -/
theorem advance_of_le (hlo : lo ≠ 0) (h : c.last.toNat ≤ lo.toNat) :
    c.advance lo 0 = (⟨compose lo 0⟩, compose lo 0 - c.last) := by
  have hle : ¬compose lo 0 < c.last := by
    rw [UInt64.lt_iff_toNat_lt, toNat_compose_zero]
    omega
  rw [advance, if_neg (by simp [hlo])]
  simp only [if_neg hle]

/-- A sample that lies below where the counter stands. -/
theorem advance_of_lt (hlo : lo ≠ 0) (h : lo.toNat < c.last.toNat) :
    c.advance lo 0 = (⟨compose lo 1⟩, compose lo 1 - c.last) := by
  have hlt : compose lo 0 < c.last := by
    rw [UInt64.lt_iff_toNat_lt, toNat_compose_zero]
    exact h
  rw [advance, if_neg (by simp [hlo])]
  simp only [if_pos hlt]
  rfl

/-! ## Many samples -/

theorem wrapped_snoc :
    Wrapped (samples ++ [before, lo]) ↔ Wrapped (samples ++ [before]) ∨ lo < before := by
  rw [Wrapped, Wrapped, List.append_cons, List.isChain_append]
  simp [← imp_iff_not_or]

/-- From the first wrap on the counter stands one carry above the board. -/
theorem toNat_last (nonzero : ∀ x ∈ samples ++ [before], x ≠ 0) :
    (afterAll {} (samples ++ [before])).last.toNat =
      before.toNat + if Wrapped (samples ++ [before]) then UInt32.size else 0 := by
  have hbefore : before ≠ 0 := nonzero before (List.mem_append_right _ (.head _))
  rw [afterAll_snoc]
  induction samples using List.reverseRecOn generalizing before with
  | nil =>
    have hwrapped : ¬Wrapped ([] ++ [before]) := by simp [Wrapped]
    rw [if_neg hwrapped, advance_of_le hbefore (Nat.zero_le _), toNat_compose_zero, Nat.add_zero]
  | append_singleton samples a ih =>
    have hsamples : ∀ x ∈ samples ++ [a], x ≠ 0 := fun x h ↦
      nonzero x (List.mem_append_left _ h)
    have hlast := ih hsamples (nonzero a (by simp))
    rw [← afterAll_snoc] at hlast
    rw [List.append_assoc, List.singleton_append, if_congr wrapped_snoc rfl rfl]
    have hlt := before.toNat_lt_size
    by_cases hwrapped : Wrapped (samples ++ [a])
    · rw [if_pos hwrapped] at hlast
      rw [if_pos (.inl hwrapped), advance_of_lt hbefore (by omega), toNat_compose_one, Nat.add_comm]
    · rw [if_neg hwrapped, Nat.add_zero] at hlast
      by_cases hbelow : before < a
      · rw [if_pos (.inr hbelow)]
        rw [UInt32.lt_iff_toNat_lt, ← hlast] at hbelow
        rw [advance_of_lt hbefore hbelow, toNat_compose_one, Nat.add_comm]
      · rw [if_neg (not_or.mpr ⟨hwrapped, hbelow⟩), Nat.add_zero]
        rw [UInt32.lt_iff_toNat_lt, ← hlast, not_lt] at hbelow
        rw [advance_of_le hbefore hbelow, toNat_compose_zero]

theorem relapses_snoc :
    Relapses (samples ++ [before, lo]) ↔ lo < before ∧ Wrapped (samples ++ [before]) := by
  constructor
  · rintro ⟨earlier, before', lo', hsamples, hlt, hwrapped⟩
    obtain ⟨rfl, hlast⟩ := List.append_inj' hsamples rfl
    cases hlast
    exact ⟨hlt, hwrapped⟩
  · exact fun ⟨hlt, hwrapped⟩ ↦ ⟨samples, before, lo, rfl, hlt, hwrapped⟩

/-- **Which deltas are right.** Where the counter of the board advances by a step between two
samples, the delta is that step unless the second sample relapses. -/
theorem delta_iff (nonzero : ∀ x ∈ samples ++ [before, lo], x ≠ 0) (hlo : lo = before + step) :
    ((afterAll {} (samples ++ [before])).advance lo 0).2 = step.toUInt64 ↔
      ¬Relapses (samples ++ [before, lo]) := by
  have hlo0 : lo ≠ 0 := nonzero lo (by simp)
  have hsamples : ∀ x ∈ samples ++ [before], x ≠ 0 := fun x h ↦ by
    refine nonzero x ?_
    rw [List.append_cons]
    exact List.mem_append_left _ h
  have hlast := toNat_last hsamples
  have hstep : lo.toNat = (before.toNat + step.toNat) % 2 ^ 32 := by rw [hlo, UInt32.toNat_add]
  generalize afterAll {} (samples ++ [before]) = c at hlast
  have hbefore := before.toNat_lt
  have hs := step.toNat_lt
  have hsize : UInt32.size = 2 ^ 32 := rfl
  rw [relapses_snoc, UInt32.lt_iff_toNat_lt, ← UInt64.toNat_inj, UInt32.toNat_toUInt64]
  by_cases hwrapped : Wrapped (samples ++ [before])
  · -- the counter stands one carry above, and takes another one for granted
    rw [if_pos hwrapped] at hlast
    rw [advance_of_lt hlo0 (by omega), UInt64.toNat_sub, toNat_compose_one]
    simp only [hwrapped, and_true]
    omega
  · rw [if_neg hwrapped, Nat.add_zero] at hlast
    simp only [hwrapped, and_false, not_false_eq_true, iff_true]
    by_cases hbelow : lo.toNat < before.toNat
    · rw [advance_of_lt hlo0 (by omega), UInt64.toNat_sub, toNat_compose_one]
      omega
    · rw [advance_of_le hlo0 (by omega), UInt64.toNat_sub, toNat_compose_zero]
      omega

/-- The first delta is the sample, as if the board had started from zero. -/
theorem delta_first (hlo : lo ≠ 0) : (advance {} lo 0).2 = lo.toUInt64 := by
  rw [advance_of_le hlo (Nat.zero_le _)]
  simp [compose]

end CheckCounter

end HashBoard
