import Mathlib.Algebra.Order.Floor.Div
import Mathlib.Data.List.Chain
import HashBoard.Proofs.Intensity.ControlWord

/-!
# The walk down

A core that is stopped softly has its intensity walked down in steps of one size, an eighth of the
level there is, rounded up. Where the steps do not come out even the walk would go below zero, and
ends with a word at level zero instead; where they do come out even it ends with its last step, and
the switch takes the core down from there.

In both cases a walk that is continued by zero never falls by more than a step (`isChain_levels`).
That is the invariant of the walk, and it covers the last drop together with all the others.
-/

namespace HashBoard

namespace Intensity

variable {step level : ℕ} {flags : Word}

/-! ### The levels of a walk -/

theorem levels_of_pos (hlevel : 0 < level) (hstep : 0 < step) : levels step level =
    level :: if level < step then [0] else levels step (level - step) := by
  rw [levels, if_pos ⟨hlevel, hstep⟩]

@[simp] theorem levels_zero (step : ℕ) : levels step 0 = [] := by
  rw [levels, if_neg (by omega)]

theorem levels_eq_nil_iff (hstep : 0 < step) : levels step level = [] ↔ level = 0 := by
  constructor
  · intro h
    by_contra hlevel
    rw [levels_of_pos (Nat.pos_of_ne_zero hlevel) hstep] at h
    exact List.cons_ne_nil _ _ h
  · rintro rfl
    exact levels_zero step

/-- Each level is below all those before it. -/
theorem pairwise_levels (step level : ℕ) : (levels step level).Pairwise (· > ·) := by
  fun_induction levels step level with
  | case1 level running ih =>
    refine List.pairwise_cons.mpr ⟨?_, ?_⟩
    · intro l hl
      split at hl
      · rw [List.mem_singleton.mp hl]
        exact running.1
      · have := le_of_mem_levels hl
        omega
    · split
      · exact List.pairwise_singleton _ _
      · rename_i more
        exact ih more
  | case2 => exact .nil

/-- A walk that is continued by zero starts where it is. -/
theorem head?_levels (hstep : 0 < step) (level : ℕ) :
    (levels step level ++ [0]).head? = some level := by
  rcases Nat.eq_zero_or_pos level with rfl | hlevel
  · rw [levels_zero]
    rfl
  · rw [levels_of_pos hlevel hstep]
    rfl

/-- A walk that is continued by zero falls by a step at most. -/
theorem isChain_levels (step level : ℕ) :
    (levels step level ++ [0]).IsChain fun l l' ↦ l ≤ l' + step := by
  fun_induction levels step level with
  | case1 level running ih =>
    rw [List.cons_append, List.isChain_cons]
    split
    · rename_i last
      refine ⟨?_, by simp⟩
      intro l hl
      omega
    · rename_i more
      refine ⟨?_, ih more⟩
      intro l hl
      rw [head?_levels running.2] at hl
      cases hl
      omega
  | case2 => exact List.isChain_singleton 0

/-- There are as many levels above zero as there are steps, the last of which may be cut short. -/
theorem countP_levels (hstep : 0 < step) (level : ℕ) :
    (levels step level).countP (0 < ·) = level ⌈/⌉ step := by
  fun_induction levels step level with
  | case1 level running ih =>
    rw [List.countP_cons_of_pos (by simpa using running.1)]
    split
    · rename_i last
      have one : (level + step - 1) / step = 1 := by
        rw [Nat.div_eq_iff hstep]
        omega
      rw [Nat.ceilDiv_eq_add_pred_div, one]
      rfl
    · rename_i more
      have shorter : level + step - 1 = level - step + step - 1 + step := by omega
      rw [ih more, Nat.ceilDiv_eq_add_pred_div, Nat.ceilDiv_eq_add_pred_div, shorter,
        Nat.add_div_right _ hstep]
  | case2 level stopped =>
    obtain rfl : level = 0 := by omega
    simp

/-! ### The words of a ramp -/

theorem field_top (w : Word) : field 24 8 w = w.toNat / 2 ^ 24 := by
  have := w.toNat_lt
  rw [field]
  omega

/-- A flag word is its level and what is below it. -/
theorem eq_of_fields {w v : Word} (top : field 24 8 w = field 24 8 v)
    (rest : field 0 24 w = field 0 24 v) : w = v := by
  rw [field_top, field_top] at top
  rw [field, field, Nat.pow_zero, Nat.div_one, Nat.div_one] at rest
  rw [← UInt32.toNat_inj]
  omega

theorem step_pos (h : field 24 8 flags ≠ 0) : 0 < (field 24 8 flags + 7) / 8 := by omega

theorem ramp_eq_nil_iff (flags : Word) : ramp flags = [] ↔ field 24 8 flags = 0 := by
  rw [← List.map_eq_nil_iff (f := field 24 8), (ramp_walks flags).1]
  by_cases h : field 24 8 flags = 0
  · rw [h, levels_zero]
    exact iff_of_true rfl rfl
  · exact levels_eq_nil_iff (step_pos h)

/-- The ramp starts with the word that there is. -/
theorem eq_of_head_ramp {word : Word} (h : word ∈ (ramp flags).head?) : word = flags := by
  have top : field 24 8 word ∈ ((ramp flags).map (field 24 8)).head? := by
    rw [List.head?_map, h]
    rfl
  rw [head_ramp] at top
  split at top
  · cases top
  · exact eq_of_fields (Option.some_inj.mp top).symm
      ((ramp_walks flags).2 word (List.mem_of_mem_head? h))

theorem countP_ramp (flags : Word) : (ramp flags).countP (0 < field 24 8 ·) ≤ 8 := by
  have count : (ramp flags).countP (0 < field 24 8 ·) =
      ((ramp flags).map (field 24 8)).countP (0 < ·) := by
    rw [List.countP_map]
    rfl
  rw [count, (ramp_walks flags).1]
  by_cases h : field 24 8 flags = 0
  · rw [h, levels_zero]
    exact Nat.zero_le _
  · rw [countP_levels (step_pos h), ceilDiv_le_iff_le_mul (step_pos h)]
    omega

/-- Flag words that walk the level of `flags` down to zero by an eighth of it at a time, or less. -/
structure WalksDown (flags : Word) (words : List Word) : Prop where
  /-- There are none exactly where there is nothing to walk down from. -/
  nil_iff : words = [] ↔ field 24 8 flags = 0
  /-- The first one is the word that there is. -/
  first : ∀ word ∈ words.head?, word = flags
  /-- All of them keep what is below the level. -/
  rest : ∀ word ∈ words, field 0 24 word = field 0 24 flags
  /-- The level falls with every word. -/
  falls : words.Pairwise fun word word' ↦ field 24 8 word' < field 24 8 word
  /-- No level is above the one that there was. -/
  below : ∀ word ∈ words, field 24 8 word ≤ field 24 8 flags
  /-- Eight of them at most have a level. -/
  few : words.countP (0 < field 24 8 ·) ≤ 8
  /-- From each word to the next, and from the last one to zero, the level falls by an eighth of
  what it was at most, rounded up. -/
  gentle : (words.map (field 24 8) ++ [0]).IsChain fun l l' ↦ l ≤ l' + (field 24 8 flags + 7) / 8

/-- **The ramp never takes a step larger than an eighth.** -/
theorem ramp_walksDown (flags : Word) : WalksDown flags (ramp flags) := by
  obtain ⟨walk, rest⟩ := ramp_walks flags
  refine ⟨ramp_eq_nil_iff flags, fun _ ↦ eq_of_head_ramp, rest, ?_, ?_, countP_ramp flags, ?_⟩
  · have falls := pairwise_levels ((field 24 8 flags + 7) / 8) (field 24 8 flags)
    rw [← walk, List.pairwise_map] at falls
    exact falls
  · intro word hword
    have hlevel : field 24 8 word ∈ (ramp flags).map (field 24 8) := List.mem_map_of_mem hword
    rw [walk] at hlevel
    exact le_of_mem_levels hlevel
  · rw [walk]
    exact isChain_levels _ _

/-- A walk that does not come out even ends at zero. -/
example : (ramp 0x09001234).map (field 24 8) = [9, 7, 5, 3, 1, 0] := by decide +kernel

end Intensity

end HashBoard
