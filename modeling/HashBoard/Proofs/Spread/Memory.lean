import Mathlib.Algebra.Group.Nat.Defs
import HashBoard.Proofs.Status.Account

/-!
# Memory that is copied within

A copy moves the bytes of its source to its destination. The copies that spread a dataset work on
three parts of the memory: the staged dataset in the upper half, whose pieces are the sources, the
image in the lower half, which they go to, and the upper half again, where the image is copied back.
Until then no copy changes what a later one still reads. And the pieces do not get into each other's
way in the image, because exchanging two digits is its own inverse (`swap_swap`). So the memory
after any number of pieces can be written down at once (`spreadBy`).
-/

namespace HashBoard

namespace Spread

variable {α : Type} {M : ℕ → α}

/-! ## The effect of copies -/

/-- Memory after a copy: the destination holds what the source held. -/
def moved (M : ℕ → α) (c : Dag.Copy) (a : ℕ) : α :=
  if c.2.1.toNat ≤ a ∧ a < c.2.1.toNat + c.2.2.toNat then M (c.1.toNat + (a - c.2.1.toNat)) else M a

/-- Memory after copies, one after the other. -/
def after (M : ℕ → α) (copies : List Dag.Copy) : ℕ → α := copies.foldl moved M

theorem after_append (M : ℕ → α) (copies more : List Dag.Copy) :
    after M (copies ++ more) = after (after M copies) more := List.foldl_append

/-! ## Where the pieces go -/

/-- The number with the two hexadecimal digits of another one below 256, exchanged. -/
def swap (i : ℕ) : ℕ := i % 16 * 16 + i / 16

theorem swap_lt {i : ℕ} (h : i < 256) : swap i < 256 := by
  rw [swap]
  omega

theorem swap_swap {i : ℕ} (h : i < 256) : swap (swap i) = i := by
  simp only [swap]
  omega

/-- Source, destination and length of the copy of a piece. -/
theorem toNat_pieceCopy {i : ℕ} (h : i < 256) :
    (Dag.pieceCopy i).1.toNat = 2 ^ 32 + i * 2 ^ 24 ∧
    (Dag.pieceCopy i).2.1.toNat = swap i * 2 ^ 24 ∧ (Dag.pieceCopy i).2.2.toNat = 2 ^ 24 := by
  have all : ∀ i < 256, (Dag.pieceCopy i).1.toNat = 2 ^ 32 + i * 2 ^ 24 ∧
      (Dag.pieceCopy i).2.1.toNat = swap i * 2 ^ 24 ∧ (Dag.pieceCopy i).2.2.toNat = 2 ^ 24 := by
    decide +kernel
  exact all i h

/-! ## The pieces -/

/-- Memory after the first pieces were spread: where one of them goes there is what was staged of
it, and everything else is as it was. -/
def spreadBy (M : ℕ → α) (k a : ℕ) : α :=
  if a < 2 ^ 32 ∧ swap (a / 2 ^ 24) < k then
    M (2 ^ 32 + swap (a / 2 ^ 24) * 2 ^ 24 + a % 2 ^ 24)
  else M a

/-- The staged dataset stays as it is while the pieces are spread. -/
theorem spreadBy_of_le {k a : ℕ} (h : 2 ^ 32 ≤ a) : spreadBy M k a = M a :=
  if_neg fun ha ↦ absurd ha.1 (Nat.not_lt_of_le h)

theorem moved_spreadBy {k : ℕ} (hk : k < 256) :
    moved (spreadBy M k) (Dag.pieceCopy k) = spreadBy M (k + 1) := by
  funext a
  obtain ⟨hsrc, hdst, hlen⟩ := toNat_pieceCopy hk
  rw [moved, hsrc, hdst, hlen]
  by_cases hin : swap k * 2 ^ 24 ≤ a ∧ a < swap k * 2 ^ 24 + 2 ^ 24
  · -- the place of piece `k`
    have hpiece : a / 2 ^ 24 = swap k := by omega
    have hoffset : a - swap k * 2 ^ 24 = a % 2 ^ 24 := by omega
    have hlow : a < 2 ^ 32 := by
      have := swap_lt hk
      omega
    rw [if_pos hin, spreadBy_of_le (by omega), spreadBy, hpiece, swap_swap hk,
      if_pos ⟨hlow, k.lt_succ_self⟩, hoffset]
  · rw [if_neg hin, spreadBy, spreadBy]
    have hother : (a < 2 ^ 32 ∧ swap (a / 2 ^ 24) < k) ↔
        (a < 2 ^ 32 ∧ swap (a / 2 ^ 24) < k + 1) := by
      refine and_congr_right fun hlow ↦ ⟨Nat.lt_succ_of_lt, fun hlt ↦ ?_⟩
      refine Nat.lt_of_le_of_ne (Nat.le_of_lt_succ hlt) fun heq ↦ hin ?_
      have hpiece : a / 2 ^ 24 = swap k := by
        rw [← heq, swap_swap (by omega)]
      omega
    simp only [hother]

/-- Memory after the first pieces were spread, piece by piece. -/
theorem after_pieceCopies {k : ℕ} (hk : k ≤ 256) : after M (Dag.pieceCopies k) = spreadBy M k := by
  induction k with
  | zero =>
    funext a
    exact (if_neg fun h ↦ absurd h.2 (Nat.not_lt_zero _)).symm
  | succ k ih =>
    rw [Dag.pieceCopies_succ, after_append, ih (Nat.le_of_succ_le hk)]
    exact moved_spreadBy hk

/-- No piece is spread over what is staged. -/
theorem after_pieceCopies_of_le {k a : ℕ} (hk : k ≤ 256) (h : 2 ^ 32 ≤ a) :
    after M (Dag.pieceCopies k) a = M a := by
  rw [after_pieceCopies hk, spreadBy_of_le h]

/-! ## Both images -/

/-- Every byte of the staged dataset gets to its place in the image, and again in the copy of the
image. -/
theorem after_copies {i o : ℕ} (hi : i < 256) (ho : o < 2 ^ 24) :
    after M Dag.copies (swap i * 2 ^ 24 + o) = M (2 ^ 32 + i * 2 ^ 24 + o) ∧
    after M Dag.copies (2 ^ 32 + swap i * 2 ^ 24 + o) = M (2 ^ 32 + i * 2 ^ 24 + o) := by
  have hswap := swap_lt hi
  have hpiece : (swap i * 2 ^ 24 + o) / 2 ^ 24 = swap i := by omega
  have hoffset : (swap i * 2 ^ 24 + o) % 2 ^ 24 = o := by omega
  have himage : spreadBy M 256 (swap i * 2 ^ 24 + o) = M (2 ^ 32 + i * 2 ^ 24 + o) := by
    rw [spreadBy, hpiece, hoffset, swap_swap hi, if_pos ⟨by omega, hi⟩]
  have hcopies : after M Dag.copies =
      moved (spreadBy M 256) (0, Reg.imageTarget, Reg.imageLength) := by
    rw [Dag.copies, after_append, Reg.chunkCount, after_pieceCopies (Nat.le_refl _)]
    rfl
  have htarget : Reg.imageTarget.toNat = 2 ^ 32 := rfl
  have hlength : Reg.imageLength.toNat = 2 ^ 32 := rfl
  rw [hcopies]
  constructor
  · rw [moved, htarget, if_neg (by omega), himage]
  · rw [moved, htarget, hlength, if_pos (by omega)]
    have hback : (0 : UInt64).toNat + (2 ^ 32 + swap i * 2 ^ 24 + o - 2 ^ 32) =
        swap i * 2 ^ 24 + o := by
      rw [UInt64.toNat_zero]
      omega
    rw [hback, himage]

end Spread

end HashBoard
