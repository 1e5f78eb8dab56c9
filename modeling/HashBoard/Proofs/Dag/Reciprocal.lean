import Mathlib.Algebra.Order.Ring.Nat
import Mathlib.Tactic.Ring
import HashBoard.Proofs.Items.Account
import HashBoard.Proofs.Routine.Transcript

/-!
# The reciprocal of the item count

The core reduces a number modulo the item count without dividing by it: it takes the upper part of
the product with a reciprocal for the quotient, and corrects what is left. The reciprocal is
`2 ^ 56` over the count with the fraction dropped (`toNat_itemReciprocal_eq`), so it is too small by
less than one, and the product with a word of 32 bits is too small by less than `2 ^ 32`. That is
less than one part of the scale, so the quotient is too small by at most one, and one correction is
enough (`mod_eq_corrected`).

The register has room for 32 bits. The reciprocal has no more exactly for counts above `2 ^ 24`.
-/

namespace HashBoard

namespace Dag

/-- What the core takes for the quotient of a number by the item count. -/
def estimate (count x : Word) : ℕ := x.toNat * (itemReciprocal count).toNat / 2 ^ 56

/-- What is left of a number that way. -/
def rest (count x : Word) : ℕ := x.toNat - estimate count x * count.toNat

variable {count : Word}

/-- The two divisions are one. -/
theorem toNat_itemReciprocal_eq (count : Word) :
    (itemReciprocal count).toNat = 2 ^ 56 / count.toNat := by
  have scale : (0x1000_0000_0000_0000 : UInt64).toNat = 2 ^ 56 * 2 ^ 4 := rfl
  rw [itemReciprocal]
  split
  · rename_i zero
    rw [zero, UInt32.toNat_zero, Nat.div_zero]
    rfl
  · rw [UInt64.toNat_shiftRight, UInt64.toNat_div, UInt32.toNat_toUInt64,
      Nat.shiftRight_eq_div_pow, scale, Nat.div_div_eq_div_mul]
    exact Nat.mul_div_mul_right (2 ^ 56) count.toNat (Nat.two_pow_pos 4)

/-! ### The error of an estimate -/

section Scale

variable {scale n x : ℕ}

/-- A reciprocal that is rounded down gives no quotient that is too large. -/
theorem mul_div_scale_le (hscale : 0 < scale) (hn : 0 < n) :
    x * (scale / n) / scale ≤ x / n := by
  rw [Nat.le_div_iff_mul_le hn]
  refine Nat.le_of_mul_le_mul_right ?_ hscale
  calc x * (scale / n) / scale * n * scale
      = x * (scale / n) / scale * scale * n := by ring
    _ ≤ x * (scale / n) * n := Nat.mul_le_mul_right n (Nat.div_mul_le_self _ _)
    _ = x * (scale / n * n) := Nat.mul_assoc ..
    _ ≤ x * scale := Nat.mul_le_mul_left x (Nat.div_mul_le_self scale n)

/-- Below the scale it gives none that is too small by more than one. -/
theorem div_le_mul_div_scale_succ (hx : x < scale) (hn : 0 < n) :
    x / n ≤ x * (scale / n) / scale + 1 := by
  have hscale : 0 < scale := Nat.zero_lt_of_lt hx
  set r := scale / n
  set q := x * r / scale
  have reciprocal : scale ≤ n * (r + 1) := (Nat.lt_mul_div_succ scale hn).le
  have quotient : x * r < scale * (q + 1) := Nat.lt_mul_div_succ (x * r) hscale
  have close : x * scale < (q + 2) * n * scale := by
    calc x * scale
        ≤ x * (n * (r + 1)) := Nat.mul_le_mul_left x reciprocal
      _ = n * (x * r) + n * x := by ring
      _ < n * (scale * (q + 1)) + n * scale :=
          Nat.add_lt_add (Nat.mul_lt_mul_of_pos_left quotient hn)
            (Nat.mul_lt_mul_of_pos_left hx hn)
      _ = (q + 2) * n * scale := by ring
  rw [← Nat.lt_succ_iff, Nat.div_lt_iff_lt_mul hn]
  exact Nat.lt_of_mul_lt_mul_right close

end Scale

theorem estimate_le (hpos : 0 < count.toNat) (x : Word) :
    estimate count x ≤ x.toNat / count.toNat := by
  rw [estimate, toNat_itemReciprocal_eq]
  exact mul_div_scale_le (Nat.two_pow_pos 56) hpos

theorem le_estimate_succ (hpos : 0 < count.toNat) (x : Word) :
    x.toNat / count.toNat ≤ estimate count x + 1 := by
  have hx : x.toNat < 2 ^ 56 := x.toNat_lt.trans (by decide)
  rw [estimate, toNat_itemReciprocal_eq]
  exact div_le_mul_div_scale_succ hx hpos

/-! ### Reducing -/

theorem estimate_mul_le (hpos : 0 < count.toNat) (x : Word) :
    estimate count x * count.toNat ≤ x.toNat :=
  (Nat.mul_le_mul_right _ (estimate_le hpos x)).trans (Nat.div_mul_le_self _ _)

/-- What is left is the remainder, or one item count more. -/
theorem rest_lt (hpos : 0 < count.toNat) (x : Word) : rest count x < 2 * count.toNat := by
  have next : x.toNat < count.toNat * (x.toNat / count.toNat + 1) :=
    Nat.lt_mul_div_succ x.toNat hpos
  have reach : count.toNat * (x.toNat / count.toNat + 1) ≤ count.toNat * (estimate count x + 2) :=
    Nat.mul_le_mul_left _ (Nat.succ_le_succ (le_estimate_succ hpos x))
  have parts : count.toNat * (estimate count x + 2) =
      estimate count x * count.toNat + 2 * count.toNat := by ring
  rw [rest]
  omega

/-- One correction gives the remainder. -/
theorem mod_eq_corrected (hpos : 0 < count.toNat) (x : Word) : x.toNat % count.toNat =
    if rest count x < count.toNat then rest count x else rest count x - count.toNat := by
  have left := rest_lt hpos x
  have same : rest count x % count.toNat = x.toNat % count.toNat := by
    have fits := estimate_mul_le hpos x
    rw [Nat.mul_comm] at fits
    rw [rest, Nat.mul_comm, Nat.sub_mul_mod fits]
  rw [← same]
  split
  · rename_i small
    exact Nat.mod_eq_of_lt small
  · rename_i large
    rw [Nat.mod_eq_sub_mod (not_lt.mp large), Nat.mod_eq_of_lt (by omega)]

/-! ### The register -/

/-- The reciprocals of large counts, and no others, fit the register. -/
theorem toNat_programmed_iff (hpos : 0 < count.toNat) :
    (itemReciprocal count).toUInt32.toNat = (itemReciprocal count).toNat ↔
      2 ^ 24 < count.toNat := by
  have fits : (itemReciprocal count).toNat < 2 ^ 32 ↔ 2 ^ 24 < count.toNat := by
    rw [toNat_itemReciprocal_eq, Nat.div_lt_iff_lt_mul hpos]
    omega
  rw [UInt64.toNat_toUInt32, ← fits]
  constructor
  · intro h
    rw [← h]
    exact Nat.mod_lt _ (Nat.two_pow_pos 32)
  · exact Nat.mod_eq_of_lt

end Dag

namespace Board

open Routine

variable {ν : Type} [Quantity ν]

/-- The low word of the reciprocal is what is accessed last before the core is ready. -/
theorem getLast?_accesses_of_run_prepareCore {ctx : EpochContext} {talk : List (Answered ν)}
    {u : Unit} (run : Run (prepareCore ctx) talk u) : ∃ x, (accesses talk).getLast? =
      some ⟨.call (.write (Dag.itemReciprocal (Dag.items ctx.dagSize)).toUInt32
        Reg.itemReciprocal), x⟩ := by
  obtain ⟨entering, _, _, rfl, -, run⟩ := run_bind_iff.mp run
  obtain ⟨changing, _, _, rfl, -, run⟩ := run_bind_iff.mp run
  obtain ⟨clock, _, _, rfl, -, run⟩ := run_bind_iff.mp run
  obtain ⟨stopping, _, _, rfl, -, run⟩ := run_bind_iff.mp run
  obtain ⟨power, _, _, rfl, -, run⟩ := run_bind_iff.mp run
  obtain ⟨control, _, _, rfl, -, run⟩ := run_bind_iff.mp run
  obtain ⟨number, _, _, rfl, -, run⟩ := run_bind_iff.mp run
  obtain ⟨more, hmore, hmap⟩ := (accesses_tryWrite _ _ _ []).of_run run
  obtain ⟨⟨_, x⟩, rfl, rfl⟩ := List.map_eq_singleton_iff.mp hmap
  refine ⟨x, ?_⟩
  rw [List.nil_append] at hmore
  simp only [accesses_append, hmore, List.getLast?_append, List.getLast?_singleton]
  rfl

end Board

/-- The reciprocal of an item count is good enough to reduce words by with one correction. -/
structure Dag.Reduces (count : Word) : Prop where
  /-- It is the scale over the count, with the fraction dropped. -/
  reciprocal : count.toNat * (itemReciprocal count).toNat ≤ 2 ^ 56 ∧
    2 ^ 56 < count.toNat * ((itemReciprocal count).toNat + 1)
  /-- The quotient of a word is right or too small by one, -/
  quotient : ∀ x : Word, x.toNat / count.toNat - 1 ≤ estimate count x ∧
    estimate count x ≤ x.toNat / count.toNat
  /-- so that less than two item counts are left of the word, -/
  remains : ∀ x : Word, estimate count x * count.toNat ≤ x.toNat ∧ rest count x < 2 * count.toNat
  /-- and one correction gives the remainder. -/
  corrected : ∀ x : Word, x.toNat % count.toNat =
    if rest count x < count.toNat then rest count x else rest count x - count.toNat
  /-- For a count above `2 ^ 24`, and for no other, the low word is all of it. -/
  fits : (itemReciprocal count).toUInt32.toNat = (itemReciprocal count).toNat ↔
    2 ^ 24 < count.toNat
  /-- The low word is what every epoch change with so many items programs, as the last access before
  the core is ready. -/
  programmed : ∀ (ν : Type) [Quantity ν] (ctx : EpochContext) (talk : List (Answered ν)),
    Dag.items ctx.dagSize = count → Routine.Run (Board.prepareCore ctx) talk () →
      ∃ x, (accesses talk).getLast? =
        some ⟨.call (.write (itemReciprocal count).toUInt32 Reg.itemReciprocal), x⟩

/-- **One correction is enough.** -/
theorem Dag.reciprocal_reduces {count : Word} (hpos : 0 < count.toNat) : Reduces count := by
  refine ⟨⟨?_, ?_⟩, fun x ↦ ⟨?_, estimate_le hpos x⟩, fun x ↦ ⟨estimate_mul_le hpos x,
    rest_lt hpos x⟩, mod_eq_corrected hpos, toNat_programmed_iff hpos, ?_⟩
  · rw [toNat_itemReciprocal_eq]
    exact Nat.mul_div_le _ _
  · rw [toNat_itemReciprocal_eq]
    exact Nat.lt_mul_div_succ _ hpos
  · exact Nat.sub_le_of_le_add (le_estimate_succ hpos x)
  · rintro ν _ ctx talk rfl run
    exact Board.getLast?_accesses_of_run_prepareCore run

/-- The least count whose reciprocal fits the register needs the correction for the count itself. -/
theorem Dag.reduces_with_correction : 0 < (0x1000001 : Word).toNat ∧ Reduces 0x1000001 ∧
    ¬rest 0x1000001 0x1000001 < (0x1000001 : Word).toNat :=
  ⟨by decide, reciprocal_reduces (by decide), by decide⟩

end HashBoard
