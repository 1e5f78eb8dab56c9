import Mathlib.Algebra.Order.Round
import HashBoard.Proofs.Clock.Rounding
import HashBoard.Proofs.Quantity.Doubles
import HashBoard.Proofs.Supply.Nearest

/-!
# Rounding to a whole number

A quantity is rounded by looking at what is left of it when the fraction is dropped: one half or
more of it adds one. For rationals this is the nearest whole number (`quantityRound_eq`). A double
with `s` bits below one loses them without an error, so it is rounded in the same way: half of the
last place that is kept is added before the bits are dropped (`Doubles.Stands.toNat_count_round`).
-/

namespace HashBoard

/-- A count that fits a register word is the word. -/
theorem Quantity.toNat_word {ν : Type} [Quantity ν] {x : ν} (h : (count x).toNat < 2 ^ 32) :
    (word x).toNat = (count x).toNat := by
  have hfits : ¬0xffff_ffff < count x := by
    rw [UInt64.lt_iff_toNat_lt]
    exact not_lt.mpr (Nat.le_of_lt_succ h)
  rw [word, if_neg hfits, UInt64.toNat_toUInt32, Nat.mod_eq_of_lt h]

/-! ## Rationals -/

theorem quantityRound_eq {x : ℚ} (hx : 0 ≤ x) : Quantity.round x = (round x : ℚ) := by
  have hpos : Quantity.lt x (Quantity.ofNat 0) = false := decide_eq_false (not_lt.mpr hx)
  have hround : Quantity.round x = if 1 / 2 ≤ Int.fract x then (⌊x⌋ : ℚ) + 1 else ⌊x⌋ := by
    rw [Quantity.round, Pll.trunc_eq hx, Supply.quantityAbs_eq, Int.self_sub_floor,
      abs_of_nonneg (Int.fract_nonneg x), hpos]
    simp [Quantity.le, Quantity.ofNat]
  have hparts := Int.floor_add_fract x
  have hlt := Int.fract_lt_one x
  have hle := Int.fract_nonneg x
  rw [hround, round_eq]
  split
  · rename_i hup
    have hfloor : ⌊x + 1 / 2⌋ = ⌊x⌋ + 1 := by
      rw [Int.floor_eq_iff]
      push_cast
      constructor <;> linarith
    rw [hfloor]
    push_cast
    rfl
  · rename_i hdown
    have hfloor : ⌊x + 1 / 2⌋ = ⌊x⌋ := by
      rw [Int.floor_eq_iff]
      constructor <;> linarith
    rw [hfloor]

theorem toNat_count_natCast {n : ℕ} (h : n < UInt64.size) :
    (Quantity.count (n : ℚ)).toNat = n := by
  have hfloor : (n : ℚ).floor = n := Rat.floor_intCast n
  change (UInt64.ofNat (min (n : ℚ).floor.toNat (UInt64.size - 1))).toNat = n
  rw [hfloor, Int.toNat_natCast, Nat.min_eq_left (Nat.le_sub_one_of_lt h),
    UInt64.toNat_ofNat_of_lt' h]

namespace Doubles

open Float.Model UnpackedFloat

variable {m n s : ℕ} {e : ℤ} {x : Float}

/-! ## Doubles -/

theorem zero_ofNat : Zero (Quantity.ofNat 0) := zero_of_pack (by decide +kernel)

theorem Stands.abs_eq (hx : Stands x m e) : Quantity.abs x = x := by
  rw [Quantity.abs, hx.lt_zero zero_ofNat]
  rfl

theorem Zero.abs_eq (hx : Zero x) : Quantity.abs x = x := by
  have hlt : Quantity.lt x (Quantity.ofNat 0) = false := by
    rw [lt_eq, hx, zero_ofNat]
    rfl
  rw [Quantity.abs, hlt]
  rfl

theorem Full.div_pos (h : Full m) (hs : s ≤ 52) : 0 < m / 2 ^ s :=
  Nat.div_pos ((Nat.pow_le_pow_right Nat.two_pos hs).trans h.1) (Nat.two_pow_pos s)

theorem Full.div_succ_lt (h : Full m) (hs : 0 < s) : m / 2 ^ s + 1 < 2 ^ 53 := by
  have hdiv : m / 2 ^ s ≤ m / 2 ^ 1 :=
    Nat.div_le_div_left (Nat.pow_le_pow_right Nat.two_pos hs) (Nat.two_pow_pos 1)
  have hlt := h.2
  omega

/-! ### The bits below one -/

/-- The count is without the bits below one. -/
theorem Stands.toNat_count (hx : Stands x m (-s)) : (Quantity.count x).toNat = m / 2 ^ s := by
  have hint : x.toModel.unpack.toInt 0 (UInt64.size - 1) = (m / 2 ^ s : ℕ) := by
    have hleft : (-(s : ℤ) - 0).toNat = 0 := by omega
    have hright : (0 - (-(s : ℤ) - (0 : ℕ))).toNat = s := by omega
    rw [hx.unpack_eq, toInt, roundToInt, decreaseExponent, hleft]
    dsimp only
    rw [shiftToExponent, hright]
    dsimp only
    rw [mantissa_shiftRight]
    rfl
  have hlt : m / 2 ^ s < UInt64.size :=
    (Nat.div_le_self _ _).trans_lt (hx.full.2.trans (by decide))
  change (UInt64.ofNatClamp (x.toModel.unpack.toInt 0 (UInt64.size - 1)).toNat).toNat = _
  rw [hint, Int.toNat_natCast, UInt64.ofNatClamp, dif_pos hlt, UInt64.toNat_ofNatLT]

theorem Whole.toNat_count (hx : Whole x n) (hn : 0 < n) (hlt : n < 2 ^ 53) :
    (Quantity.count x).toNat = n := by
  have hlog : n.log2 < 53 := (Nat.log2_lt hn.ne').mpr hlt
  rw [Whole, show (n.log2 : ℤ) - 52 = -((52 - n.log2 : ℕ) : ℤ) by omega] at hx
  rw [hx.toNat_count, Nat.mul_div_cancel _ (Nat.two_pow_pos _)]

/-- A double between one and `2 ^ 52` goes through the count to lose its fraction. -/
theorem Stands.whole_trunc (hx : Stands x m (-s)) (hs : 0 < s) (hs52 : s ≤ 52) :
    Whole (Quantity.trunc x) (m / 2 ^ s) := by
  have hzero : Zero 0.0 := zero_of_pack (by decide +kernel)
  have hbound : Stands 4503599627370496.0 (2 ^ 52) 0 :=
    stands_of_pack full_two_pow (by decide) (by decide) (by decide +kernel)
  have hneg : ¬x < 0.0 := of_decide_eq_false (hx.lt_zero hzero)
  have hpos : 0.0 < x := of_decide_eq_true (hx.zero_lt hzero)
  have hsmall : x < 4503599627370496.0 :=
    of_decide_eq_true (hx.lt_of_exponent_lt hbound (by omega))
  have htrunc : Quantity.trunc x = (Quantity.count x).toFloat := by
    change Quantity.truncFloat x = _
    rw [Quantity.truncFloat, if_neg hneg, if_pos hpos, if_pos hsmall]
    rfl
  have hlow := hx.full.div_pos hs52
  have hhigh := Nat.lt_of_succ_lt (hx.full.div_succ_lt hs)
  rw [← hx.toNat_count] at hlow hhigh ⊢
  rw [htrunc]
  exact whole_toFloat hlow hhigh

/-- Without its fraction it has the same exponent. -/
theorem Stands.trunc (hx : Stands x m (-s)) (hs : 0 < s) (hs52 : s ≤ 52) :
    Stands (Quantity.trunc x) (m / 2 ^ s * 2 ^ s) (-s) := by
  have hlog : (m / 2 ^ s).log2 = 52 - s := by
    rw [Nat.log2_eq_iff (hx.full.div_pos hs52).ne', Nat.le_div_iff_mul_le (Nat.two_pow_pos s),
      Nat.div_lt_iff_lt_mul (Nat.two_pow_pos s), ← Nat.pow_add, ← Nat.pow_add, Nat.add_right_comm,
      Nat.sub_add_cancel hs52]
    exact hx.full
  have ht := hx.whole_trunc hs hs52
  rw [Whole, hlog, Nat.sub_sub_self hs52] at ht
  rwa [show ((52 - s : ℕ) : ℤ) - 52 = -s by omega] at ht

/-- The fraction is what the bits below one are. -/
theorem Stands.fract_eq (hx : Stands x m (-s)) (hs : 0 < s) (hs52 : s ≤ 52) :
    (Quantity.fract x).toModel =
      .pack (UnpackedFloat.normalize Format.binary64 (m % 2 ^ s : ℕ) (-s) .positive) := by
  have hrest : ((m <<< (0 : ℤ).toNat : ℕ) : ℤ) - ((m / 2 ^ s * 2 ^ s) <<< (0 : ℤ).toNat : ℕ) =
      (m % 2 ^ s : ℕ) := by
    have hparts := Nat.div_add_mod' m (2 ^ s)
    change (m : ℤ) - (m / 2 ^ s * 2 ^ s : ℕ) = _
    omega
  change Float.Model.pack (UnpackedFloat.sub _ x.toModel.unpack (Quantity.trunc x).toModel.unpack) =
    _
  rw [hx.unpack_eq, (hx.trunc hs hs52).unpack_eq, UnpackedFloat.sub]
  dsimp only
  rw [decreaseExponent, decreaseExponent, min_self, Int.sub_self, ← hrest]
  rfl

/-- It is one half or more if the first of them is set. -/
theorem Stands.half_le_fract_iff (hx : Stands x m (-s)) (hs : 0 < s) (hs52 : s ≤ 52) :
    Quantity.le (Quantity.ofNat 1 / Quantity.ofNat 2) (Quantity.abs (Quantity.fract x)) = true ↔
      2 ^ (s - 1) ≤ m % 2 ^ s := by
  have hhalf : Stands (Quantity.ofNat 1 / Quantity.ofNat 2) (2 ^ 52) (-53) :=
    stands_of_pack full_two_pow (by decide) (by decide) (by decide +kernel)
  have hfract := hx.fract_eq hs hs52
  rcases Nat.eq_zero_or_pos (m % 2 ^ s) with hnone | hsome
  · rw [hnone] at hfract ⊢
    have hzero : Zero (Quantity.fract x) := zero_of_pack hfract
    rw [hzero.abs_eq, hhalf.le_zero hzero]
    exact iff_of_false nofun (not_le.mpr (Nat.two_pow_pos _))
  · have hlt : m % 2 ^ s < 2 ^ 53 := (Nat.mod_le _ _).trans_lt hx.full.2
    have hlog : (m % 2 ^ s).log2 < s :=
      (Nat.log2_lt hsome.ne').mpr (Nat.mod_lt _ (Nat.two_pow_pos s))
    rw [normalize_eq hsome, round_small hsome hlt (by omega)] at hfract
    have hstands := stands_of_pack (full_of_pos hsome hlt) (by omega) (by omega) hfract
    rw [hstands.abs_eq, hhalf.le_iff hstands, ← Nat.le_log2 hsome.ne']
    omega

/-! ### The nearest whole number -/

theorem Stands.whole_trunc_succ (hx : Stands x m (-s)) (hs : 0 < s) (hs52 : s ≤ 52) :
    Whole (Quantity.trunc x + Quantity.ofNat 1) (m / 2 ^ s + 1) := by
  have hone : Stands (Quantity.ofNat 1) (2 ^ 52) (-52) :=
    stands_of_pack full_two_pow (by decide) (by decide) (by decide +kernel)
  have hlt := hx.full.div_succ_lt hs
  -- the sum has the exponent of one, with more bits than there is room for
  have hsum : (Quantity.trunc x + Quantity.ofNat 1).toModel = .pack
      (UnpackedFloat.normalize Format.binary64 ((m / 2 ^ s + 1) * 2 ^ 52 : ℕ) (-52) .positive) := by
    have hmin : min (-(s : ℤ)) (-52) = -52 := by omega
    have hshift : (-(s : ℤ) - -52).toNat = 52 - s := by omega
    have haligned : (m / 2 ^ s + 1) * 2 ^ 52 = m / 2 ^ s * 2 ^ s * 2 ^ (52 - s) + 2 ^ 52 := by
      rw [Nat.mul_assoc, ← Nat.pow_add, Nat.add_sub_cancel' hs52, Nat.succ_mul]
    change Float.Model.pack (UnpackedFloat.add _ (Quantity.trunc x).toModel.unpack
      (Quantity.ofNat 1 : Float).toModel.unpack) = _
    rw [(hx.trunc hs hs52).unpack_eq, hone.unpack_eq, UnpackedFloat.add, haligned]
    dsimp only
    rw [hmin, decreaseExponent, decreaseExponent, hshift, Nat.shiftLeft_eq]
    rfl
  have hlog : (m / 2 ^ s + 1).log2 < 53 := (Nat.log2_lt (Nat.succ_ne_zero _)).mpr hlt
  rw [normalize_eq (Nat.mul_pos (Nat.succ_pos _) (Nat.two_pow_pos 52)),
    round_scaled (Nat.succ_pos _) hlt] at hsum
  exact stands_of_pack (full_of_pos (Nat.succ_pos _) hlt) (by omega) (by omega) hsum

/-- A double is rounded to the nearest whole number, and a half up. -/
theorem Stands.toNat_count_round (hx : Stands x m (-s)) (hs : 0 < s) (hs52 : s ≤ 52) :
    (Quantity.count (Quantity.round x)).toNat = (m + 2 ^ (s - 1)) / 2 ^ s := by
  have hround : Quantity.round x = if 2 ^ (s - 1) ≤ m % 2 ^ s
      then Quantity.trunc x + Quantity.ofNat 1 else Quantity.trunc x := by
    rw [Quantity.round, hx.lt_zero zero_ofNat]
    simp only [← hx.half_le_fract_iff hs hs52]
    rfl
  have hhalves : 2 ^ s = 2 ^ (s - 1) + 2 ^ (s - 1) := by
    rw [← Nat.two_mul, ← Nat.pow_succ', Nat.succ_eq_add_one, Nat.sub_add_cancel hs]
  have hparts := Nat.div_add_mod' m (2 ^ s)
  have hmod : m % 2 ^ s < 2 ^ s := Nat.mod_lt _ (Nat.two_pow_pos s)
  have hlt := hx.full.div_succ_lt hs
  rw [hround]
  symm
  split
  · rename_i hup
    rw [(hx.whole_trunc_succ hs hs52).toNat_count (Nat.succ_pos _) hlt]
    apply Nat.div_eq_of_lt_le
    · rw [Nat.add_mul]
      omega
    · rw [Nat.add_mul, Nat.add_mul]
      omega
  · rename_i hdown
    rw [(hx.whole_trunc hs hs52).toNat_count (hx.full.div_pos hs52) (Nat.lt_of_succ_lt hlt)]
    apply Nat.div_eq_of_lt_le
    · omega
    · rw [Nat.add_mul]
      omega

end Doubles

end HashBoard
