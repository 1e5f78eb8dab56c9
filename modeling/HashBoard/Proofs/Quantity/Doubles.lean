import Mathlib
import HashBoard.Quantity

/-!
# Doubles

A positive double is `m * 2 ^ e` with a mantissa of 53 bits (`Stands`). Every operation unpacks its
operands into mantissa and exponent, computes exactly, rounds to 53 bits and packs the result again.
Packing loses nothing where there is room for the exponent (`unpack_pack`), so what has to be said
about an operation is how the exact result is rounded: not at all if the bits that are dropped are
zero (`round_exact`), and otherwise by less than one unit (`exists_round`).

Of the operations this is enough for those that lead to a code of a regulator: whole numbers and
products with powers of two are exact, and a quotient is off by one unit at most.
-/

namespace HashBoard.Doubles

open Float.Model UnpackedFloat

variable {m n k : ℕ} {e f : ℤ} {x y : Float}

/-! ## Mantissas -/

/-- A mantissa has 53 bits. -/
def Full (m : ℕ) : Prop := 2 ^ 52 ≤ m ∧ m < 2 ^ 53

theorem Full.pos (h : Full m) : 0 < m := (Nat.two_pow_pos 52).trans_le h.1

theorem full_two_pow : Full (2 ^ 52) := ⟨le_rfl, by decide⟩

theorem Full.log2_mul (h : Full m) (k : ℕ) : (m * 2 ^ k).log2 = 52 + k := by
  rw [Nat.log2_eq_iff (Nat.mul_pos h.pos (Nat.two_pow_pos k)).ne', Nat.pow_add, Nat.add_right_comm,
    Nat.pow_add]
  exact ⟨Nat.mul_le_mul_right _ h.1, Nat.mul_lt_mul_of_pos_right h.2 (Nat.two_pow_pos k)⟩

theorem Full.log2_eq (h : Full m) : m.log2 = 52 := by
  have hzero := h.log2_mul 0
  rwa [Nat.pow_zero, Nat.mul_one] at hzero

/-- A number of fewer bits is shifted. -/
theorem full_of_pos (hn : 0 < n) (hlt : n < 2 ^ 53) : Full (n * 2 ^ (52 - n.log2)) := by
  have hlog : n.log2 < 53 := (Nat.log2_lt hn.ne').mpr hlt
  have h52 : 2 ^ n.log2 * 2 ^ (52 - n.log2) = 2 ^ 52 := by
    rw [← Nat.pow_add, Nat.add_sub_cancel' (by omega)]
  have h53 : 2 ^ (n.log2 + 1) * 2 ^ (52 - n.log2) = 2 ^ 53 := by
    rw [Nat.pow_succ, Nat.mul_right_comm, h52]
    rfl
  constructor
  · rw [← h52]
    exact Nat.mul_le_mul_right _ (Nat.log2_self_le hn.ne')
  · rw [← h53]
    exact Nat.mul_lt_mul_of_pos_right Nat.lt_log2_self (Nat.two_pow_pos _)

/-! ## Packing -/

theorem pack_eq (h : Full m) (hlow : -1074 ≤ e) (hhigh : e ≤ 971) :
    UnpackedFloat.pack Format.binary64 (.finite .positive m e h.pos) =
      packComponents Format.binary64 .positive (BitVec.ofNat 11 (e + 1075).toNat)
        (BitVec.ofNat 52 m) := by
  have hbias : e + (Format.binary64.exponentBias : ℤ) +
      (Format.binary64.mantissaBitsWithoutImplicit : ℤ) = e + 1075 := by
    change e + (1023 : ℤ) + (52 : ℤ) = _
    ring
  rw [UnpackedFloat.pack, hbias]
  dsimp only
  rw [if_neg, if_pos]
  · rw [h.log2_eq]
    rfl
  · omega

/-- Nothing is lost where there is room for the exponent. -/
theorem unpack_pack (h : Full m) (hlow : -1074 ≤ e) (hhigh : e ≤ 971) :
    (Float.Model.pack (.finite .positive m e h.pos)).unpack = .finite .positive m e h.pos := by
  have hexponent : (BitVec.ofNat 11 (e + 1075).toNat).toNat = (e + 1075).toNat := by
    rw [BitVec.toNat_ofNat]
    omega
  -- the exponent is neither that of infinity nor that of zero
  have hones : BitVec.ofNat 11 (e + 1075).toNat ≠ -1#11 := by
    intro heq
    have hnat := congrArg BitVec.toNat heq
    rw [hexponent] at hnat
    change _ = 2047 at hnat
    omega
  have hzero : BitVec.ofNat 11 (e + 1075).toNat ≠ 0#11 := by
    intro heq
    have hnat := congrArg BitVec.toNat heq
    rw [hexponent] at hnat
    change _ = 0 at hnat
    omega
  -- the leading bit is left out and put back
  have hmantissa : (1#1 ++ BitVec.ofNat 52 m).toNat = m := by
    obtain ⟨hge, hlt⟩ := h
    rw [BitVec.toNat_append, ← Nat.shiftLeft_add_eq_or_of_lt (BitVec.isLt _), BitVec.toNat_ofNat,
      Nat.shiftLeft_eq]
    change 1 * 2 ^ 52 + m % 2 ^ 52 = m
    omega
  rw [Float.Model.unpack, Float.Model.pack]
  simp only [pack_eq h hlow hhigh, UnpackedFloat.unpack, unpackExponent_packComponents,
    unpackMantissa_packComponents, unpackSign_packComponents, if_neg hones, if_neg hzero,
    hexponent, hmantissa]
  congr 1
  change ((e + 1075).toNat : ℤ) - (1023 + 52) = e
  omega

/-! ## Rounding to 53 bits -/

theorem targetExponent_eq (t : ℤ) : Format.binary64.targetExponent t = max (t - 53) (-1074) := rfl

theorem mantissa_shiftRight (em : ExtendedMantissa) (k : ℕ) :
    (em >>> k).mantissa = em.mantissa / 2 ^ k := by
  induction k with
  | zero => exact (Nat.div_one _).symm
  | succ k ih =>
    change (em >>> k).mantissa / 2 = _
    rw [ih, Nat.div_div_eq_div_mul, Nat.pow_succ]

/-- Bits that are zero leave no trace. -/
theorem shiftRight_exact (m k : ℕ) :
    (⟨m * 2 ^ k, false, false⟩ : ExtendedMantissa) >>> k = ⟨m, false, false⟩ := by
  induction k generalizing m with
  | zero =>
    rw [Nat.pow_zero, Nat.mul_one]
    rfl
  | succ k ih =>
    change ((⟨m * 2 ^ (k + 1), false, false⟩ : ExtendedMantissa) >>> k).shiftRightOne = _
    rw [Nat.pow_succ, Nat.mul_comm (2 ^ k), ← Nat.mul_assoc, ih, ExtendedMantissa.shiftRightOne]
    simp

theorem roundedMantissa_bounds (em : ExtendedMantissa) :
    em.mantissa ≤ em.roundedMantissa ∧ em.roundedMantissa ≤ em.mantissa + 1 := by
  obtain ⟨m, round, sticky⟩ := em
  cases round <;> cases sticky <;>
    simp only [ExtendedMantissa.roundedMantissa, ExtendedMantissa.accuracy,
      Accuracy.roundToNearestEven] <;> omega

theorem shift_eq (hlog : m.log2 = 52 + k) (he : -1074 ≤ e + k) (accuracy : Accuracy) :
    shiftToTargetExponent Format.binary64 m e accuracy =
      (ExtendedMantissa.ofMantissaAndAccuracy m accuracy >>> k, e + k) := by
  have htarget : Format.binary64.targetExponent (totalExponent m e) = e + k := by
    rw [targetExponent_eq, totalExponent, hlog]
    omega
  rw [shiftToTargetExponent, htarget, shiftToExponent, add_sub_cancel_left, Int.toNat_natCast]

/-- A mantissa loses as many bits as it has too many. -/
theorem roundWithAccuracy_eq {r : ℕ} {accuracy : Accuracy} (hlog : m.log2 = 52 + k)
    (he : -1074 ≤ e + k) (hr : Full r)
    (h : (ExtendedMantissa.ofMantissaAndAccuracy m accuracy >>> k).roundedMantissa = r) :
    roundWithAccuracy Format.binary64 .positive m e accuracy =
      .finite .positive r (e + k) hr.pos := by
  have hagain : shiftToTargetExponent Format.binary64 r (e + k) .exact =
      (⟨r, false, false⟩, e + k) := by
    rw [shift_eq (k := 0) hr.log2_eq (by omega), Nat.cast_zero, Int.add_zero]
    rfl
  rw [roundWithAccuracy, shift_eq hlog he]
  dsimp only
  rw [h, hagain]
  exact dif_neg hr.pos.ne'

/-- Where the bits that are dropped are zero, nothing is rounded. -/
theorem round_exact (hm : Full m) (he : -1074 ≤ e) :
    roundWithAccuracy Format.binary64 .positive (m * 2 ^ k) (e - k) .exact =
      .finite .positive m e hm.pos := by
  have hrounded :
      (ExtendedMantissa.ofMantissaAndAccuracy (m * 2 ^ k) .exact >>> k).roundedMantissa = m :=
    congrArg ExtendedMantissa.roundedMantissa (shiftRight_exact m k)
  rw [roundWithAccuracy_eq (hm.log2_mul k) (by omega) hm hrounded]
  congr 1
  omega

/-- Otherwise the mantissa is off by less than one. -/
theorem exists_round {q : ℕ} (hq : m / 2 ^ k = q) (hlow : 2 ^ 52 ≤ q) (hhigh : q + 1 < 2 ^ 53)
    (he : -1074 ≤ e + k) (accuracy : Accuracy) : ∃ (r : ℕ) (hr : Full r), q ≤ r ∧ r ≤ q + 1 ∧
      roundWithAccuracy Format.binary64 .positive m e accuracy =
        .finite .positive r (e + k) hr.pos := by
  have hlog : m.log2 = 52 + k := by
    have hm : m ≠ 0 := by
      rintro rfl
      rw [Nat.zero_div] at hq
      omega
    rw [Nat.log2_eq_iff hm, Nat.pow_add, Nat.add_right_comm, Nat.pow_add,
      ← Nat.le_div_iff_mul_le (Nat.two_pow_pos k), ← Nat.div_lt_iff_lt_mul (Nat.two_pow_pos k), hq]
    exact ⟨hlow, Nat.lt_of_succ_lt hhigh⟩
  set em := ExtendedMantissa.ofMantissaAndAccuracy m accuracy >>> k
  have hmantissa : em.mantissa = q := by
    rw [mantissa_shiftRight, ← hq]
    congr 1
    cases accuracy with
    | exact => rfl
    | inexact order => cases order <;> rfl
  obtain ⟨hle, hge⟩ := roundedMantissa_bounds em
  rw [hmantissa] at hle hge
  have hfull : Full em.roundedMantissa := ⟨hlow.trans hle, hge.trans_lt hhigh⟩
  exact ⟨em.roundedMantissa, hfull, hle, hge, roundWithAccuracy_eq hlog he hfull rfl⟩

/-- A number of at most 53 bits is not rounded. -/
theorem round_small (hn : 0 < n) (hlt : n < 2 ^ 53) (he : -1074 ≤ e + n.log2 - 52) :
    UnpackedFloat.round Format.binary64 .positive n e =
      .finite .positive (n * 2 ^ (52 - n.log2)) (e + n.log2 - 52) (full_of_pos hn hlt).pos := by
  have hlog : n.log2 < 53 := (Nat.log2_lt hn.ne').mpr hlt
  have htarget : Format.binary64.targetExponent (totalExponent n e) = e + n.log2 - 52 := by
    rw [targetExponent_eq, totalExponent]
    omega
  have hshift : (e - (e + n.log2 - 52)).toNat = 52 - n.log2 := by omega
  have hround := round_exact (k := 0) (full_of_pos hn hlt) he
  rw [Nat.pow_zero, Nat.mul_one, Nat.cast_zero, Int.sub_zero] at hround
  rw [UnpackedFloat.round, htarget, decreaseExponent, hshift, Nat.shiftLeft_eq, ← hround]
  dsimp only
  congr 1
  omega

/-- Nor is one of more bits of which the last 52 are zero. -/
theorem round_scaled (hn : 0 < n) (hlt : n < 2 ^ 53) :
    UnpackedFloat.round Format.binary64 .positive (n * 2 ^ 52) (-52) =
      .finite .positive (n * 2 ^ (52 - n.log2)) (n.log2 - 52) (full_of_pos hn hlt).pos := by
  have hlog : n.log2 < 53 := (Nat.log2_lt hn.ne').mpr hlt
  have hfull := full_of_pos hn hlt
  have hscale : n * 2 ^ (52 - n.log2) * 2 ^ n.log2 = n * 2 ^ 52 := by
    rw [Nat.mul_assoc, ← Nat.pow_add, Nat.sub_add_cancel (by omega)]
  have hshift :
      (-52 - Format.binary64.targetExponent (totalExponent (n * 2 ^ 52) (-52))).toNat = 0 := by
    rw [targetExponent_eq, totalExponent, ← hscale, hfull.log2_mul]
    omega
  have hround := round_exact (k := n.log2) (e := n.log2 - 52) hfull (by omega)
  rw [hscale] at hround
  rw [UnpackedFloat.round, decreaseExponent, hshift, ← hround]
  dsimp only
  congr 1
  omega

theorem normalize_eq (hn : 0 < n) (e : ℤ) (sign : Sign) :
    UnpackedFloat.normalize Format.binary64 n e sign =
      UnpackedFloat.round Format.binary64 .positive n e := by
  rw [UnpackedFloat.normalize, Int.compare_eq_gt.mpr (Int.natCast_pos.mpr hn)]
  rfl

/-! ## Operations -/

/-- A double is `m * 2 ^ e`. -/
structure Stands (x : Float) (m : ℕ) (e : ℤ) : Prop where
  full : Full m
  unpack_eq : x.toModel.unpack = .finite .positive m e full.pos

/-- A double is zero. -/
def Zero (x : Float) : Prop := x.toModel.unpack = .zero .positive

/-- A double is a whole number other than zero. -/
def Whole (x : Float) (n : ℕ) : Prop := Stands x (n * 2 ^ (52 - n.log2)) (n.log2 - 52)

theorem stands_of_pack (hm : Full m) (hlow : -1074 ≤ e) (hhigh : e ≤ 971)
    (h : x.toModel = .pack (.finite .positive m e hm.pos)) : Stands x m e :=
  ⟨hm, by rw [h, unpack_pack hm hlow hhigh]⟩

theorem zero_of_pack (h : x.toModel = .pack (.zero .positive)) : Zero x := by
  rw [Zero, h]
  rfl

/-- A product with a power of two is exact. -/
theorem Stands.mul (hx : Stands x m e) (hy : Stands y (2 ^ 52) f) (hlow : -1074 ≤ e + f + 52)
    (hhigh : e + f + 52 ≤ 971) : Stands (x * y) m (e + f + 52) := by
  refine stands_of_pack hx.full hlow hhigh ?_
  have hround := round_exact (k := 52) hx.full hlow
  rw [show e + f + 52 - (52 : ℕ) = e + f by omega] at hround
  change Float.Model.pack (UnpackedFloat.mul _ x.toModel.unpack y.toModel.unpack) = _
  rw [hx.unpack_eq, hy.unpack_eq, ← hround]
  rfl

theorem whole_toFloat {w : UInt64} (hw : 0 < w.toNat) (hlt : w.toNat < 2 ^ 53) :
    Whole w.toFloat w.toNat := by
  have hlog : w.toNat.log2 < 53 := (Nat.log2_lt hw.ne').mpr hlt
  have hpack : w.toFloat.toModel =
      .pack (UnpackedFloat.round Format.binary64 .positive w.toNat 0) := by
    rw [← normalize_eq hw 0 .positive]
    rfl
  rw [round_small hw hlt (by omega)] at hpack
  have hstands := stands_of_pack (full_of_pos hw hlt) (by omega) (by omega) hpack
  rwa [Int.zero_add] at hstands

/-- A numeral is scaled by a power of ten, which is one for a whole number. -/
theorem whole_ofNat (hn : 0 < n) (hlt : n < 2 ^ 53) : Whole (Float.ofNat n) n := by
  have hlog : n.log2 < 53 := (Nat.log2_lt hn.ne').mpr hlt
  have hword : n.toUInt64.toNat = n := UInt64.toNat_ofNat_of_lt' (hlt.trans (by decide))
  have hwhole : Whole n.toUInt64.toFloat n := by
    have hfloat := whole_toFloat (w := n.toUInt64) (by omega) (by omega)
    rwa [hword] at hfloat
  have hone : Stands (Float.ofBits 4607182418800017408) (2 ^ 52) (-52) :=
    stands_of_pack full_two_pow (by decide) (by decide) (by decide +kernel)
  have hscaled : Float.ofNat n = n.toUInt64.toFloat * Float.ofBits 4607182418800017408 := by
    change Float.ofScientific n false 0 = _
    rw [Float.ofScientific, dif_pos ⟨hlt, by decide⟩]
    rfl
  have hproduct := hwhole.mul hone (by omega) (by omega)
  rw [show (n.log2 : ℤ) - 52 + -52 + 52 = n.log2 - 52 by omega] at hproduct
  rwa [hscaled]

/-- The mantissa of a quotient may have a bit too many; it is off by one unit at most. -/
theorem Stands.exists_div {q : ℕ} (hx : Stands x m e) (hy : Stands y n f)
    (hq : m * 2 ^ 53 / n / 2 ^ k = q) (hlow : 2 ^ 52 ≤ q) (hhigh : q + 1 < 2 ^ 53)
    (hnormal : -1021 ≤ e - f) (hfinite : e - f - 53 + k ≤ 971) :
    ∃ r, Stands (x / y) r (e - f - 53 + k) ∧ q ≤ r ∧ r ≤ q + 1 := by
  have hcore : divCore Format.binary64 m e n f =
      (m * 2 ^ 53 / n, e - f - 53, accuracyOfFraction (m * 2 ^ 53 % n) n) := by
    have htarget : min (e - f) (Format.binary64.targetExponent
        (totalExponent m e - totalExponent n f)) = e - f - 53 := by
      rw [targetExponent_eq, totalExponent, totalExponent, hx.full.log2_eq, hy.full.log2_eq]
      omega
    have hshift : (e - f - (e - f - 53)).toNat = 53 := by omega
    rw [divCore, htarget, hshift, Nat.shiftLeft_eq]
  obtain ⟨r, hr, hle, hge, hround⟩ := exists_round (e := e - f - 53) hq hlow hhigh (by omega)
    (accuracyOfFraction (m * 2 ^ 53 % n) n)
  refine ⟨r, stands_of_pack hr (by omega) hfinite ?_, hle, hge⟩
  change Float.Model.pack (UnpackedFloat.div _ x.toModel.unpack y.toModel.unpack) = _
  rw [hx.unpack_eq, hy.unpack_eq, UnpackedFloat.div, hcore, ← hround]
  rfl

/-- A quotient of whole numbers that lies between a half and one. -/
theorem exists_stands_div {a b : ℕ} (hab : a < b) (hhalf : b ≤ 2 * a) (hb : b ≤ 2 ^ 52) :
    ∃ q, Stands (Float.ofNat a / Float.ofNat b) q (-53) ∧ a * 2 ^ 53 / b ≤ q ∧
      q ≤ a * 2 ^ 53 / b + 1 := by
  have ha : 0 < a := by omega
  have hlog : b.log2 < 53 := (Nat.log2_lt (by omega)).mpr (by omega)
  -- the numerator has as many bits as the denominator, or one less
  obtain ⟨k, hk, hk1⟩ : ∃ k, b.log2 = a.log2 + k ∧ k ≤ 1 := by
    have hle : a.log2 ≤ b.log2 := (Nat.le_log2 (by omega)).mpr
      ((Nat.log2_self_le ha.ne').trans hab.le)
    have hlt : b.log2 < a.log2 + 2 := by
      have htwice := Nat.lt_log2_self (n := a)
      rw [Nat.log2_lt (by omega), Nat.pow_succ]
      omega
    exact ⟨b.log2 - a.log2, by omega, by omega⟩
  have hq : a * 2 ^ (52 - a.log2) * 2 ^ 53 / (b * 2 ^ (52 - b.log2)) / 2 ^ k =
      a * 2 ^ 53 / b := by
    have hscale : 2 ^ (52 - a.log2) = 2 ^ (52 - b.log2) * 2 ^ k := by
      rw [← Nat.pow_add]
      congr 1
      omega
    rw [Nat.div_div_eq_div_mul, Nat.mul_assoc b, ← hscale, Nat.mul_right_comm]
    exact Nat.mul_div_mul_right _ _ (Nat.two_pow_pos _)
  have hlow : 2 ^ 52 ≤ a * 2 ^ 53 / b := (Nat.le_div_iff_mul_le (by omega)).mpr (by omega)
  have hhigh : a * 2 ^ 53 / b + 1 < 2 ^ 53 := by
    rw [← Nat.lt_sub_iff_add_lt, Nat.div_lt_iff_lt_mul (by omega)]
    omega
  obtain ⟨q, hstands, hle, hge⟩ := (whole_ofNat ha (by omega)).exists_div
    (whole_ofNat (ha.trans hab) (by omega)) hq hlow hhigh (by omega) (by omega)
  rw [show (a.log2 : ℤ) - 52 - (b.log2 - 52) - 53 + k = -53 by omega] at hstands
  exact ⟨q, hstands, hle, hge⟩

/-! ## Comparing -/

theorem lt_eq (x y : Float) : Quantity.lt x y = x.toModel.unpack.lt y.toModel.unpack := by
  have hlt : Quantity.lt x y = decide (x.lt y = true) := rfl
  have hunpack : x.lt y = decide (x.toModel.unpack.lt y.toModel.unpack = true) := rfl
  rw [hlt, hunpack, Bool.decide_eq_true, Bool.decide_eq_true]

theorem le_eq (x y : Float) : Quantity.le x y = x.toModel.unpack.le y.toModel.unpack := by
  have hle : Quantity.le x y = decide (x.le y = true) := rfl
  have hunpack : x.le y = decide (x.toModel.unpack.le y.toModel.unpack = true) := rfl
  rw [hle, hunpack, Bool.decide_eq_true, Bool.decide_eq_true]

theorem compare_eq {hm : 0 < m} {hn : 0 < n} :
    UnpackedFloat.compare (.finite .positive m e hm) (.finite .positive n f hn) =
      some ((compare e f).then (compare m n)) := rfl

theorem Stands.lt_zero (hx : Stands x m e) (hy : Zero y) : Quantity.lt x y = false := by
  rw [lt_eq, hx.unpack_eq, hy]
  rfl

theorem Stands.zero_lt (hx : Stands x m e) (hy : Zero y) : Quantity.lt y x = true := by
  rw [lt_eq, hx.unpack_eq, hy]
  rfl

theorem Stands.le_zero (hx : Stands x m e) (hy : Zero y) : Quantity.le x y = false := by
  rw [le_eq, hx.unpack_eq, hy]
  rfl

theorem Stands.lt_of_exponent_lt (hx : Stands x m e) (hy : Stands y n f) (h : e < f) :
    Quantity.lt x y = true := by
  rw [lt_eq, hx.unpack_eq, hy.unpack_eq, UnpackedFloat.lt, compare_eq, Int.compare_eq_lt.mpr h]
  rfl

/-- A power of two has the least mantissa, so the exponents decide. -/
theorem Stands.le_iff (hx : Stands x (2 ^ 52) e) (hy : Stands y n f) :
    Quantity.le x y = true ↔ e ≤ f := by
  rw [le_eq, hx.unpack_eq, hy.unpack_eq, UnpackedFloat.le, compare_eq]
  rcases lt_trichotomy e f with hlt | rfl | hgt
  · rw [Int.compare_eq_lt.mpr hlt]
    exact iff_of_true rfl hlt.le
  · have hle : (compare (2 ^ 52) n).isLE := Nat.isLE_compare.mpr hy.full.1
    rw [Std.compare_self]
    exact iff_of_true hle le_rfl
  · rw [Int.compare_eq_gt.mpr hgt]
    exact iff_of_false nofun (not_le.mpr hgt)

end HashBoard.Doubles
