import HashBoard.Hash
import Mathlib.Data.UInt
import Mathlib.Order.Bounds.Basic
import Mathlib.Order.Interval.Set.Defs
import Mathlib.Tactic.Ring

/-!
# Hashes in order

A hash is compared as a number, but it is kept and sent as bytes. Both views give one order: the
big-endian value is a bijection onto the numbers below `2 ^ 256`, and of two hashes the smaller
value belongs to the one whose bytes come first in the lexicographic order. In that order the
boundary that is programmed is the join of the one asked for and the floor.

The comparison of big-endian numerals goes by their first byte, so it is an induction from the
front; writing a numeral out goes by its last byte, so the round trips are inductions from the back.
-/

namespace HashBoard.Hash

/-! ### Big-endian numerals -/

@[simp]
theorem bigEndian_nil : bigEndian [] = 0 := rfl

theorem bigEndian_snoc (bytes : List UInt8) (b : UInt8) :
    bigEndian (bytes ++ [b]) = 256 * bigEndian bytes + b.toNat := by
  rw [bigEndian, List.foldl_append]
  rfl

theorem bigEndian_append (xs ys : List UInt8) :
    bigEndian (xs ++ ys) = 256 ^ ys.length * bigEndian xs + bigEndian ys := by
  induction ys using List.reverseRecOn with
  | nil => simp
  | append_singleton ys y ih =>
    rw [← List.append_assoc, bigEndian_snoc, bigEndian_snoc, ih, List.length_append,
      List.length_singleton, pow_succ]
    ring

theorem bigEndian_cons (b : UInt8) (bytes : List UInt8) :
    bigEndian (b :: bytes) = 256 ^ bytes.length * b.toNat + bigEndian bytes := by
  have first : bigEndian [b] = b.toNat := by simp [bigEndian]
  rw [← List.singleton_append, bigEndian_append, first]

theorem bigEndian_lt (bytes : List UInt8) : bigEndian bytes < 256 ^ bytes.length := by
  induction bytes using List.reverseRecOn with
  | nil => simp
  | append_singleton bytes b ih =>
    have last := b.toNat_lt
    rw [bigEndian_snoc, List.length_append, List.length_singleton, pow_succ]
    omega

theorem bigEndian_bigEndianBytes (n v : Nat) : bigEndian (bigEndianBytes n v) = v % 256 ^ n := by
  induction n generalizing v with
  | zero => rw [pow_zero, Nat.mod_one]; rfl
  | succ n ih =>
    rw [bigEndianBytes, bigEndian_snoc, ih, UInt8.toNat_ofNat', pow_succ' 256 n, Nat.mod_mul,
      add_comm]

theorem bigEndianBytes_bigEndian (bytes : List UInt8) :
    bigEndianBytes bytes.length (bigEndian bytes) = bytes := by
  induction bytes using List.reverseRecOn with
  | nil => rfl
  | append_singleton bytes b ih =>
    have last := b.toNat_lt
    have front : (256 * bigEndian bytes + b.toNat) / 256 = bigEndian bytes := by omega
    rw [List.length_append, List.length_singleton, bigEndianBytes, bigEndian_snoc, front, ih]
    congr 2
    apply UInt8.toNat.inj
    rw [UInt8.toNat_ofNat']
    omega

/-- Leading digits decide before trailing ones do. -/
private theorem mul_add_lt_iff {c x y r s : Nat} (hr : r < c) (hs : s < c) :
    c * x + r < c * y + s ↔ x < y ∨ x = y ∧ r < s := by
  rcases lt_trichotomy x y with less | rfl | more
  · have : c * (x + 1) ≤ c * y := Nat.mul_le_mul_left c less
    rw [Nat.mul_succ] at this
    simp only [less, true_or, iff_true]
    omega
  · simp
  · have : c * (y + 1) ≤ c * x := Nat.mul_le_mul_left c more
    rw [Nat.mul_succ] at this
    simp only [more.not_gt, more.ne', false_and, or_self, iff_false]
    omega

/-- Numerals of one length compare as their bytes do. -/
theorem bigEndian_lt_iff {xs ys : List UInt8} (h : xs.length = ys.length) :
    bigEndian xs < bigEndian ys ↔ xs < ys := by
  induction xs generalizing ys with
  | nil =>
    rw [List.eq_nil_of_length_eq_zero h.symm]
    simp
  | cons x xs ih =>
    cases ys with
    | nil => simp at h
    | cons y ys =>
      have tails : xs.length = ys.length := Nat.succ.inj h
      have bound := bigEndian_lt xs
      rw [tails] at bound
      rw [bigEndian_cons, bigEndian_cons, tails, mul_add_lt_iff bound (bigEndian_lt ys), ih tails,
        List.cons_lt_cons_iff, UInt8.lt_iff_toNat_lt, UInt8.toNat_inj]

/-! ### The order -/

theorem value_lt (h : Hash) : h.value < 2 ^ 256 := by
  have := bigEndian_lt h.bytes
  rw [h.length_eq] at this
  exact this

@[simp]
theorem ofNat_value (h : Hash) : ofNat h.value = h := by
  have := bigEndianBytes_bigEndian h.bytes
  rw [h.length_eq] at this
  cases h
  simpa [ofNat, value] using this

theorem value_ofNat {v : Nat} (hv : v < 2 ^ 256) : (ofNat v).value = v := by
  rw [value, ofNat, bigEndian_bigEndianBytes]
  exact Nat.mod_eq_of_lt hv

theorem value_injective : Function.Injective value :=
  Function.LeftInverse.injective ofNat_value

/-- Hashes are ordered as the numbers they stand for. -/
instance : LinearOrder Hash := LinearOrder.lift' value value_injective

theorem le_iff_value {a b : Hash} : a ≤ b ↔ a.value ≤ b.value := Iff.rfl

theorem lt_iff_value {a b : Hash} : a < b ↔ a.value < b.value := Iff.rfl

theorem lt_iff_bytes {a b : Hash} : a < b ↔ a.bytes < b.bytes :=
  bigEndian_lt_iff (a.length_eq.trans b.length_eq.symm)

theorem value_monotone : Monotone value := fun _ _ h ↦ h

theorem value_max (a b : Hash) : (max a b).value = max a.value b.value :=
  value_monotone.map_max

theorem leadingZeros_value (bits : Nat) : (leadingZeros bits).value = 2 ^ (256 - bits) - 1 := by
  rw [leadingZeros, Nat.one_shiftLeft]
  apply value_ofNat
  have : 2 ^ (256 - bits) ≤ 2 ^ 256 := Nat.pow_le_pow_right (by decide) (by omega)
  omega

/-- A hash starts with so many zero bits when it is none of the greater ones. -/
theorem le_leadingZeros_iff (h : Hash) (bits : Nat) :
    h ≤ leadingZeros bits ↔ h.value < 2 ^ (256 - bits) := by
  have := Nat.two_pow_pos (256 - bits)
  rw [le_iff_value, leadingZeros_value]
  omega

/-! ### The boundary that is programmed -/

theorem effective_eq_max (b : Hash) : effective b = max b floor := by
  rw [effective, ← value_max, ofNat_value]

theorem effective_bytes (b : Hash) :
    (effective b).bytes = if b.bytes < floor.bytes then floor.bytes else b.bytes := by
  rw [effective_eq_max]
  by_cases less : b < floor
  · rw [max_eq_right less.le, if_pos (lt_iff_bytes.mp less)]
  · rw [max_eq_left (not_lt.mp less), if_neg (mt lt_iff_bytes.mpr less)]

theorem iic_effective (b : Hash) : Set.Iic (effective b) = Set.Iic b ∪ Set.Iic floor := by
  ext h
  rw [Set.mem_union, Set.mem_Iic, Set.mem_Iic, Set.mem_Iic, effective_eq_max, le_max_iff]

theorem effective_idem (b : Hash) : effective (effective b) = effective b := by
  rw [effective_eq_max (effective b), effective_eq_max b, max_eq_left (le_max_right b floor)]

theorem effective_monotone : Monotone effective := by
  intro a b h
  rw [effective_eq_max, effective_eq_max]
  exact max_le_max_right floor h

/-- Read as a number and written back a hash is the same, and the order of the numbers is that of
the bytes. In this order the boundary that is programmed is the greater of the one asked for and the
floor, which is the last hash with 27 leading zero bits: it accepts what either of them accepts, so
nothing within the boundary asked for is turned away, programming it again changes nothing, and a
looser boundary is never programmed as a stricter one. -/
theorem effective_isGreatest :
    (∀ h : Hash, h.value < 2 ^ 256 ∧ ofNat h.value = h) ∧
    (∀ v, (ofNat v).value = v % 2 ^ 256) ∧
    (∀ a b : Hash, (a < b ↔ a.value < b.value) ∧ (a < b ↔ a.bytes < b.bytes)) ∧
    (∀ h : Hash, h ≤ floor ↔ h.value < 2 ^ (256 - 27)) ∧
    (∀ b : Hash, IsGreatest {b, floor} (effective b) ∧
      (effective b).value = max b.value floor.value ∧
      (effective b).bytes = if b.bytes < floor.bytes then floor.bytes else b.bytes) ∧
    (∀ b : Hash, b ≤ effective b ∧ floor ≤ effective b ∧
      Set.Iic (effective b) = Set.Iic b ∪ Set.Iic floor) ∧
    (∀ b : Hash, effective (effective b) = effective b) ∧
    Monotone effective := by
  refine ⟨fun h ↦ ⟨h.value_lt, ofNat_value h⟩, fun v ↦ bigEndian_bigEndianBytes 32 v,
    fun a b ↦ ⟨lt_iff_value, lt_iff_bytes⟩, fun h ↦ h.le_leadingZeros_iff 27, ?_, ?_,
    effective_idem, effective_monotone⟩
  · intro b
    refine ⟨?_, ?_, effective_bytes b⟩
    · rw [effective_eq_max]
      exact isGreatest_pair
    · rw [effective_eq_max, value_max]
  · intro b
    refine ⟨?_, ?_, iic_effective b⟩ <;> rw [effective_eq_max]
    · exact le_max_left b floor
    · exact le_max_right b floor

end HashBoard.Hash
