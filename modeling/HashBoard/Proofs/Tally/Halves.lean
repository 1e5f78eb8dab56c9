import Mathlib.Algebra.Group.Nat.Defs
import Mathlib.Order.Monotone.Basic
import HashBoard.Proofs.Tally.Counter

/-!
# A counter that is read in two halves

The board counts on while a sample is taken, so a carry can fall between the read of the low word
and the read of the high word. Such a sample is torn: the high word that is read is one too high for
the low word. It does not lie below the one before, so nothing corrects it, and the next sample,
which is whole, does lie below it and is corrected although it needs no correction. From the first
torn sample on the counter stands one carry ahead of the board. It stays ahead until the board has
no carry left: there the correction wraps, once, and takes the counter back.
-/

namespace HashBoard

namespace CheckCounter

/-- The word above the low one. -/
def highWord (count : UInt64) : Word := (count >>> 32).toUInt32

theorem toNat_highWord (count : UInt64) : (highWord count).toNat = count.toNat / 2 ^ 32 := by
  have hlt : count.toNat / 2 ^ 32 < 2 ^ 32 := by have := count.toNat_lt; omega
  have hshift : (count >>> 32).toNat = count.toNat / 2 ^ 32 := by
    simp [Nat.shiftRight_eq_div_pow]
  rw [highWord, UInt64.toNat_toUInt32, hshift, Nat.mod_eq_of_lt hlt]

/-- What a carry out of the low word is worth. -/
def carry : UInt64 := 0x100000000

theorem size_eq : UInt32.size = 2 ^ 32 := rfl

theorem toNat_carry : carry.toNat = 2 ^ 32 := by decide

/-- A sample that is no reset is the delta on top of the last one. -/
theorem advance_of_nonzero {lo hi : Word} (c : CheckCounter) (h : ¬(lo = 0 ∧ hi = 0)) :
    c.advance lo hi =
      (⟨if compose lo hi < c.last then compose lo (hi + 1) else compose lo hi⟩,
        (if compose lo hi < c.last then compose lo (hi + 1) else compose lo hi) - c.last) :=
  if_neg h

/-- A counter of 64 bits that only moves forward, and what it stands at whenever one of its words is
read. Fewer than `2 ^ 32` checks pass from one sample to the next, and no sample is taken for a
reset. -/
structure Readings where
  /-- Where the counter stands when the low word is read. -/
  low : ℕ → UInt64
  /-- Where it stands when the high word is read. -/
  high : ℕ → UInt64
  low_le_high : ∀ n, low n ≤ high n
  high_le_low : ∀ n, high n ≤ low (n + 1)
  near : ∀ n, low (n + 1) - low n < carry
  nonzero : ∀ n, ¬((low n).toUInt32 = 0 ∧ highWord (high n) = 0)

namespace Readings

variable (R : Readings) {n : ℕ}

/-- The counter of a search after some samples. -/
def view : ℕ → CheckCounter
  | 0 => {}
  | n + 1 => ((view n).advance (R.low n).toUInt32 (highWord (R.high n))).1

/-- The delta that is made of a sample. -/
def delta (n : ℕ) : UInt64 := ((R.view n).advance (R.low n).toUInt32 (highWord (R.high n))).2

/-- Where the counter of the board stood at the last one of some samples. -/
def stood : ℕ → UInt64
  | 0 => 0
  | n + 1 => R.low n

/-- A carry falls between the two reads of a sample. -/
def Torn (n : ℕ) : Prop := highWord (R.low n) ≠ highWord (R.high n)

instance : Decidable (R.Torn n) := inferInstanceAs (Decidable (_ ≠ _))

/-- One of some samples is torn, and none but the last of them is taken where no carry is left. -/
def Ahead (n : ℕ) : Prop :=
  (∃ i < n, R.Torn i) ∧ ∀ i < n - 1, highWord (R.low i) ≠ 0xffffffff

instance : Decidable (R.Ahead n) := inferInstanceAs (Decidable (_ ∧ _))

/-! ## The samples -/

theorem low_le_succ (n : ℕ) : (R.low n).toNat ≤ (R.low (n + 1)).toNat :=
  UInt64.le_iff_toNat_le.mp (UInt64.le_trans (R.low_le_high n) (R.high_le_low n))

theorem low_mono : Monotone fun n ↦ (R.low n).toNat := monotone_nat_of_le_succ R.low_le_succ

theorem low_succ_lt (n : ℕ) : (R.low (n + 1)).toNat < (R.low n).toNat + 2 ^ 32 := by
  have hle := UInt64.le_trans (R.low_le_high n) (R.high_le_low n)
  have hnear := UInt64.lt_iff_toNat_lt.mp (R.near n)
  rw [UInt64.toNat_sub_of_le _ _ hle] at hnear
  rw [toNat_carry] at hnear
  omega

theorem high_lt (n : ℕ) : (R.high n).toNat < (R.low n).toNat + 2 ^ 32 :=
  (UInt64.le_iff_toNat_le.mp (R.high_le_low n)).trans_lt (R.low_succ_lt n)

theorem stood_le (n : ℕ) : (R.stood n).toNat ≤ (R.low n).toNat := by
  cases n with
  | zero => exact Nat.zero_le _
  | succ n => exact R.low_le_succ n

/-- From here on no carry is left. -/
theorem last_carry_iff (count : UInt64) :
    highWord count = 0xffffffff ↔ 2 ^ 64 - 2 ^ 32 ≤ count.toNat := by
  have hlt := count.toNat_lt
  have hmax : (0xffffffff : Word).toNat = 2 ^ 32 - 1 := rfl
  rw [← UInt32.toNat_inj, toNat_highWord, hmax]
  omega

/-- A torn sample has the carry in the high word. -/
theorem carry_of_torn (h : R.Torn n) :
    (R.high n).toNat / 2 ^ 32 = (R.low n).toNat / 2 ^ 32 + 1 := by
  have hle := UInt64.le_iff_toNat_le.mp (R.low_le_high n)
  have hlt := R.high_lt n
  rw [Torn, Ne, ← UInt32.toNat_inj, toNat_highWord, toNat_highWord] at h
  omega

theorem eq_of_not_torn (h : ¬R.Torn n) :
    (R.high n).toNat / 2 ^ 32 = (R.low n).toNat / 2 ^ 32 := by
  rw [Torn, not_not, ← UInt32.toNat_inj, toNat_highWord, toNat_highWord] at h
  exact h.symm

/-- Where no carry is left, nothing is torn any more. -/
theorem low_not_last_of_torn {i : ℕ} (h : R.Torn n) (hi : i ≤ n) :
    highWord (R.low i) ≠ 0xffffffff := by
  have hcarry := R.carry_of_torn h
  have hmono : (R.low i).toNat ≤ (R.low n).toNat := R.low_mono hi
  have hlt := (R.high n).toNat_lt
  rw [Ne, last_carry_iff]
  omega

theorem stood_not_last_of_torn (h : R.Torn n) : highWord (R.stood n) ≠ 0xffffffff := by
  cases n with
  | zero => exact (by decide : highWord 0 ≠ 0xffffffff)
  | succ n => exact R.low_not_last_of_torn h n.le_succ

/-- The two words of a sample, before any correction. -/
theorem compose_of_not_torn (h : ¬R.Torn n) :
    compose (R.low n).toUInt32 (highWord (R.high n)) = R.low n := by
  rw [← UInt64.toNat_inj, toNat_compose, size_eq, toNat_highWord, R.eq_of_not_torn h,
    UInt64.toNat_toUInt32]
  omega

theorem compose_of_torn (h : R.Torn n) :
    compose (R.low n).toUInt32 (highWord (R.high n)) = R.low n + carry := by
  have hcarry := R.carry_of_torn h
  have hlt := (R.high n).toNat_lt
  rw [← UInt64.toNat_inj, toNat_compose, size_eq, toNat_highWord, hcarry, UInt64.toNat_toUInt32,
    UInt64.toNat_add, toNat_carry]
  omega

/-- The correction of a sample that needs none. -/
theorem compose_succ_of_not_torn (h : ¬R.Torn n) :
    compose (R.low n).toUInt32 (highWord (R.high n) + 1) = R.low n + carry := by
  have hlt := (R.low n).toNat_lt
  rw [← UInt64.toNat_inj, toNat_compose, size_eq, UInt32.toNat_add, toNat_highWord,
    R.eq_of_not_torn h, UInt64.toNat_toUInt32, UInt32.toNat_one, UInt64.toNat_add, toNat_carry]
  omega

/-- A torn sample leaves room for the carry. -/
theorem toNat_add_of_torn (h : R.Torn n) :
    (R.low n + carry).toNat = (R.low n).toNat + 2 ^ 32 := by
  have hcarry := R.carry_of_torn h
  have hlt := (R.high n).toNat_lt
  rw [UInt64.toNat_add, toNat_carry]
  omega

/-! ## The counter after one more sample -/

/-- The last value and the delta that are made of the next sample. -/
theorem view_succ (n : ℕ) : (R.view (n + 1)).last =
    if compose (R.low n).toUInt32 (highWord (R.high n)) < (R.view n).last then
      compose (R.low n).toUInt32 (highWord (R.high n) + 1)
    else compose (R.low n).toUInt32 (highWord (R.high n)) := by
  rw [view, advance_of_nonzero _ (R.nonzero n)]

theorem delta_eq_sub (n : ℕ) : R.delta n = (R.view (n + 1)).last - (R.view n).last := by
  rw [view_succ, delta, advance_of_nonzero _ (R.nonzero n)]

/-- A counter that stands with the board gets ahead with a torn sample. -/
theorem last_view_of_level (level : (R.view n).last = R.stood n) :
    (R.view (n + 1)).last = if R.Torn n then R.low n + carry else R.low n := by
  have hstood := R.stood_le n
  rw [view_succ, level, if_congr UInt64.lt_iff_toNat_lt rfl rfl]
  by_cases htorn : R.Torn n
  · have hroom := R.toNat_add_of_torn htorn
    rw [R.compose_of_torn htorn, if_pos htorn, if_neg (by omega)]
  · rw [R.compose_of_not_torn htorn, if_neg htorn, if_neg (by omega)]

/-- A counter that is ahead of the board stays so, unless the carry it is ahead by wraps. -/
theorem last_view_of_ahead (ahead : (R.view n).last = R.stood n + carry)
    (near : (R.low n).toNat < (R.stood n).toNat + 2 ^ 32) :
    (R.view (n + 1)).last =
      if highWord (R.stood n) = 0xffffffff then R.low n else R.low n + carry := by
  have hstood := R.stood_le n
  have hlow := (R.low n).toNat_lt
  have hlast : (R.stood n + carry).toNat = ((R.stood n).toNat + 2 ^ 32) % 2 ^ 64 := by
    rw [UInt64.toNat_add, toNat_carry]
  rw [view_succ, ahead, if_congr UInt64.lt_iff_toNat_lt rfl rfl,
    if_congr (last_carry_iff _) rfl rfl, hlast]
  by_cases htorn : R.Torn n
  · have hroom := R.toNat_add_of_torn htorn
    have hlt := (R.low n + carry).toNat_lt
    rw [R.compose_of_torn htorn, if_neg (by omega), if_neg (by omega)]
  · rw [R.compose_of_not_torn htorn, R.compose_succ_of_not_torn htorn]
    by_cases hwraps : 2 ^ 64 - 2 ^ 32 ≤ (R.stood n).toNat
    · rw [if_pos hwraps, if_neg (by omega)]
    · rw [if_neg hwraps, if_pos (by omega)]

/-! ## The counter after many samples -/

theorem not_ahead_zero : ¬R.Ahead 0 := fun h ↦ by
  obtain ⟨⟨i, hi, -⟩, -⟩ := h
  exact Nat.not_lt_zero i hi

/-- A view gets ahead with a torn sample, and falls back where no carry is left. -/
theorem ahead_succ :
    R.Ahead (n + 1) ↔ R.Torn n ∨ R.Ahead n ∧ highWord (R.stood n) ≠ 0xffffffff := by
  cases n with
  | zero => simp [Ahead]
  | succ n =>
    constructor
    · rintro ⟨⟨i, hi, htorn⟩, hleft⟩
      rcases Nat.lt_succ_iff_lt_or_eq.mp hi with hlt | rfl
      · exact .inr ⟨⟨⟨i, hlt, htorn⟩, fun j hj ↦ hleft j (by omega)⟩, hleft n (by omega)⟩
      · exact .inl htorn
    · rintro (htorn | ⟨⟨⟨i, hi, htorn⟩, hleft⟩, hstood⟩)
      · exact ⟨⟨n + 1, by omega, htorn⟩, fun j hj ↦ R.low_not_last_of_torn htorn (by omega)⟩
      · refine ⟨⟨i, by omega, htorn⟩, fun j hj ↦ ?_⟩
        rcases Nat.lt_succ_iff_lt_or_eq.mp hj with hlt | rfl
        · exact hleft j hlt
        · exact hstood

/-- A counter that is ahead has had a sample before. -/
theorem low_lt_of_ahead (h : R.Ahead n) : (R.low n).toNat < (R.stood n).toNat + 2 ^ 32 := by
  cases n with
  | zero => exact absurd h R.not_ahead_zero
  | succ n => exact R.low_succ_lt n

/-- From the first torn sample on the counter stands one carry ahead of the board, as long as there
is a carry left. -/
theorem last_view (n : ℕ) :
    (R.view n).last = if R.Ahead n then R.stood n + carry else R.stood n := by
  induction n with
  | zero => rw [if_neg R.not_ahead_zero]; rfl
  | succ n ih =>
    by_cases hahead : R.Ahead n
    · -- the next sample corrects the view once more, or the carry leaves the counter
      rw [if_pos hahead] at ih
      rw [R.last_view_of_ahead ih (R.low_lt_of_ahead hahead)]
      by_cases hstood : highWord (R.stood n) = 0xffffffff
      · have hwhole : ¬R.Torn n := fun htorn ↦ R.stood_not_last_of_torn htorn hstood
        rw [if_pos hstood, if_neg fun h ↦ (R.ahead_succ.mp h).elim hwhole fun h ↦ h.2 hstood]
        rfl
      · rw [if_neg hstood, if_pos (R.ahead_succ.mpr (.inr ⟨hahead, hstood⟩))]
        rfl
    · -- only a torn sample takes the view ahead
      rw [if_neg hahead] at ih
      rw [R.last_view_of_level ih, if_congr R.ahead_succ rfl rfl]
      simp only [hahead, false_and, or_false]
      rfl

end Readings

/-- **When the counter tells what the board counted.** Let the words of a counter that only moves
forward be read one after the other, over and over. Then the last value of the view is the count at
the last sample exactly if the view is not ahead, and a delta is the number of checks since the
sample before exactly if the view neither gets ahead nor falls back with it. -/
theorem view_right_iff (R : Readings) (n : ℕ) :
    ((R.view (n + 1)).last = R.low n ↔ ¬R.Ahead (n + 1)) ∧
      (R.delta n = R.low n - R.stood n ↔ (R.Ahead (n + 1) ↔ R.Ahead n)) := by
  have hcarry : carry ≠ 0 := by decide
  have hlast : (R.view (n + 1)).last = if R.Ahead (n + 1) then R.low n + carry else R.low n :=
    R.last_view (n + 1)
  have hdelta : R.delta n = (if R.Ahead (n + 1) then R.low n + carry else R.low n) -
      if R.Ahead n then R.stood n + carry else R.stood n := by
    rw [R.delta_eq_sub, hlast, R.last_view n]
  rw [hlast, hdelta]
  by_cases hnext : R.Ahead (n + 1) <;> by_cases hahead : R.Ahead n
  · -- the view stays ahead, and the carry cancels
    rw [if_pos hnext, if_pos hahead]
    exact ⟨iff_of_false (by grind) (not_not.mpr hnext), iff_of_true (by grind) (by tauto)⟩
  · rw [if_pos hnext, if_neg hahead]
    exact ⟨iff_of_false (by grind) (not_not.mpr hnext), iff_of_false (by grind) (by tauto)⟩
  · rw [if_neg hnext, if_pos hahead]
    exact ⟨iff_of_true rfl hnext, iff_of_false (by grind) (by tauto)⟩
  · rw [if_neg hnext, if_neg hahead]
    exact ⟨iff_of_true rfl hnext, iff_of_true rfl (by tauto)⟩

namespace Readings

/-- A counter with a carry between the two reads of the first sample. -/
def carried : Readings where
  low
    | 0 => 0xfffffff0
    | _ + 1 => 0x100000020
  high
    | 0 => 0x100000000
    | _ + 1 => 0x100000020
  low_le_high
    | 0 => by decide
    | _ + 1 => UInt64.le_refl _
  high_le_low
    | 0 => by decide
    | _ + 1 => UInt64.le_refl _
  near
    | 0 => by decide
    | _ + 1 => (by decide : (0x100000020 : UInt64) - 0x100000020 < carry)
  nonzero
    | 0 => by decide
    | _ + 1 => (by decide : ¬((0x100000020 : UInt64).toUInt32 = 0 ∧ highWord 0x100000020 = 0))

end Readings

/-- The view is wrong about a torn sample. -/
theorem not_view_right : ¬∀ (R : Readings) (n : ℕ),
    R.delta n = R.low n - R.stood n ∧ (R.view (n + 1)).last = R.low n := fun h ↦ by
  have hdelta : Readings.carried.delta 0 = 0x1fffffff0 := by decide +kernel
  have hright := (h .carried 0).1
  rw [hdelta] at hright
  exact absurd hright (by decide)

end CheckCounter

end HashBoard
