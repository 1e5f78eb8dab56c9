import HashBoard.Dag.Schedule
import Mathlib.Algebra.Order.Ring.Abs
import Mathlib.Data.Nat.Prime.Basic
import Mathlib.Data.UInt
import Mathlib.Order.Bounds.Basic

/-!
# Primes in the growth of the dataset

Trial division by odd numbers decides primality, and walking down over odd counts from below an even
bound ends at the greatest prime under it: the numbers left out are even, and greater than two.

The sizes are computed as plain numbers, while a board is told them in 64 bits. `dagSize?` and
`lightSize?` take the same steps in 64-bit words and give nothing as soon as one of them has no
result there. They always give the size, so no step overflows, and the walk ends before it would
go below zero. What bounds the trial division is that a divisor is only squared after the one before
it had a square below the number.
-/

namespace HashBoard.Dag

/-! ### Trial division -/

theorem noOddDivisor_iff {n d : Nat} (odd : d % 2 = 1) :
    noOddDivisor n d = true ↔ ∀ k, k % 2 = 1 → d ≤ k → k * k ≤ n → ¬k ∣ n := by
  fun_induction noOddDivisor n d with
  | case1 d bound divides =>
    simp only [Bool.false_eq_true, false_iff, not_forall, not_not]
    exact ⟨d, odd, le_rfl, bound.1, Nat.dvd_of_mod_eq_zero divides⟩
  | case2 d bound leaves ih =>
    rw [ih (by omega)]
    constructor
    · intro none k hk from_d square
      rcases eq_or_lt_of_le from_d with rfl | above
      · exact mt Nat.mod_eq_zero_of_dvd leaves
      · exact none k hk (by omega) square
    · intro none k hk from_d square
      exact none k hk (by omega) square
  | case3 d past =>
    refine iff_of_true rfl fun k hk from_d square ↦ ?_
    have : d * d ≤ k * k := Nat.mul_le_mul from_d from_d
    omega

theorem isPrime_iff (n : Nat) : isPrime n = true ↔ n.Prime := by
  rw [isPrime]
  split
  · rename_i small
    simp only [Bool.false_eq_true, false_iff]
    exact fun prime ↦ absurd prime.two_le (by omega)
  · rename_i large
    split
    · rename_i even
      rw [beq_iff_eq]
      constructor
      · rintro rfl
        exact Nat.prime_two
      · intro prime
        exact (prime.even_iff.mp (Nat.even_iff.mpr even))
    · rename_i odd
      rw [noOddDivisor_iff (by decide), Nat.prime_def_le_sqrt]
      constructor
      · intro none
        refine ⟨by omega, fun k two_le square divides ↦ ?_⟩
        -- a divisor of an odd number is odd
        have : k % 2 = 1 := by
          rw [← Nat.odd_iff]
          exact Odd.of_dvd_nat (Nat.odd_iff.mpr (by omega)) divides
        exact none k this (by omega) (Nat.le_sqrt.mp square) divides
      · intro prime k hk from_three square
        exact prime.2 k (by omega) (Nat.le_sqrt.mpr square)

/-! ### The walk -/

section Walk

variable {item count : Nat}

/-- Three is prime, so an odd count that is not leaves room for a step. -/
theorem five_le_of_not_prime (odd : count % 2 = 1) (large : 3 ≤ count) (composite : ¬count.Prime) :
    5 ≤ count := by
  have : count ≠ 3 := by
    rintro rfl
    exact composite Nat.prime_three
  omega

theorem primeSize_of_prime (pos : 0 < item) (prime : count.Prime) :
    primeSize item (item * count) = item * count := by
  rw [primeSize, Nat.mul_div_cancel_left count pos,
    dif_neg (by simp [(isPrime_iff count).mpr prime])]

theorem primeSize_of_not_prime (pos : 0 < item) (odd : count % 2 = 1) (large : 3 ≤ count)
    (composite : ¬count.Prime) :
    primeSize item (item * count) = primeSize item (item * (count - 2)) := by
  have room : 2 * item ≤ item * count := by
    have := five_le_of_not_prime odd large composite
    rw [Nat.mul_comm 2]
    exact Nat.mul_le_mul_left item (by omega)
  rw [primeSize, Nat.mul_div_cancel_left count pos,
    dif_pos ⟨by simpa using mt (isPrime_iff count).mp composite, pos, room⟩, Nat.mul_sub,
    Nat.mul_comm 2]

/-- Walking down over odd counts of items ends at the greatest prime. -/
theorem primeSize_isGreatest (pos : 0 < item) (odd : count % 2 = 1) (large : 3 ≤ count) :
    ∃ p, IsGreatest {p | p.Prime ∧ p ≤ count} p ∧ primeSize item (item * count) = item * p := by
  induction count using Nat.strong_induction_on with
  | _ count ih =>
    by_cases prime : count.Prime
    · exact ⟨count, ⟨⟨prime, le_rfl⟩, fun p hp ↦ hp.2⟩, primeSize_of_prime pos prime⟩
    · have := five_le_of_not_prime odd large prime
      rw [primeSize_of_not_prime pos odd large prime]
      obtain ⟨p, greatest, size⟩ := ih (count - 2) (by omega) (by omega) (by omega)
      refine ⟨p, ⟨⟨greatest.1.1, greatest.1.2.trans (Nat.sub_le count 2)⟩, ?_⟩, size⟩
      rintro q ⟨hq, below⟩
      -- neither the count nor the even number before it is prime
      refine greatest.2 ⟨hq, ?_⟩
      have : q ≠ count := fun same ↦ prime (same ▸ hq)
      have : q ≠ count - 1 := by
        rintro rfl
        have := hq.even_iff.mp (Nat.even_iff.mpr (by omega))
        omega
      omega

end Walk

/-! ### In 64-bit words -/

/-- The sum of two words, if it is one. -/
def plus? (a b : UInt64) : Option UInt64 :=
  if BitVec.uaddOverflow a.toBitVec b.toBitVec then none else some (a + b)

/-- The difference of two words, if it is one. -/
def minus? (a b : UInt64) : Option UInt64 :=
  if BitVec.usubOverflow a.toBitVec b.toBitVec then none else some (a - b)

/-- The product of two words, if it is one. -/
def times? (a b : UInt64) : Option UInt64 :=
  if BitVec.umulOverflow a.toBitVec b.toBitVec then none else some (a * b)

/-- The quotient of two words and what is left, if the divisor is not zero. -/
def divide? (a b : UInt64) : Option (UInt64 × UInt64) :=
  if b = 0 then none else some (a / b, a % b)

theorem plus?_eq_none_iff {a b : UInt64} : plus? a b = none ↔ 2 ^ 64 ≤ a.toNat + b.toNat := by
  simp [plus?, BitVec.uaddOverflow]

theorem toNat_of_plus? {a b c : UInt64} (h : plus? a b = some c) :
    c.toNat = a.toNat + b.toNat := by
  have fits := mt plus?_eq_none_iff.mpr (Option.ne_none_iff_exists'.mpr ⟨c, h⟩)
  simp only [plus?, Option.ite_none_left_eq_some, Option.some.injEq] at h
  rw [← h.2, UInt64.toNat_add, Nat.mod_eq_of_lt (not_le.mp fits)]

theorem minus?_eq_none_iff {a b : UInt64} : minus? a b = none ↔ a.toNat < b.toNat := by
  simp [minus?, BitVec.usubOverflow]

theorem toNat_of_minus? {a b c : UInt64} (h : minus? a b = some c) :
    c.toNat = a.toNat - b.toNat := by
  have fits := mt minus?_eq_none_iff.mpr (Option.ne_none_iff_exists'.mpr ⟨c, h⟩)
  simp only [minus?, Option.ite_none_left_eq_some, Option.some.injEq] at h
  rw [← h.2, UInt64.toNat_sub_of_le _ _ (UInt64.le_iff_toNat_le.mpr (not_lt.mp fits))]

theorem times?_eq_none_iff {a b : UInt64} : times? a b = none ↔ 2 ^ 64 ≤ a.toNat * b.toNat := by
  simp [times?, BitVec.umulOverflow]

theorem toNat_of_times? {a b c : UInt64} (h : times? a b = some c) :
    c.toNat = a.toNat * b.toNat := by
  have fits := mt times?_eq_none_iff.mpr (Option.ne_none_iff_exists'.mpr ⟨c, h⟩)
  simp only [times?, Option.ite_none_left_eq_some, Option.some.injEq] at h
  rw [← h.2, UInt64.toNat_mul, Nat.mod_eq_of_lt (not_le.mp fits)]

theorem divide?_eq_none_iff {a b : UInt64} : divide? a b = none ↔ b = 0 := by
  simp [divide?]

theorem divide?_eq_some_iff {a b q r : UInt64} :
    divide? a b = some (q, r) ↔ b ≠ 0 ∧ q = a / b ∧ r = a % b := by
  simp [divide?, eq_comm]

/-- Trial division as in `noOddDivisor`, in words. -/
def noOddDivisor? (n d : UInt64) : Option Bool :=
  match _square : times? d d with
  | none => none
  | some square =>
    if _low : square ≤ n then
      match divide? n d with
      | none => none
      | some (_, rest) =>
        if rest = 0 then some false
        else match _next : plus? d 2 with
          | none => none
          | some d' => noOddDivisor? n d'
    else some true
termination_by n.toNat + 1 - d.toNat
decreasing_by
  have square_eq := toNat_of_times? _square
  have next : d'.toNat = d.toNat + 2 := toNat_of_plus? _next
  have low := UInt64.le_iff_toNat_le.mp _low
  have : d.toNat ≤ d.toNat * d.toNat := Nat.le_mul_self _
  omega

/-- Whether a word is prime, as in `isPrime`. -/
def isPrime? (n : UInt64) : Option Bool :=
  if n < 2 then some false else if n % 2 = 0 then some (n == 2) else noOddDivisor? n 3

/-- The walk of `primeSize`, in words. -/
def primeSize? (item size : UInt64) : Option UInt64 :=
  match _count : divide? size item with
  | none => none
  | some (count, _) =>
    match isPrime? count with
    | none => none
    | some true => some size
    | some false =>
      match _two : times? 2 item with
      | none => none
      | some two =>
        match _next : minus? size two with
        | none => none
        | some size' => primeSize? item size'
termination_by size.toNat
decreasing_by
  have double : two.toNat = 2 * item.toNat := toNat_of_times? _two
  have next := toNat_of_minus? _next
  have room : ¬size.toNat < two.toNat := by
    rw [← minus?_eq_none_iff, _next]
    simp
  have : item.toNat ≠ 0 := by
    intro zero
    exact (divide?_eq_some_iff.mp _count).1 (UInt64.toNat_inj.mp zero)
  omega

/-- The size that holds a prime number of items, from a bound that starts at `initial` and grows by
`growth` with each epoch. -/
def sizeIn? (initial growth item : UInt64) (epoch : Word) : Option UInt64 := do
  let grown ← times? growth epoch.toUInt64
  let bound ← plus? initial grown
  let size ← minus? bound item
  primeSize? item size

/-- `dagSize` in words. -/
def dagSize? : Word → Option UInt64 := sizeIn? 0x4000_0000 0x80_0000 128

/-- `lightSize` in words. -/
def lightSize? : Word → Option UInt64 := sizeIn? 0x100_0000 0x2_0000 64

theorem square_le_iff {n d square : UInt64} (h : times? d d = some square) :
    square ≤ n ↔ d.toNat * d.toNat ≤ n.toNat := by
  rw [UInt64.le_iff_toNat_le, toNat_of_times? h]

theorem rest_eq_zero_iff {n d quotient rest : UInt64} (h : divide? n d = some (quotient, rest)) :
    rest = 0 ↔ n.toNat % d.toNat = 0 := by
  rw [(divide?_eq_some_iff.mp h).2.2, ← UInt64.toNat_inj, UInt64.toNat_mod]
  rfl

/-- A divisor is only tried after the square of the one before did not pass the number. -/
theorem noOddDivisor?_eq {n d : UInt64} (hn : n.toNat < 2 ^ 60) (hd : d.toNat < 2 ^ 31)
    (pos : 0 < d.toNat) : noOddDivisor? n d = some (noOddDivisor n.toNat d.toNat) := by
  have square_lt : d.toNat * d.toNat < 2 ^ 31 * 2 ^ 31 := Nat.mul_lt_mul'' hd hd
  fun_induction noOddDivisor? n d with
  | case1 d overflow => exact absurd (times?_eq_none_iff.mp overflow) (by omega)
  | case2 d square squared low zero =>
    rw [divide?_eq_none_iff.mp zero] at pos
    exact absurd pos (by decide)
  | case3 d square squared low quotient divided =>
    rw [noOddDivisor, dif_pos ⟨(square_le_iff squared).mp low, pos⟩,
      if_pos ((rest_eq_zero_iff divided).mp rfl)]
  | case4 d square squared low quotient rest divided nonzero overflow =>
    have two : (2 : UInt64).toNat = 2 := rfl
    exact absurd (plus?_eq_none_iff.mp overflow) (by omega)
  | case5 d square squared low quotient rest divided nonzero d' next ih =>
    have low' := (square_le_iff squared).mp low
    have next' : d'.toNat = d.toNat + 2 := toNat_of_plus? next
    have : d.toNat < 2 ^ 30 := by
      by_contra large
      have : 2 ^ 30 * 2 ^ 30 ≤ d.toNat * d.toNat :=
        Nat.mul_le_mul (not_lt.mp large) (not_lt.mp large)
      omega
    have hd' : d'.toNat < 2 ^ 31 := by omega
    rw [ih hd' (by omega) (Nat.mul_lt_mul'' hd' hd'), noOddDivisor.eq_def n.toNat d.toNat,
      dif_pos ⟨low', pos⟩, if_neg (mt (rest_eq_zero_iff divided).mpr nonzero), next']
  | case6 d square squared past =>
    rw [noOddDivisor, dif_neg fun low ↦ past ((square_le_iff squared).mpr low.1)]

theorem isPrime?_eq {n : UInt64} (h : n.toNat < 2 ^ 60) :
    isPrime? n = some (isPrime n.toNat) := by
  have two : (2 : UInt64).toNat = 2 := rfl
  have even : n % 2 = 0 ↔ n.toNat % 2 = 0 := by
    rw [← UInt64.toNat_inj, UInt64.toNat_mod]
    rfl
  simp only [isPrime?, isPrime, UInt64.lt_iff_toNat_lt, two, even,
    noOddDivisor?_eq h (show (3 : UInt64).toNat < 2 ^ 31 by decide) (by decide)]
  split
  · rfl
  · split
    · rw [Option.some.injEq, Bool.eq_iff_iff, beq_iff_eq, beq_iff_eq, ← UInt64.toNat_inj, two]
    · rfl

/-- The test of a count of items in words. -/
theorem isPrime?_count {item size quotient rest : UInt64} {count : Nat} (pos : 0 < item.toNat)
    (small : size.toNat < 2 ^ 60) (h : size.toNat = item.toNat * count)
    (divided : divide? size item = some (quotient, rest)) :
    isPrime? quotient = some (isPrime count) := by
  have counted : quotient.toNat = count := by
    rw [(divide?_eq_some_iff.mp divided).2.1, UInt64.toNat_div, h,
      Nat.mul_div_cancel_left count pos]
  have : count ≤ item.toNat * count := Nat.le_mul_of_pos_left count pos
  rw [isPrime?_eq (by omega), counted]

/-- In words the walk goes as in numbers, from an odd count of items on. -/
theorem primeSize?_eq {item size : UInt64} {count : Nat} (pos : 0 < item.toNat)
    (small : size.toNat < 2 ^ 60) (h : size.toNat = item.toNat * count) (odd : count % 2 = 1)
    (large : 3 ≤ count) :
    (primeSize? item size).map UInt64.toNat = some (primeSize item.toNat (item.toNat * count)) := by
  fun_induction primeSize? item size generalizing count with
  | case1 size zero =>
    rw [divide?_eq_none_iff.mp zero] at pos
    exact absurd pos (by decide)
  | case2 size quotient rest divided overflow =>
    rw [isPrime?_count pos small h divided] at overflow
    exact absurd overflow (Option.some_ne_none _)
  | case3 size quotient rest divided prime =>
    rw [isPrime?_count pos small h divided, Option.some.injEq, isPrime_iff] at prime
    rw [primeSize_of_prime pos prime, Option.map_some, h]
  | case4 size quotient rest divided composite overflow =>
    have two : (2 : UInt64).toNat = 2 := rfl
    have : item.toNat ≤ item.toNat * count := Nat.le_mul_of_pos_right _ (by omega)
    rw [times?_eq_none_iff, two] at overflow
    omega
  | case5 size quotient rest divided composite two doubled below =>
    have double : two.toNat = 2 * item.toNat := toNat_of_times? doubled
    have : item.toNat * 2 ≤ item.toNat * count := Nat.mul_le_mul_left _ (by omega)
    rw [minus?_eq_none_iff] at below
    omega
  | case6 size quotient rest divided composite two doubled size' next ih =>
    have double : two.toNat = 2 * item.toNat := toNat_of_times? doubled
    have less : size'.toNat = item.toNat * (count - 2) := by
      rw [toNat_of_minus? next, double, h, Nat.mul_sub, Nat.mul_comm 2]
    rw [isPrime?_count pos small h divided, Option.some.injEq] at composite
    have composite : ¬count.Prime := by
      rw [← isPrime_iff, composite]
      exact Bool.false_ne_true
    have := five_le_of_not_prime odd large composite
    have := Nat.sub_le count 2
    rw [primeSize_of_not_prime pos odd large composite]
    refine ih ?_ less (by omega) (by omega)
    have : item.toNat * (count - 2) ≤ item.toNat * count := Nat.mul_le_mul_left _ ‹_›
    omega

/-! ### The sizes of an epoch -/

/-- The walk from below an even bound, counted in items, as a number. -/
theorem primeSize_below {item bound : Nat} (pos : 0 < item) (even : bound % 2 = 0)
    (room : 4 ≤ bound) :
    ∃ p, IsGreatest {p | p.Prime ∧ p < bound} p ∧
      primeSize item (item * bound - item) = item * p := by
  obtain ⟨p, greatest, size⟩ :=
    @primeSize_isGreatest item (bound - 1) pos (by omega) (by omega)
  have below (q : Nat) : q ≤ bound - 1 ↔ q < bound := by omega
  simp only [below] at greatest
  rw [Nat.mul_sub_one] at size
  exact ⟨p, greatest, size⟩

/-- The walk from below an even bound in words. -/
theorem sizeIn?_eq {initial growth item : UInt64} {epoch : Word} {bound : Nat}
    (pos : 0 < item.toNat) (even : bound % 2 = 0) (room : 4 ≤ bound)
    (h : initial.toNat + growth.toNat * epoch.toNat = item.toNat * bound)
    (small : item.toNat * bound < 2 ^ 60) :
    (sizeIn? initial growth item epoch).map UInt64.toNat =
      some (primeSize item.toNat (item.toNat * bound - item.toNat)) := by
  have wide : epoch.toUInt64.toNat = epoch.toNat := UInt32.toNat_toUInt64 epoch
  have : item.toNat ≤ item.toNat * bound := Nat.le_mul_of_pos_right _ (by omega)
  obtain ⟨grown, hgrown⟩ : ∃ grown, times? growth epoch.toUInt64 = some grown := by
    rw [← Option.ne_none_iff_exists', ne_eq, times?_eq_none_iff, wide]
    omega
  have grown_eq := toNat_of_times? hgrown
  obtain ⟨total, htotal⟩ : ∃ total, plus? initial grown = some total := by
    rw [← Option.ne_none_iff_exists', ne_eq, plus?_eq_none_iff, grown_eq, wide]
    omega
  have total_eq := toNat_of_plus? htotal
  rw [grown_eq, wide, h] at total_eq
  obtain ⟨size, hsize⟩ : ∃ size, minus? total item = some size := by
    rw [← Option.ne_none_iff_exists', ne_eq, minus?_eq_none_iff, total_eq]
    omega
  have size_eq := toNat_of_minus? hsize
  rw [total_eq, ← Nat.mul_sub_one] at size_eq
  rw [sizeIn?, hgrown, Option.bind_eq_bind, Option.bind_some, htotal, Option.bind_some, hsize,
    Option.bind_some, ← Nat.mul_sub_one]
  have := Nat.mul_sub_one item.toNat bound
  exact primeSize?_eq pos (by omega) size_eq (by omega) (by omega)

theorem dagSize_eq (epoch : Word) :
    dagSize epoch = primeSize 128 (128 * (2 ^ 23 + 2 ^ 16 * epoch.toNat) - 128) := by
  have start : (1 <<< 30) + (epoch.toNat <<< 23) - 128 =
      128 * (2 ^ 23 + 2 ^ 16 * epoch.toNat) - 128 := by
    rw [Nat.shiftLeft_eq, Nat.shiftLeft_eq]
    omega
  rw [dagSize, start]

theorem dagSize?_eq (epoch : Word) :
    (dagSize? epoch).map UInt64.toNat = some (dagSize epoch) := by
  have bound := epoch.toNat_lt
  have item : (128 : UInt64).toNat = 128 := rfl
  have initial : (0x4000_0000 : UInt64).toNat = 0x4000_0000 := rfl
  have growth : (0x80_0000 : UInt64).toNat = 0x80_0000 := rfl
  rw [dagSize?, dagSize_eq]
  refine sizeIn?_eq (by decide) (by omega) (by omega) ?_ ?_
  · rw [item, initial, growth]
    omega
  · rw [item]
    omega

theorem lightSize_eq (epoch : Word) :
    lightSize epoch = primeSize 64 (64 * (2 ^ 18 + 2 ^ 11 * epoch.toNat) - 64) := by
  have start : (1 <<< 24) + (epoch.toNat <<< 17) - 64 =
      64 * (2 ^ 18 + 2 ^ 11 * epoch.toNat) - 64 := by
    rw [Nat.shiftLeft_eq, Nat.shiftLeft_eq]
    omega
  rw [lightSize, start]

theorem lightSize?_eq (epoch : Word) :
    (lightSize? epoch).map UInt64.toNat = some (lightSize epoch) := by
  have bound := epoch.toNat_lt
  have item : (64 : UInt64).toNat = 64 := rfl
  have initial : (0x100_0000 : UInt64).toNat = 0x100_0000 := rfl
  have growth : (0x2_0000 : UInt64).toNat = 0x2_0000 := rfl
  rw [lightSize?, lightSize_eq]
  refine sizeIn?_eq (by decide) (by omega) (by omega) ?_ ?_
  · rw [item, initial, growth]
    omega
  · rw [item]
    omega

/-- **The growth of the dataset.** In every epoch the dataset has 128 bytes for each of the greatest
prime number of items below a bound that starts at `2 ^ 23` and grows by `2 ^ 16`, and the light
cache 64 bytes for each of the greatest prime number below one that starts at `2 ^ 18` and grows by
`2 ^ 11`. Taken in 64-bit words, no step on the way to either size is without a result: none
overflows, divides by zero or goes below zero. -/
theorem sizes_follow_primes (epoch : Word) :
    (∃ p, IsGreatest {p | p.Prime ∧ p < 2 ^ 23 + 2 ^ 16 * epoch.toNat} p ∧
      dagSize epoch = 128 * p) ∧
    (∃ q, IsGreatest {q | q.Prime ∧ q < 2 ^ 18 + 2 ^ 11 * epoch.toNat} q ∧
      lightSize epoch = 64 * q) ∧
    (dagSize? epoch).map UInt64.toNat = some (dagSize epoch) ∧
    (lightSize? epoch).map UInt64.toNat = some (lightSize epoch) := by
  refine ⟨?_, ?_, dagSize?_eq epoch, lightSize?_eq epoch⟩
  · rw [dagSize_eq]
    exact primeSize_below (by decide) (by omega) (by omega)
  · rw [lightSize_eq]
    exact primeSize_below (by decide) (by omega) (by omega)

end HashBoard.Dag
