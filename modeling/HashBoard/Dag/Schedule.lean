import HashBoard.Registers

/-!
# Growth of the dataset

The dataset and its light cache grow with the epoch. Each holds a prime number of items, the
greatest prime below a bound that grows linearly; it is found by walking down over the odd numbers.
-/

namespace HashBoard.Dag

/-- Whether no odd number from `d` on up to the square root divides `n`. -/
def noOddDivisor (n d : Nat) : Bool :=
  if h : d * d ≤ n ∧ 0 < d then
    if n % d = 0 then false else noOddDivisor n (d + 2)
  else true
termination_by n + 1 - d
decreasing_by
  have : d ≤ d * d := Nat.le_mul_of_pos_left d h.2
  omega

/-- Whether a number is prime, by trial division. -/
def isPrime (n : Nat) : Bool :=
  if n < 2 then false else if n % 2 = 0 then n == 2 else noOddDivisor n 3

/-- The greatest size not above `size`, in steps of two items, that holds a prime number of
items. -/
def primeSize (item size : Nat) : Nat :=
  if h : !isPrime (size / item) ∧ 0 < item ∧ 2 * item ≤ size then primeSize item (size - 2 * item)
  else size
termination_by size
decreasing_by omega

/-- Size of the dataset of an epoch, in bytes. -/
def dagSize (epoch : Word) : Nat := primeSize 128 ((1 <<< 30) + (epoch.toNat <<< 23) - 128)

/-- Size of the light cache of an epoch, in bytes. -/
def lightSize (epoch : Word) : Nat := primeSize 64 ((1 <<< 24) + (epoch.toNat <<< 17) - 64)

end HashBoard.Dag
