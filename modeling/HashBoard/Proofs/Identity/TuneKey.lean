import HashBoard.Board.BringUp
import HashBoard.Proofs.Routine.Only
import Mathlib.Data.List.Basic
import Mathlib.Data.UInt
import Mathlib.Tactic.Ring

/-!
# The key of saved tunes

A tune is saved under the serial, the version of the bitstream and both voltages. The serial is the
three identity words in hexadecimal, one behind the other, and only the first is padded. So the key
tells everything apart but how the digits of the second and the third word are to be divided: two
boards share a key when these digits, read in one go, are the same number (`RunsTogether`), and on
no other account.

Digits are read back by their value. What stands in front of an underscore or a point is found again
because neither is a digit; the padded numbers have eight digits each.
-/

namespace HashBoard

namespace Text

/-! ### Hexadecimal digits -/

/-- The value of a hexadecimal digit. -/
def place (c : Char) : Nat := "0123456789abcdef".toList.idxOf c

/-- The value of hexadecimal digits. -/
def hexValue (cs : List Char) : Nat := cs.foldl (fun n c ↦ 16 * n + place c) 0

/-- How many hexadecimal digits a number has. -/
def hexWidth (n : Nat) : Nat := (Nat.toDigits 16 n).length

/-- The digits of a number are its one digit, or those of what is left without the last and the
last. -/
theorem toDigits_induction {P : Nat → List Char → Prop}
    (digit : ∀ d < 16, P d [Nat.digitChar d])
    (more : ∀ n, 16 ≤ n → P (n / 16) (Nat.toDigits 16 (n / 16)) →
      P n (Nat.toDigits 16 (n / 16) ++ [Nat.digitChar (n % 16)])) (n : Nat) :
    P n (Nat.toDigits 16 n) := by
  induction n using Nat.strong_induction_on with
  | _ n ih =>
    by_cases small : n < 16
    · rw [Nat.toDigits_of_lt_base small]
      exact digit n small
    · have large : 16 ≤ n := not_lt.mp small
      rw [Nat.toDigits_of_base_le (by decide) large]
      exact more n large (ih (n / 16) (by omega))

theorem place_digitChar {d : Nat} (h : d < 16) : place (Nat.digitChar d) = d := by
  revert d
  decide

theorem hexValue_snoc (cs : List Char) (c : Char) :
    hexValue (cs ++ [c]) = 16 * hexValue cs + place c := by
  rw [hexValue, List.foldl_append]
  rfl

theorem hexValue_append (xs ys : List Char) :
    hexValue (xs ++ ys) = 16 ^ ys.length * hexValue xs + hexValue ys := by
  induction ys using List.reverseRecOn with
  | nil => simp [hexValue]
  | append_singleton ys y ih =>
    rw [← List.append_assoc, hexValue_snoc, hexValue_snoc, ih, List.length_append,
      List.length_singleton, pow_succ]
    ring

@[simp]
theorem hexValue_toDigits (n : Nat) : hexValue (Nat.toDigits 16 n) = n := by
  induction n using toDigits_induction with
  | digit d h => simp [hexValue, place_digitChar h]
  | more n _ ih =>
    rw [hexValue_snoc, ih, place_digitChar (Nat.mod_lt n (by decide))]
    exact Nat.div_add_mod n 16

theorem notMem_toDigits {c : Char} (h : c ∉ (List.range 16).map Nat.digitChar) (n : Nat) :
    c ∉ Nat.toDigits 16 n := by
  have digit {d : Nat} (hd : d < 16) : c ≠ Nat.digitChar d := by
    rintro rfl
    exact h (List.mem_map_of_mem (List.mem_range.mpr hd))
  induction n using toDigits_induction with
  | digit d hd => simpa using digit hd
  | more n _ ih => simpa [ih] using digit (Nat.mod_lt n (by decide))

/-- Only zero is written with a zero in front. -/
theorem head?_toDigits (n : Nat) : (Nat.toDigits 16 n).head? = some '0' ↔ n = 0 := by
  induction n using toDigits_induction with
  | digit d _ => simp
  | more n large ih =>
    rw [List.head?_append_of_ne_nil _ Nat.toDigits_ne_nil, ih]
    omega

theorem lt_pow_hexWidth (n : Nat) : n < 16 ^ hexWidth n :=
  (Nat.length_toDigits_le_iff (by decide) Nat.length_toDigits_pos).mp le_rfl

/-- The digits of two numbers, one behind the other, are those of the two put together, if the first
is not zero. -/
theorem toDigits_append {m : Nat} (hm : 0 < m) (h : Nat) :
    Nat.toDigits 16 m ++ Nat.toDigits 16 h = Nat.toDigits 16 (16 ^ hexWidth h * m + h) := by
  rw [hexWidth]
  induction h using toDigits_induction with
  | digit d hd =>
    rw [← Nat.toDigits_of_lt_base hd, Nat.toDigits_append_toDigits (by decide) hm hd,
      Nat.toDigits_of_lt_base hd, List.length_singleton, pow_one]
  | more n large ih =>
    have last := Nat.mod_lt n (show 16 > 0 by decide)
    have front : 0 < 16 ^ (Nat.toDigits 16 (n / 16)).length * m + n / 16 :=
      Nat.add_pos_right _ (Nat.div_pos large (by decide))
    rw [← List.append_assoc, ih, ← Nat.toDigits_of_lt_base last,
      Nat.toDigits_append_toDigits (by decide) front last, Nat.toDigits_of_lt_base last,
      List.length_append, List.length_singleton, pow_succ]
    congr 1
    have := Nat.div_add_mod n 16
    calc 16 * (16 ^ (Nat.toDigits 16 (n / 16)).length * m + n / 16) + n % 16
      _ = 16 ^ (Nat.toDigits 16 (n / 16)).length * 16 * m + (16 * (n / 16) + n % 16) := by ring
      _ = 16 ^ (Nat.toDigits 16 (n / 16)).length * 16 * m + n := by rw [this]

/-- Numbers that are put together are found again if the trailing ones are small. -/
theorem mul_add_inj {c x y r s : Nat} (hr : r < c) (hs : s < c) :
    c * x + r = c * y + s ↔ x = y ∧ r = s := by
  constructor
  · intro same
    have quotient := congrArg (· / c) same
    have remainder := congrArg (· % c) same
    simp only [Nat.mul_add_div (Nat.zero_lt_of_lt hr), Nat.div_eq_of_lt hr, Nat.div_eq_of_lt hs,
      Nat.mul_add_mod, Nat.mod_eq_of_lt hr, Nat.mod_eq_of_lt hs] at quotient remainder
    exact ⟨quotient, remainder⟩
  · rintro ⟨rfl, rfl⟩
    rfl

/-- Digits that run together are divided alike up to where the division is lost. -/
theorem toDigits_append_eq_iff (m h m' h' : Nat) :
    Nat.toDigits 16 m ++ Nat.toDigits 16 h = Nat.toDigits 16 m' ++ Nat.toDigits 16 h' ↔
      m = m' ∧ h = h' ∨
        m ≠ 0 ∧ m' ≠ 0 ∧ hexWidth h ≠ hexWidth h' ∧
          16 ^ hexWidth h * m + h = 16 ^ hexWidth h' * m' + h' := by
  constructor
  · intro same
    have value := congrArg hexValue same
    rw [hexValue_append, hexValue_append, hexValue_toDigits, hexValue_toDigits, hexValue_toDigits,
      hexValue_toDigits] at value
    -- a front of zero shows, and then it is all that the first number has
    have front : m = 0 ↔ m' = 0 := by
      have := congrArg List.head? same
      rw [List.head?_append_of_ne_nil _ Nat.toDigits_ne_nil,
        List.head?_append_of_ne_nil _ Nat.toDigits_ne_nil] at this
      rw [← head?_toDigits m, ← head?_toDigits m', this]
    by_cases zero : m = 0
    · left
      have zero' := front.mp zero
      subst zero zero'
      simpa using value
    by_cases width : hexWidth h = hexWidth h'
    · left
      -- both numbers are cut at the same power of the base
      have bound' := lt_pow_hexWidth h'
      change 16 ^ hexWidth h * m + h = 16 ^ hexWidth h' * m' + h' at value
      rw [← width] at value bound'
      exact (mul_add_inj (lt_pow_hexWidth h) bound').mp value
    · exact .inr ⟨zero, mt front.mpr zero, width, value⟩
  · rintro (⟨rfl, rfl⟩ | ⟨hm, hm', -, value⟩)
    · rfl
    · rw [toDigits_append (Nat.pos_of_ne_zero hm), toDigits_append (Nat.pos_of_ne_zero hm'), value]

theorem toList_hex (n : Nat) : (hex n).toList = Nat.toDigits 16 n := String.toList_ofList

theorem toList_hexPadded (width n : Nat) :
    (hexPadded width n).toList =
      List.replicate (width - hexWidth n) '0' ++ Nat.toDigits 16 n := String.toList_ofList

theorem hexValue_hexPadded (width n : Nat) : hexValue (hexPadded width n).toList = n := by
  have zeros (k : Nat) : hexValue (List.replicate k '0') = 0 := by
    induction k with
    | zero => rfl
    | succ k ih => rw [List.replicate_succ', hexValue_snoc, ih]; rfl
  rw [toList_hexPadded, hexValue_append, zeros, hexValue_toDigits, mul_zero, zero_add]

theorem length_hexPadded_word (w : Word) : (hexPadded 8 w.toNat).toList.length = 8 := by
  have : hexWidth w.toNat ≤ 8 :=
    (Nat.length_toDigits_le_iff (by decide) (by decide)).mpr w.toNat_lt
  rw [toList_hexPadded, List.length_append, List.length_replicate]
  change 8 - hexWidth w.toNat + hexWidth w.toNat = 8
  omega

/-! ### Finding the parts again -/

/-- A padded word is found again at the front of a text. -/
theorem hexPadded_append_inj {w v : Word} {xs ys : List Char} :
    (hexPadded 8 w.toNat).toList ++ xs = (hexPadded 8 v.toNat).toList ++ ys ↔ w = v ∧ xs = ys := by
  constructor
  · intro same
    obtain ⟨front, back⟩ :=
      List.append_inj same ((length_hexPadded_word w).trans (length_hexPadded_word v).symm)
    have value := congrArg hexValue front
    rw [hexValue_hexPadded, hexValue_hexPadded] at value
    exact ⟨UInt32.toNat_inj.mp value, back⟩
  · rintro ⟨rfl, rfl⟩
    rfl

/-- What stands in front of the first separator is found again. -/
theorem append_separator_inj {c : Char} {xs ys us vs : List Char} (hx : c ∉ xs) (hy : c ∉ ys) :
    xs ++ c :: us = ys ++ c :: vs ↔ xs = ys ∧ us = vs := by
  induction xs generalizing ys with
  | nil =>
    cases ys with
    | nil => simp
    | cons y ys =>
      have : c ≠ y := List.ne_of_not_mem_cons hy
      simp [this]
  | cons x xs ih =>
    have hx' := List.not_mem_of_not_mem_cons hx
    cases ys with
    | nil =>
      have : x ≠ c := (List.ne_of_not_mem_cons hx).symm
      simp [this]
    | cons y ys =>
      rw [List.cons_append, List.cons_append, List.cons.injEq, List.cons.injEq, and_assoc,
        ih hx' (List.not_mem_of_not_mem_cons hy)]

/-- The decimal digits in front of a point are found again. -/
theorem decimal_point_inj {w v : Word} {xs ys : List Char} :
    Nat.toDigits 10 w.toNat ++ '.' :: xs = Nat.toDigits 10 v.toNat ++ '.' :: ys ↔
      w = v ∧ xs = ys := by
  have point (k : Nat) : '.' ∉ Nat.toDigits 10 k := fun mem ↦
    absurd (Nat.isDigit_of_mem_toDigits (by decide) (by decide) mem) (by decide)
  rw [append_separator_inj (point _) (point _)]
  refine and_congr_left fun _ ↦ ⟨fun same ↦ ?_, fun same ↦ by rw [same]⟩
  have value := congrArg (Nat.ofDigitChars 10 · 0) same
  simp only [Nat.ofDigitChars_ten_toDigits] at value
  exact UInt32.toNat_inj.mp value

end Text

open Text

namespace Identity

/-- The second identity word with the digits of the third behind it. -/
def inOneGo (i : Identity) : Nat := 16 ^ hexWidth i.hi.toNat * i.mid.toNat + i.hi.toNat

/-- The digits of the second and third identity words are the same in one go, and divided
differently. -/
structure RunsTogether (i j : Identity) : Prop where
  /-- The digits do not start with a zero. -/
  left : i.mid ≠ 0
  /-- Nor do those of the other board. -/
  right : j.mid ≠ 0
  /-- The third words do not have equally many digits. -/
  width : hexWidth i.hi.toNat ≠ hexWidth j.hi.toNat
  /-- The digits are the same. -/
  inOneGo : i.inOneGo = j.inOneGo

theorem toList_serial (i : Identity) :
    i.serial.toList = (hexPadded 8 i.lo.toNat).toList ++
      (Nat.toDigits 16 i.mid.toNat ++ Nat.toDigits 16 i.hi.toNat) := by
  rw [serial, String.toList_append, String.toList_append, toList_hex, toList_hex, List.append_assoc]

theorem underscore_notMem_words (i : Identity) :
    '_' ∉ Nat.toDigits 16 i.mid.toNat ++ Nat.toDigits 16 i.hi.toNat := by
  rw [List.mem_append, not_or]
  exact ⟨notMem_toDigits (by decide) _, notMem_toDigits (by decide) _⟩

theorem toList_calibrationId (i : Identity) (a b : Word) :
    (i.calibrationId a b).toList = (hexPadded 8 i.lo.toNat).toList ++
      ((Nat.toDigits 16 i.mid.toNat ++ Nat.toDigits 16 i.hi.toNat) ++
        '_' :: ((hexPadded 8 i.bitstream.toNat).toList ++
          '_' :: (Nat.toDigits 10 a.toNat ++
            '.' :: '0' :: '0' :: (Nat.toDigits 10 b.toNat ++ '.' :: ['0', '0'])))) := by
  have decimal (w : Word) : (toString w.toNat).toList = Nat.toDigits 10 w.toNat := by
    rw [Nat.toString_eq_ofList_toDigits, String.toList_ofList]
  simp only [calibrationId, String.toList_append, toList_serial, decimal, List.append_assoc]
  rfl

theorem words_eq_iff (i j : Identity) :
    Nat.toDigits 16 i.mid.toNat ++ Nat.toDigits 16 i.hi.toNat =
        Nat.toDigits 16 j.mid.toNat ++ Nat.toDigits 16 j.hi.toNat ↔
      i.mid = j.mid ∧ i.hi = j.hi ∨ i.RunsTogether j := by
  have zero (w : Word) : w.toNat ≠ 0 ↔ w ≠ 0 := not_congr (UInt32.toNat_inj (b := 0))
  rw [toDigits_append_eq_iff, UInt32.toNat_inj, UInt32.toNat_inj, zero, zero]
  refine or_congr_right ⟨?_, ?_⟩
  · rintro ⟨left, right, width, run⟩
    exact ⟨left, right, width, run⟩
  · rintro ⟨left, right, width, run⟩
    exact ⟨left, right, width, run⟩

theorem calibrationId_eq_iff (i j : Identity) (a b c d : Word) :
    i.calibrationId a b = j.calibrationId c d ↔
      (i.lo = j.lo ∧ i.bitstream = j.bitstream ∧ a = c ∧ b = d) ∧
        (i.mid = j.mid ∧ i.hi = j.hi ∨ i.RunsTogether j) := by
  rw [← String.toList_inj, toList_calibrationId, toList_calibrationId, hexPadded_append_inj,
    append_separator_inj i.underscore_notMem_words j.underscore_notMem_words, words_eq_iff,
    hexPadded_append_inj, List.cons_inj_right, decimal_point_inj, List.cons_inj_right,
    List.cons_inj_right, decimal_point_inj]
  tauto

end Identity

/-- A request that asks for no tune but those saved under a key. -/
def Request.LoadsUnder {ν : Type} (key : String) : Request ν → Prop
  | .loadTune _ key' => key' = key
  | _ => True

open Routine

variable {ν : Type}

theorem only_loadsUnder (b : Board) :
    (b.loadTune : Routine ν Unit).Only (Request.LoadsUnder b.tuneKey) := by
  refine ⟨trivial, fun _ ↦ ?_⟩
  dsimp only
  split
  · trivial
  · trivial
  · refine ⟨trivial, fun found ↦ ?_⟩
    cases found with
    | false => trivial
    | true =>
      refine ⟨rfl, fun applied ↦ ?_⟩
      cases applied with
      | false => trivial
      | true => exact ⟨trivial, fun _ ↦ ⟨trivial, fun _ ↦ trivial⟩⟩

variable (ν) in
/-- **Who shares a tune.** A board asks for tunes under its own key only. The keys of two boards, at
whatever voltages, are the same just when the first identity words, the versions of the bitstream
and both voltages are, and the second and third words either are as well or have the same digits in
one go, divided differently. -/
theorem tunes_shared_iff :
    (∀ b : Board, (b.loadTune : Routine ν Unit).Only (Request.LoadsUnder b.tuneKey)) ∧
    ∀ (i j : Identity) (a b c d : Word), i.calibrationId a b = j.calibrationId c d ↔
      (i.lo = j.lo ∧ i.bitstream = j.bitstream ∧ a = c ∧ b = d) ∧
        (i.mid = j.mid ∧ i.hi = j.hi ∨ i.RunsTogether j) :=
  ⟨only_loadsUnder, Identity.calibrationId_eq_iff⟩

/-- Not every other board has another key: `1` before `23` reads as `12` before `3`. -/
theorem not_calibrationId_apart :
    ¬∀ (i j : Identity) (a b c d : Word),
      (i.lo, i.mid, i.hi, i.bitstream, a, b) ≠ (j.lo, j.mid, j.hi, j.bitstream, c, d) →
        i.calibrationId a b ≠ j.calibrationId c d := by
  intro apart
  refine apart ⟨0, 0x1, 0x23, 0, 0⟩ ⟨0, 0x12, 0x3, 0, 0⟩ 800 850 800 850 (by decide) ?_
  decide +kernel

end HashBoard
