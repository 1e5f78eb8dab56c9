import Mathlib.Data.Rat.Floor
import Mathlib.Tactic.Linarith
import Mathlib.Tactic.Positivity
import HashBoard.Pll

/-!
# Returning to a clock

The divisor for a clock is rounded up to an eighth, for a clock that is one MHz higher. Programming
the divisor for the clock the core runs at anyway does not always give the divisor there is: one
that is no eighth is rounded, and at a high divisor one MHz makes an eighth or more. What is
programmed then is final, or comes down further; it never comes back.
-/

namespace HashBoard

deriving instance DecidableEq for PllReading

namespace Pll

/-! ## Settings -/

/-- What decides on the core clock between clock changes. -/
structure Setting (ν : Type) where
  /-- The divisor word. -/
  clkWord : Word
  /-- The clock to return to, or zero. -/
  target : ν

section

variable {ν : Type} [Quantity ν]

/-- The setting after the divisor for a clock was programmed, if there is one. -/
def Setting.programmed (s : Setting ν) (vco mhz : ν) : Setting ν :=
  match divisorFor vco mhz with
  | .ok d => { clkWord := encode d, target := Quantity.trunc (vco / d) }
  | .error _ => s

theorem Setting.programmed_of_error {vco mhz : ν} {e : DivisorError ν}
    (h : divisorFor vco mhz = .error e) (s : Setting ν) : s.programmed vco mhz = s := by
  rw [Setting.programmed, h]

/-- The setting after a return to its clock. -/
def Setting.returned (vcoWord : Word) (s : Setting ν) : Setting ν :=
  if Quantity.same s.target (Quantity.ofNat 0) then s
  else match decode (ν := ν) vcoWord s.clkWord with
    | some pll => s.programmed pll.vco s.target
    | none => s

theorem vcoWord_of_decode {vcoWord clkWord : Word} {pll : PllReading ν}
    (h : decode vcoWord clkWord = some pll) : pll.vcoWord = vcoWord := by
  rw [decode] at h
  split at h
  · cases h
  · cases h
    rfl

end

end Pll

/-- The setting of a board at its stock clock that is to return to it. -/
def PllReading.stock {ν : Type} (pll : PllReading ν) (clkWord : Word) : Pll.Setting ν where
  clkWord
  target := pll.core

namespace Pll

/-! ## Exact arithmetic -/

variable {v t t' d x : Rat}

theorem trunc_eq (hx : 0 ≤ x) : Quantity.trunc x = (⌊x⌋ : Rat) := if_neg (not_lt.mpr hx)

theorem ceil_eq (hx : 0 ≤ x) : Quantity.ceil x = (⌈x⌉ : Rat) := by
  have hceil : Quantity.ceil x = if (⌊x⌋ : Rat) < x then (⌊x⌋ : Rat) + 1 else ⌊x⌋ := by
    rw [Quantity.ceil, trunc_eq hx]
    simp [Quantity.lt, Quantity.ofNat]
  rw [hceil]
  split
  · rename_i hlt
    have hup : ⌈x⌉ = ⌊x⌋ + 1 := by
      refine Int.ceil_eq_iff.mpr ⟨?_, ?_⟩
      · push_cast
        linarith
      · push_cast
        exact (Int.lt_floor_add_one x).le
    rw [hup]
    push_cast
    rfl
  · rename_i hle
    have hx : (⌊x⌋ : Rat) = x := le_antisymm (Int.floor_le x) (not_lt.mp hle)
    rw [← hx, Int.floor_intCast, Int.ceil_intCast]

theorem same_zero_iff : Quantity.same x (Quantity.ofNat 0) ↔ x = 0 := by
  have hsame : Quantity.same x (Quantity.ofNat 0) = (decide (x ≤ 0) && decide ((0 : Rat) ≤ x)) := by
    simp [Quantity.same, Quantity.le, Quantity.ofNat]
  rw [hsame, Bool.and_eq_true, decide_eq_true_iff, decide_eq_true_iff]
  exact le_antisymm_iff.symm

/-- The divisor for a clock, in eighths. -/
def eighths (v t : Rat) : Int := ⌈v / (t + 1) * 8⌉

theorem divisorFor_eq (hv : 0 ≤ v) (ht : 0 ≤ t) :
    divisorFor v t = if (eighths v t / 8 : Rat) < 2 then .error (.tooFast (eighths v t / 8))
      else if (15.875 : Rat) < eighths v t / 8 then .error (.tooSlow (eighths v t / 8))
      else .ok (eighths v t / 8) := by
  have hexact : 0 ≤ v / (t + 1) * 8 := by positivity
  have hrounded : (Quantity.ceil (v / (t + 1) * 8) : Rat) = eighths v t := ceil_eq hexact
  have hbounds (d : Rat) :
      (Quantity.lt d (minDivisor : Rat) ↔ d < 2) ∧
        (Quantity.lt (maxDivisor : Rat) d ↔ 15.875 < d) :=
    ⟨decide_eq_true_iff, decide_eq_true_iff⟩
  rw [← hrounded]
  simp only [← (hbounds _).1, ← (hbounds _).2]
  rfl

theorem divisorFor_eq_ok_iff (hv : 0 ≤ v) (ht : 0 ≤ t) :
    divisorFor v t = .ok d ↔ d = eighths v t / 8 ∧ 16 ≤ eighths v t ∧ eighths v t ≤ 127 := by
  have hlow : (eighths v t / 8 : Rat) < 2 ↔ eighths v t < 16 := by
    rw [div_lt_iff₀ (by norm_num), ← Int.cast_lt (R := Rat)]
    norm_num
  have hhigh : (15.875 : Rat) < eighths v t / 8 ↔ 127 < eighths v t := by
    rw [lt_div_iff₀ (by norm_num), ← Int.cast_lt (R := Rat)]
    norm_num
  rw [divisorFor_eq hv ht]
  simp only [hlow, hhigh]
  split
  · rename_i low
    exact ⟨nofun, fun h ↦ by omega⟩
  · split
    · rename_i high
      exact ⟨nofun, fun h ↦ by omega⟩
    · refine ⟨fun h ↦ ?_, fun h ↦ congrArg _ h.1.symm⟩
      cases h
      exact ⟨rfl, by omega, by omega⟩

/-- A number of eighths is not rounded. -/
theorem ceil_eighths (k : Nat) : ⌈(k / 8 : Rat) * 8⌉ = k := by
  rw [div_mul_cancel₀ _ (by norm_num), Int.ceil_natCast]

/-- A divisor that is accepted is a number of eighths. -/
theorem eighths_of_divisorFor (hv : 0 ≤ v) (ht : 0 ≤ t) (accepts : divisorFor v t = .ok d) :
    ∃ k : Nat, 16 ≤ k ∧ k < 128 ∧ d = k / 8 ∧ eighths v t = k := by
  obtain ⟨hd, hlow, hhigh⟩ := (divisorFor_eq_ok_iff hv ht).mp accepts
  obtain ⟨k, hk⟩ := Int.eq_ofNat_of_zero_le (le_trans (by norm_num) hlow)
  refine ⟨k, by omega, by omega, ?_, hk⟩
  rw [hd, hk, Int.cast_natCast]

/-- Eighths within the range can be programmed as they are. -/
theorem divisor_encode :
    ∀ k < (128 : Nat), 16 ≤ k → divisor (encode ((k : Rat) / 8)) = (k : Rat) / 8 := by
  decide +kernel

/-- A higher clock takes a lower divisor. -/
theorem eighths_antitone (hv : 0 ≤ v) (ht : 0 ≤ t) (h : t ≤ t') : eighths v t' ≤ eighths v t := by
  refine Int.ceil_le_ceil ?_
  gcongr

/-- The divisor for a clock, whole or not, is not greater than the one that gives it. -/
theorem eighths_le (hd : 0 < d) (hv : 0 ≤ v) (h : (⌊v / d⌋ : Rat) ≤ t) : eighths v t ≤ ⌈d * 8⌉ := by
  refine Int.ceil_le_ceil ?_
  have hclock : v / d < t + 1 := lt_of_lt_of_le (Int.lt_floor_add_one _) (by gcongr)
  have hpos : 0 < t + 1 := lt_of_le_of_lt (by positivity) hclock
  gcongr
  rw [div_le_iff₀ hpos, mul_comm]
  exact ((div_lt_iff₀ hd).mp hclock).le

/-! ## Returning -/

variable {vcoWord clkWord : Word} {pll : PllReading Rat} {s : Setting Rat}

theorem thousandths_nonneg (field : Word) : (0 : Rat) ≤ thousandths field :=
  div_nonneg (Nat.cast_nonneg _) (Nat.cast_nonneg _)

theorem multiplier_nonneg (vcoWord : Word) : (0 : Rat) ≤ multiplier vcoWord := by
  refine add_nonneg (Nat.cast_nonneg _) ?_
  split
  · exact Nat.cast_nonneg _
  · exact thousandths_nonneg _

theorem divisor_nonneg (clkWord : Word) : (0 : Rat) ≤ divisor clkWord :=
  add_nonneg (Nat.cast_nonneg _) (thousandths_nonneg _)

/-- What is known of settings that can be decoded. -/
structure Decoded (vcoWord clkWord : Word) (pll : PllReading Rat) : Prop where
  vco_nonneg : 0 ≤ pll.vco
  divisor_pos : 0 < pll.divisor
  divisor : pll.divisor = divisor clkWord
  core : pll.core = pll.vco / pll.divisor
  /-- The oscillator is the same at every divisor. -/
  others : ∀ clkWord', (0 : Rat) < Pll.divisor clkWord' → decode vcoWord clkWord' =
    some ⟨vcoWord, pll.vco, Pll.divisor clkWord', pll.vco / Pll.divisor clkWord'⟩

theorem decoded (h : decode vcoWord clkWord = some pll) : Decoded vcoWord clkWord pll := by
  rw [decode] at h
  split at h
  · cases h
  · rename_i hzero
    rw [Bool.or_eq_true, not_or] at hzero
    obtain ⟨hout, hdivisor⟩ := hzero
    cases h
    refine ⟨?_, ?_, rfl, rfl, fun clkWord' hpos ↦ ?_⟩
    · exact div_nonneg (mul_nonneg (Nat.cast_nonneg _) (multiplier_nonneg _)) (Nat.cast_nonneg _)
    · exact lt_of_le_of_ne (divisor_nonneg _) fun h ↦ hdivisor (same_zero_iff.mpr h.symm)
    · refine if_neg ?_
      rw [Bool.or_eq_true, not_or]
      exact ⟨hout, fun h ↦ hpos.ne' (same_zero_iff.mp h)⟩

theorem returned_eq (h : Decoded vcoWord clkWord pll) (hs : (0 : Rat) < divisor s.clkWord) :
    s.returned vcoWord = if s.target = 0 then s else s.programmed pll.vco s.target := by
  rw [Setting.returned, h.others s.clkWord hs]
  simp only [same_zero_iff]

/-- The divisor in a setting is a number of eighths within the range, and the clock to return to is
the one that it gives, whole or not. -/
structure Rounded (vco : Rat) (k : Nat) (s : Setting Rat) : Prop where
  low : 16 ≤ k
  high : k < 128
  divisor : divisor s.clkWord = (k / 8 : Rat)
  target_le : s.target ≤ vco / (k / 8 : Rat)
  le_target : (⌊vco / (k / 8 : Rat)⌋ : Rat) ≤ s.target

variable {vco mhz : Rat} {k : Nat}

/-- What was programmed is rounded. -/
theorem rounded_programmed (hvco : 0 ≤ vco) (hmhz : 0 ≤ mhz) (hd : divisorFor vco mhz = .ok d)
    (s : Setting Rat) : ∃ k : Nat, d = k / 8 ∧ k = eighths vco mhz ∧
      Rounded vco k (s.programmed vco mhz) := by
  obtain ⟨k, hlow, hhigh, hk, heighths⟩ := eighths_of_divisorFor hvco hmhz hd
  have hprogrammed : s.programmed vco mhz = ⟨encode d, Quantity.trunc (vco / d)⟩ := by
    rw [Setting.programmed, hd]
  have hpos : 0 ≤ vco / d := by
    rw [hk]
    positivity
  refine ⟨k, hk, heighths.symm, hlow, hhigh, ?_, ?_, ?_⟩
  · rw [hprogrammed, hk]
    exact divisor_encode k hhigh hlow
  · rw [hprogrammed, trunc_eq hpos, hk]
    exact Int.floor_le _
  · rw [hprogrammed, trunc_eq hpos, hk]

/-- A return leaves a rounded divisor or makes it smaller, but not smaller than one for the clock
that it gives. -/
theorem Rounded.returned (h : Decoded vcoWord clkWord pll) (hs : Rounded pll.vco k s) :
    ∃ k' : Nat, eighths pll.vco (pll.vco / (k / 8)) ≤ k' ∧ k' ≤ k ∧
      Rounded pll.vco k' (s.returned vcoWord) := by
  have hk : (0 : Rat) < k / 8 := by
    have := hs.low
    positivity
  have hclock : 0 ≤ pll.vco / (k / 8 : Rat) := div_nonneg h.vco_nonneg hk.le
  have htarget : 0 ≤ s.target :=
    le_trans (Int.cast_nonneg (Int.floor_nonneg.mpr hclock)) hs.le_target
  have hle : eighths pll.vco (pll.vco / (k / 8)) ≤ k :=
    ceil_eighths k ▸ eighths_le hk h.vco_nonneg (Int.floor_le _)
  rw [returned_eq h (hs.divisor ▸ hk)]
  split
  · exact ⟨k, hle, le_rfl, hs⟩
  · cases hd : divisorFor pll.vco s.target with
    | error e =>
      rw [s.programmed_of_error hd]
      exact ⟨k, hle, le_rfl, hs⟩
    | ok d =>
      obtain ⟨k', -, heighths, hrounded⟩ := rounded_programmed h.vco_nonneg htarget hd s
      refine ⟨k', ?_, ?_, hrounded⟩
      · rw [heighths]
        exact eighths_antitone h.vco_nonneg htarget hs.target_le
      · rw [← Int.ofNat_le, heighths, ← ceil_eighths k]
        exact eighths_le hk h.vco_nonneg hs.le_target

/-- However often a setting with a rounded divisor returns to its clock, the divisor comes down at
most, and it stays if it is the one for the clock that it gives. -/
theorem Rounded.iterate (h : Decoded vcoWord clkWord pll) (hs : Rounded pll.vco k s) (n : Nat) :
    ∃ k' : Nat, k' ≤ k ∧ (eighths pll.vco (pll.vco / (k / 8)) = k → k' = k) ∧
      Rounded pll.vco k' ((Setting.returned vcoWord)^[n] s) := by
  induction n with
  | zero => exact ⟨k, le_rfl, fun _ ↦ rfl, hs⟩
  | succ n ih =>
    obtain ⟨k', hle, hstays, hrounded⟩ := ih
    obtain ⟨k'', hge, hle', hrounded'⟩ := hrounded.returned h
    rw [Function.iterate_succ_apply']
    refine ⟨k'', hle'.trans hle, fun hk ↦ ?_, hrounded'⟩
    obtain rfl := hstays hk
    exact le_antisymm hle' (by exact_mod_cast hk ▸ hge)

end Pll

open Pll

/-- Programming the clock that a reading gives would leave its divisor: there is no other divisor
for it. -/
def PllReading.IsFixed (pll : PllReading Rat) : Prop :=
  ∀ d, divisorFor pll.vco pll.core = .ok d → d = pll.divisor

instance (pll : PllReading Rat) : Decidable pll.IsFixed :=
  match h : divisorFor pll.vco pll.core with
  | .ok d => decidable_of_iff (d = pll.divisor) ⟨fun hd d' h' ↦ by
      cases h.symm.trans h'
      exact hd, fun fixed ↦ fixed d h⟩
  | .error _ => .isTrue fun d h' ↦ by cases h.symm.trans h'

namespace Pll

variable {vcoWord clkWord : Word} {pll : PllReading Rat}

theorem Decoded.core_nonneg (h : Decoded vcoWord clkWord pll) : 0 ≤ pll.core :=
  h.core ▸ div_nonneg h.vco_nonneg h.divisor_pos.le

/-- A return to the stock clock programs the divisor for it, be the clock zero or not. -/
theorem returned_stock (h : Decoded vcoWord clkWord pll) :
    (pll.stock clkWord).returned vcoWord = (pll.stock clkWord).programmed pll.vco pll.core := by
  rw [returned_eq h (h.divisor ▸ h.divisor_pos)]
  split
  · rename_i hzero
    -- an oscillator that stands still has no divisor in the range
    have hcore : pll.core = 0 := hzero
    have hstill : pll.vco = 0 :=
      (div_eq_zero_iff.mp (h.core.symm.trans hcore)).resolve_right h.divisor_pos.ne'
    cases hd : divisorFor pll.vco pll.core with
    | error e => exact (Setting.programmed_of_error hd _).symm
    | ok d =>
      obtain ⟨-, hlow, -⟩ := (divisorFor_eq_ok_iff h.vco_nonneg h.core_nonneg).mp hd
      rw [hstill, eighths, zero_div, zero_mul, Int.ceil_zero] at hlow
      omega
  · rfl

end Pll

/-- **Returning to the stock clock.** The divisor is what it was after any number of returns, but
none, if and only if programming the stock clock would leave it. -/
theorem divisor_returned_iff {vcoWord clkWord : Word} {pll : PllReading Rat}
    (h : decode vcoWord clkWord = some pll) {n : Nat} (hn : n ≠ 0) :
    divisor ((Setting.returned vcoWord)^[n] (pll.stock clkWord)).clkWord = pll.divisor ↔
      pll.IsFixed := by
  have hdec := decoded h
  have hfirst := returned_stock hdec
  cases hd : divisorFor pll.vco pll.core with
  | error e =>
    rw [Function.iterate_fixed (hfirst.trans (Setting.programmed_of_error hd _))]
    refine iff_of_true hdec.divisor.symm fun d hok ↦ ?_
    rw [hd] at hok
    cases hok
  | ok d =>
    obtain ⟨n, rfl⟩ := Nat.exists_eq_succ_of_ne_zero hn
    obtain ⟨k, hk, heighths, hrounded⟩ :=
      rounded_programmed hdec.vco_nonneg hdec.core_nonneg hd (pll.stock clkWord)
    rw [← hfirst] at hrounded
    obtain ⟨k', hle, hstays, hiterate⟩ := hrounded.iterate hdec n
    rw [Function.iterate_succ_apply, hiterate.divisor]
    constructor
    · intro hback d' hok
      obtain rfl : d = d' := Except.ok.inj (hd.symm.trans hok)
      -- the stock divisor is a number of eighths, so it is not rounded up
      have hge : (k : Int) ≤ k' := by
        have hup := eighths_le hdec.divisor_pos hdec.vco_nonneg
          (Int.floor_le (pll.vco / pll.divisor))
        rw [← hdec.core, ← heighths, ← hback] at hup
        rwa [ceil_eighths] at hup
      obtain rfl : k' = k := le_antisymm hle (by exact_mod_cast hge)
      exact hk.trans hback
    · intro hfixed
      have hsame : (k / 8 : Rat) = pll.divisor := hk.symm.trans (hfixed d hd)
      rw [hstays, hsame]
      rw [hsame, ← hdec.core, heighths]

end HashBoard
