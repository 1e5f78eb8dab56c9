import Mathlib.Algebra.Order.Ring.Rat
import Mathlib.Order.Bounds.Basic
import Mathlib.Order.Fin.Basic
import Mathlib.Tactic.Linarith
import Mathlib.Tactic.NormNum
import HashBoard.Supply

/-!
# The nearest position

The position for a voltage is found by a halving search and a look at three neighbours. Along the
search the voltage lies strictly between those of two positions, as far from where the search stands
as the next halvings reach together (`Between`); when the last halving is done these are the two
neighbours. Everything beyond them is farther away, so the first nearest of the three is the first
nearest of all (`closestCode_isLeast`).
-/

namespace HashBoard.Supply

variable {table : VoltageTable Rat} {v : Rat}

/-! ## Voltages of neighbours -/

theorem quantityAbs_eq (x : Rat) : Quantity.abs x = |x| := by
  have habs : Quantity.abs x = if x < 0 then -x else x := by
    simp [Quantity.abs, Quantity.lt, Quantity.ofNat]
  rw [habs]
  split
  · rename_i hneg
    rw [abs_of_neg hneg]
  · rename_i hpos
    rw [abs_of_nonneg (not_lt.mp hpos)]

theorem voltage_val (c : Fin 256) : voltage table c = table c := by
  rw [voltage]
  congr
  exact Fin.ext (Nat.mod_eq_of_lt c.isLt)

theorem voltage_lt_voltage (decreasing : StrictAnti table) {c d : ℕ} (hlt : c < d) (hd : d < 256) :
    voltage table d < voltage table c := by
  have hc : voltage table c = table ⟨c, hlt.trans hd⟩ := voltage_val ⟨c, hlt.trans hd⟩
  have hd' : voltage table d = table ⟨d, hd⟩ := voltage_val ⟨d, hd⟩
  rw [hc, hd']
  exact decreasing hlt

/-- How far the voltage of a position is from the one that is wanted. -/
def distance (table : VoltageTable Rat) (v : Rat) (code : ℕ) : Rat := |voltage table code - v|

theorem distance_lt_of_above (decreasing : StrictAnti table) {c d : ℕ} (hlt : c < d) (hd : d < 256)
    (above : v < voltage table d) : distance table v d < distance table v c := by
  have hstep := voltage_lt_voltage decreasing hlt hd
  rw [distance, distance, abs_of_pos (by linarith), abs_of_pos (by linarith)]
  linarith

theorem distance_lt_of_below (decreasing : StrictAnti table) {c d : ℕ} (hlt : c < d) (hd : d < 256)
    (below : voltage table c < v) : distance table v c < distance table v d := by
  have hstep := voltage_lt_voltage decreasing hlt hd
  rw [distance, distance, abs_of_neg (by linarith), abs_of_neg (by linarith)]
  linarith

/-! ## The look at the neighbours -/

/-- The positions from `lo` on and below `hi` whose voltage is nearest among theirs. -/
def nearestIn (table : VoltageTable Rat) (v : Rat) (lo hi : ℕ) : Set ℕ :=
  {c | lo ≤ c ∧ c < hi ∧ ∀ d, lo ≤ d → d < hi → distance table v c ≤ distance table v d}

theorem isLeast_nearestIn_singleton (c : ℕ) : IsLeast (nearestIn table v c (c + 1)) c := by
  constructor
  · refine ⟨le_rfl, Nat.lt_succ_self c, fun d hlo hhi ↦ ?_⟩
    rw [Nat.le_antisymm (Nat.lt_succ_iff.mp hhi) hlo]
  · intro d hd
    exact hd.1

/-- One more position takes the place of the best one only if it is nearer. -/
theorem isLeast_nearestIn_succ {lo k best : ℕ} (h : IsLeast (nearestIn table v lo k) best) :
    IsLeast (nearestIn table v lo (k + 1))
      (if distance table v k < distance table v best then k else best) := by
  obtain ⟨⟨hlo, hhi, hbest⟩, hleast⟩ := h
  split
  · rename_i hnearer
    constructor
    · refine ⟨hlo.trans hhi.le, Nat.lt_succ_self k, fun d hd hdk ↦ ?_⟩
      rcases Nat.lt_succ_iff_lt_or_eq.mp hdk with hlt | rfl
      · exact hnearer.le.trans (hbest d hd hlt)
      · exact le_rfl
    · intro c hc
      obtain ⟨hcl, hck, hnear⟩ := hc
      by_contra hlt
      have hbefore := hbest c hcl (not_le.mp hlt)
      have hafter := hnear k (hlo.trans hhi.le) (Nat.lt_succ_self k)
      linarith
  · rename_i hfarther
    have hle : distance table v best ≤ distance table v k := not_lt.mp hfarther
    constructor
    · refine ⟨hlo, hhi.trans (Nat.lt_succ_self k), fun d hd hdk ↦ ?_⟩
      rcases Nat.lt_succ_iff_lt_or_eq.mp hdk with hlt | rfl
      · exact hbest d hd hlt
      · exact hle
    · intro c hc
      obtain ⟨hcl, hck, hnear⟩ := hc
      rcases Nat.lt_succ_iff_lt_or_eq.mp hck with hlt | rfl
      · exact hleast ⟨hcl, hlt, fun d hd hdk ↦ hnear d hd (hdk.trans (Nat.lt_succ_self k))⟩
      · exact hhi.le

/-- A scan of some neighbouring positions finds the first nearest one. -/
theorem isLeast_nearest {lo k best : ℕ} (n : ℕ) (h : IsLeast (nearestIn table v lo k) best) :
    IsLeast (nearestIn table v lo (k + n)) (nearest table v best (List.range' k n)) := by
  induction n generalizing k best with
  | zero => exact h
  | succ n ih =>
    have hstep : nearest table v best (List.range' k (n + 1)) =
        nearest table v (if distance table v k < distance table v best then k else best)
          (List.range' (k + 1) n) := by
      rw [List.range'_succ, nearest]
      simp only [quantityAbs_eq, Quantity.lt, decide_eq_true_eq]
      rfl
    rw [hstep, ← Nat.add_assoc, Nat.add_right_comm]
    exact ih (isLeast_nearestIn_succ h)

/-! ## The halving search -/

/-- The voltage lies strictly between those of two positions; behind the last position there is
nothing lower. -/
structure Between (table : VoltageTable Rat) (v : Rat) (lo hi : ℕ) : Prop where
  above : v < voltage table lo
  below : voltage table (min hi 255) < v

/-- Where a halving search lands: on the voltage, or next to where it would be. -/
def Lands (table : VoltageTable Rat) (v : Rat) : ℕ ⊕ ℕ → Prop
  | .inl code => code < 256 ∧ voltage table code = v
  | .inr code => 1 ≤ code ∧ code < 256 ∧ Between table v (code - 1) (code + 1)

/-- The halvings that are left reach as far as the voltage can be. -/
theorem lands_landing {n idx : ℕ} (hlo : 2 ^ n ≤ idx) (hhi : idx + 2 ^ n ≤ 256)
    (between : Between table v (idx - 2 ^ n) (idx + 2 ^ n)) :
    Lands table v (landing table v n idx) := by
  induction n generalizing idx with
  | zero => exact ⟨hlo, Nat.lt_of_succ_le hhi, between⟩
  | succ n ih =>
    have hpow : 2 ^ (n + 1) = 2 ^ n + 2 ^ n := by rw [Nat.pow_succ, Nat.mul_two]
    have hpos : 0 < 2 ^ n := Nat.two_pow_pos n
    rw [hpow] at hlo hhi between
    have hstep : landing table v (n + 1) idx =
        if v < voltage table idx then landing table v n (idx + 2 ^ n)
        else if voltage table idx < v then landing table v n (idx - 2 ^ n)
        else .inl idx := by
      rw [landing, Nat.one_shiftLeft]
      simp only [Quantity.lt, decide_eq_true_eq]
    rw [hstep]
    split
    · rename_i hbelow
      refine ih (by omega) (by omega) ⟨?_, ?_⟩
      · rw [Nat.add_sub_cancel]
        exact hbelow
      · rw [Nat.add_assoc]
        exact between.below
    · split
      · rename_i habove
        refine ih (by omega) (by omega) ⟨?_, ?_⟩
        · rw [Nat.sub_sub]
          exact between.above
        · rw [Nat.sub_add_cancel (by omega), Nat.min_eq_left (by omega)]
          exact habove
      · rename_i hbelow habove
        exact ⟨by omega, le_antisymm (not_lt.mp hbelow) (not_lt.mp habove)⟩

/-! ## The search as a whole -/

/-- Beyond two neighbours with the voltage between them everything is farther away. -/
theorem isLeast_nearestIn_of_between (decreasing : StrictAnti table) {lo hi best : ℕ}
    (hhi : hi < 256) (above : v < voltage table lo) (below : voltage table hi < v)
    (h : IsLeast (nearestIn table v lo (hi + 1)) best) :
    IsLeast (nearestIn table v 0 256) best := by
  obtain ⟨⟨hlo, hbest, hnear⟩, hleast⟩ := h
  have hends : lo ≤ hi := hlo.trans (Nat.lt_succ_iff.mp hbest)
  have hall (d : ℕ) (hd : d < 256) : distance table v best ≤ distance table v d := by
    by_cases hleft : d < lo
    · have hfar := distance_lt_of_above decreasing hleft (by omega) above
      exact (hnear lo le_rfl (by omega)).trans hfar.le
    · by_cases hright : hi < d
      · have hfar := distance_lt_of_below decreasing hright hd below
        exact (hnear hi hends (Nat.lt_succ_self hi)).trans hfar.le
      · exact hnear d (not_lt.mp hleft) (by omega)
  constructor
  · exact ⟨Nat.zero_le _, by omega, fun d _ hd ↦ hall d hd⟩
  · intro c hc
    obtain ⟨-, hc, hcnear⟩ := hc
    by_contra hlt
    have hinside : lo ≤ c := by
      by_contra hleft
      have hfar := distance_lt_of_above decreasing (not_le.mp hleft) (by omega) above
      exact absurd (hcnear lo (Nat.zero_le _) (by omega)) (not_le.mpr hfar)
    refine hlt (hleast ⟨hinside, by omega, fun d hd hdhi ↦ ?_⟩)
    exact hcnear d (Nat.zero_le _) (by omega)

theorem isLeast_of_voltage_eq (decreasing : StrictAnti table) {code : ℕ} (hcode : code < 256)
    (heq : voltage table code = v) : IsLeast (nearestIn table v 0 256) code := by
  have hzero : distance table v code = 0 := by rw [distance, heq, sub_self, abs_zero]
  constructor
  · refine ⟨Nat.zero_le _, hcode, fun d _ _ ↦ ?_⟩
    rw [hzero]
    exact abs_nonneg _
  · intro c hc
    by_contra hlt
    have hstep := voltage_lt_voltage decreasing (not_le.mp hlt) hcode
    have hnear := hc.2.2 code (Nat.zero_le _) hcode
    rw [hzero, distance, abs_nonpos_iff] at hnear
    linarith

/-- Below the voltage of the last position that one is the nearest. -/
theorem isLeast_last (decreasing : StrictAnti table) (h : v ≤ table 255) :
    IsLeast (nearestIn table v 0 256) 255 := by
  rcases h.lt_or_eq with hlt | heq
  · have hfar (c : ℕ) (hc : c < 255) : distance table v 255 < distance table v c :=
      distance_lt_of_above decreasing hc (by norm_num) hlt
    constructor
    · refine ⟨Nat.zero_le _, by norm_num, fun d _ hd ↦ ?_⟩
      rcases Nat.lt_succ_iff_lt_or_eq.mp hd with hd | rfl
      · exact (hfar d hd).le
      · exact le_rfl
    · intro c hc
      by_contra hlt
      exact absurd (hc.2.2 255 (Nat.zero_le _) (by norm_num)) (not_le.mpr (hfar c (not_le.mp hlt)))
  · exact isLeast_of_voltage_eq decreasing (by norm_num) heq.symm

/-- Above the voltage of the first position that one is the nearest. -/
theorem isLeast_first (decreasing : StrictAnti table) (h : table 0 ≤ v) :
    IsLeast (nearestIn table v 0 256) 0 := by
  rcases h.lt_or_eq with hlt | heq
  · refine ⟨⟨le_rfl, by norm_num, fun d _ hd ↦ ?_⟩, fun c _ ↦ Nat.zero_le c⟩
    rcases Nat.eq_zero_or_pos d with rfl | hpos
    · exact le_rfl
    · exact (distance_lt_of_below decreasing hpos hd hlt).le
  · exact isLeast_of_voltage_eq decreasing (by norm_num) heq

theorem isLeast_nearestIn_closestCode (decreasing : StrictAnti table) (v : Rat) :
    IsLeast (nearestIn table v 0 256) (closestCode table v) := by
  have hle (x y : Rat) : Quantity.le x y = true ↔ x ≤ y := decide_eq_true_iff
  rw [closestCode]
  by_cases hlow : v ≤ table 255
  · rw [if_pos ((hle _ _).mpr hlow)]
    exact isLeast_last decreasing hlow
  · rw [if_neg (mt (hle _ _).mp hlow)]
    by_cases hhigh : table 0 ≤ v
    · rw [if_pos ((hle _ _).mpr hhigh)]
      exact isLeast_first decreasing hhigh
    · rw [if_neg (mt (hle _ _).mp hhigh)]
      have hlands : Lands table v (landing table v 7 128) :=
        lands_landing (by norm_num) (by norm_num) ⟨not_le.mp hhigh, not_le.mp hlow⟩
      cases hlanding : landing table v 7 128 with
      | inl idx =>
        rw [hlanding] at hlands
        exact isLeast_of_voltage_eq decreasing hlands.1 hlands.2
      | inr idx =>
        rw [hlanding] at hlands
        obtain ⟨hpos, hidx, between⟩ := hlands
        refine isLeast_nearestIn_of_between decreasing (by omega) between.above between.below ?_
        have hfirst : IsLeast (nearestIn table v (idx - 1) (idx - 1 + 1)) (idx - 1) :=
          isLeast_nearestIn_singleton (idx - 1)
        have hscan := isLeast_nearest (min (idx + 1) 255 - (idx - 1)) hfirst
        rwa [show idx - 1 + 1 + (min (idx + 1) 255 - (idx - 1)) = min (idx + 1) 255 + 1 by omega]
          at hscan

/-- **The search finds the first nearest position.** For every table whose voltages fall from each
position to the next, the position found is the first of those whose voltage is nearest, as a scan
of all positions would find it; and it finds each position by its own voltage. -/
theorem closestCode_isLeast {table : VoltageTable Rat} (decreasing : StrictAnti table) (v : Rat) :
    (∃ code : Fin 256, closestCode table v = code ∧
      IsLeast {c | ∀ d, |table c - v| ≤ |table d - v|} code) ∧
      closestCode table v = nearest table v 0 (List.range' 1 255) ∧
      ∀ c : Fin 256, closestCode table (table c) = c := by
  have hleast := isLeast_nearestIn_closestCode decreasing v
  refine ⟨?_, ?_, fun c ↦ ?_⟩
  · obtain ⟨⟨-, hcode, hnear⟩, hfirst⟩ := hleast
    refine ⟨⟨closestCode table v, hcode⟩, rfl, fun d ↦ ?_, fun c hc ↦ ?_⟩
    · have hd := hnear d (Nat.zero_le _) d.isLt
      rw [distance, distance, voltage_val d, voltage_val ⟨closestCode table v, hcode⟩] at hd
      exact hd
    · refine hfirst ⟨Nat.zero_le _, c.isLt, fun d _ hd ↦ ?_⟩
      rw [distance, distance, voltage_val c, voltage_val ⟨d, hd⟩]
      exact hc ⟨d, hd⟩
  · exact hleast.unique (isLeast_nearest 255 (isLeast_nearestIn_singleton 0))
  · exact (isLeast_nearestIn_closestCode decreasing (table c)).unique
      (isLeast_of_voltage_eq decreasing c.isLt (voltage_val c))

/-! ### The fitted curve -/

theorem strictAnti_curve : StrictAnti (curve : VoltageTable Rat) := by
  intro c d hlt
  have hcd : (c.val : Rat) < d.val := by exact_mod_cast hlt
  have hc : (0 : Rat) ≤ c.val := Nat.cast_nonneg _
  have hcurve (code : Fin 256) :
      (curve code : Rat) = 0.6 + 2.661 / (20 - 2048 / (code.val + 153.6)) := rfl
  have hden : (0 : Rat) < 20 - 2048 / (c.val + 153.6) := by
    rw [sub_pos, div_lt_iff₀ (by linarith)]
    linarith
  have hfalls : 2048 / ((d.val : Rat) + 153.6) < 2048 / (c.val + 153.6) := by
    apply div_lt_div_of_pos_left <;> linarith
  rw [hcurve, hcurve]
  apply add_lt_add_right
  apply div_lt_div_of_pos_left <;> linarith

/-- Midway between two positions of the curve it is the first of them. -/
theorem closestCode_midway : StrictAnti (curve : VoltageTable Rat) ∧
    closestCode curve ((curve 100 + curve 101) / 2 : Rat) = 100 ∧
    IsLeast {c : Fin 256 | ∀ d, |(curve c : Rat) - (curve 100 + curve 101) / 2| ≤
      |curve d - (curve 100 + curve 101) / 2|} 100 := by
  obtain ⟨⟨code, hcode, hleast⟩, -, -⟩ :=
    closestCode_isLeast strictAnti_curve ((curve 100 + curve 101) / 2)
  have hfound : closestCode curve ((curve 100 + curve 101) / 2 : Rat) = 100 := by decide +kernel
  have h100 : code = 100 := Fin.ext (hcode.symm.trans hfound)
  rw [h100] at hleast
  exact ⟨strictAnti_curve, hfound, hleast⟩

end HashBoard.Supply
