import HashBoard.Intensity
import Mathlib.Data.UInt

/-!
# The fields of the flag word

The knobs are put into the flag word one beside the other: two bits that say which of them are used,
patience, the denominator field, and on top the intensity. The word is put together with `|||`, so
each of its fields is made of what its parts have there (`field_or`).

The denominator field is up to 503, one bit more than it has room for. From a denominator of 33 on,
its ninth bit goes into the lowest bit of the intensity, and what is left of it is too small by 256.
All other fields are kept apart.
-/

namespace HashBoard

/-! ### Bit fields -/

/-- The number in some bits of a word, from bit `low` on. -/
def field (low width : Nat) (w : Word) : Nat := w.toNat / 2 ^ low % 2 ^ width

variable {low width : Nat}

/-- What is put together has in each field what its parts have there. -/
theorem field_or (w v : Word) :
    field low width (w ||| v) = field low width w ||| field low width v := by
  rw [field, UInt32.toNat_or, Nat.or_div_two_pow, Nat.or_mod_two_pow]
  rfl

theorem field_eq {w : Word} {n : Nat} (h : w.toNat = n) :
    field low width w = n / 2 ^ low % 2 ^ width := by
  rw [field, h]

theorem toNat_shiftLeft_of_lt {w n : Word} (hn : n.toNat < 32)
    (h : w.toNat * 2 ^ n.toNat < 2 ^ 32) : (w <<< n).toNat = w.toNat * 2 ^ n.toNat := by
  rw [UInt32.toNat_shiftLeft, Nat.mod_eq_of_lt hn, Nat.shiftLeft_eq, Nat.mod_eq_of_lt h]

theorem testBit_field (w : Word) {k : Nat} (h : k < width) :
    (field 0 width w).testBit k = w.toNat.testBit k := by
  rw [field, Nat.pow_zero, Nat.div_one, Nat.testBit_mod_two_pow, decide_eq_true h, Bool.true_and]

/-- What is shifted past a field leaves nothing in it. -/
theorem shifted_past {shift : Nat} (h : low + width ≤ shift) (n : Nat) :
    n * 2 ^ shift / 2 ^ low % 2 ^ width = 0 := by
  obtain ⟨more, rfl⟩ := Nat.exists_eq_add_of_le h
  have parts : n * 2 ^ (low + width + more) = 2 ^ low * (2 ^ width * (n * 2 ^ more)) := by
    rw [Nat.pow_add, Nat.pow_add]
    ac_rfl
  rw [parts, Nat.mul_div_cancel_left _ (Nat.two_pow_pos low), Nat.mul_mod_right]

/-- What is shifted to a field or less far loses what is below it. -/
theorem shifted_to {shift : Nat} (h : shift ≤ low) (n : Nat) :
    n * 2 ^ shift / 2 ^ low = n / 2 ^ (low - shift) := by
  obtain ⟨more, rfl⟩ := Nat.exists_eq_add_of_le h
  rw [Nat.add_sub_cancel_left, Nat.pow_add, Nat.mul_comm n]
  exact Nat.mul_div_mul_left _ _ (Nat.two_pow_pos shift)

namespace Intensity

variable (i : Intensity)

/-! ### The parts of the flag word -/

/-- Patience in its place, with the bit that says that it is used. -/
def patiencePart : Word :=
  if i.patience = 0 then 0 else (0x40 : Word) ||| (i.patience.toUInt32 <<< 8)

/-- The intensity in its place, with the bit that says that it is used. -/
def intensityPart : Word :=
  if i.numerator = 0 then 0
  else (1 : Word) ||| (i.numerator.toUInt32 <<< 24) ||| (i.denominatorField <<< 16)

theorem controlWord_eq : i.controlWord = i.patiencePart ||| i.intensityPart := rfl

theorem toNat_denominatorField :
    i.denominatorField.toNat = 8 * (i.denominator.toNat % 64) - 1 := by
  have mask : (i.denominator.toUInt32 &&& 0x3f).toNat = i.denominator.toNat % 64 := by
    rw [UInt32.toNat_and, UInt8.toNat_toUInt32]
    exact Nat.and_two_pow_sub_one_eq_mod i.denominator.toNat 6
  have eight : (8 : Word).toNat = 8 := rfl
  have scaled : ((i.denominator.toUInt32 &&& 0x3f) * 8).toNat = 8 * (i.denominator.toNat % 64) := by
    rw [UInt32.toNat_mul, mask, eight]
    omega
  rw [denominatorField]
  split
  · -- the field of no denominator is zero, where the subtraction of numbers ends as well
    rename_i zero
    rw [zero] at scaled
    have : (0 : Word).toNat = 0 := rfl
    omega
  · rename_i nonzero
    have pos : ((i.denominator.toUInt32 &&& 0x3f) * 8).toNat ≠ 0 := fun h ↦
      nonzero (UInt32.toNat_inj.mp h)
    have one : (1 : Word).toNat = 1 := rfl
    rw [UInt32.toNat_sub_of_le _ _ (UInt32.le_iff_toNat_le.mpr (by omega)), scaled, one]

theorem toNat_patience_shifted : (i.patience.toUInt32 <<< 8).toNat = i.patience.toNat * 2 ^ 8 := by
  have := i.patience.toNat_lt
  rw [toNat_shiftLeft_of_lt (by decide) (by simp; omega)]
  rfl

theorem toNat_numerator_shifted :
    (i.numerator.toUInt32 <<< 24).toNat = i.numerator.toNat * 2 ^ 24 := by
  have := i.numerator.toNat_lt
  rw [toNat_shiftLeft_of_lt (by decide) (by simp; omega)]
  rfl

theorem toNat_denominator_shifted :
    (i.denominatorField <<< 16).toNat = i.denominatorField.toNat * 2 ^ 16 := by
  have := i.toNat_denominatorField
  rw [toNat_shiftLeft_of_lt (by decide) (by simp; omega)]
  rfl

/-! ### What is in each field -/

theorem field_patiencePart (low width : Nat) :
    field low width i.patiencePart = if i.patience = 0 then 0 else
      (64 / 2 ^ low % 2 ^ width) ||| (i.patience.toNat * 2 ^ 8 / 2 ^ low % 2 ^ width) := by
  rw [patiencePart]
  split
  · simp [field]
  · rw [field_or, field_eq i.toNat_patience_shifted]
    rfl

theorem field_intensityPart (low width : Nat) :
    field low width i.intensityPart = if i.numerator = 0 then 0 else
      (1 / 2 ^ low % 2 ^ width) ||| (i.numerator.toNat * 2 ^ 24 / 2 ^ low % 2 ^ width) |||
        (i.denominatorField.toNat * 2 ^ 16 / 2 ^ low % 2 ^ width) := by
  rw [intensityPart]
  split
  · simp [field]
  · rw [field_or, field_or, field_eq i.toNat_numerator_shifted,
      field_eq i.toNat_denominator_shifted]
    rfl

/-- The number that ends up in the top byte of the flag word. -/
def level : Nat :=
  if i.numerator = 0 then 0 else i.numerator.toNat ||| i.denominatorField.toNat / 256

theorem field_level : field 24 8 i.controlWord = i.level := by
  have hp : i.patience.toNat / 2 ^ 16 = 0 := by
    have := i.patience.toNat_lt
    omega
  have hd : i.denominatorField.toNat / 2 ^ 8 % 2 ^ 8 = i.denominatorField.toNat / 256 := by
    have := i.toNat_denominatorField
    omega
  rw [controlWord_eq, field_or, field_patiencePart, field_intensityPart, shifted_to (by decide),
    shifted_to (by decide), shifted_to (by decide), hp, hd, level]
  simp

theorem field_denominator :
    field 16 8 i.controlWord = if i.numerator = 0 then 0 else i.denominatorField.toNat % 256 := by
  have hp : i.patience.toNat / 2 ^ 8 = 0 := Nat.div_eq_of_lt i.patience.toNat_lt
  rw [controlWord_eq, field_or, field_patiencePart, field_intensityPart, shifted_to (by decide),
    shifted_past (by decide), shifted_to (by decide), hp]
  simp

theorem field_patience : field 8 8 i.controlWord = i.patience.toNat := by
  rw [controlWord_eq, field_or, field_patiencePart, field_intensityPart, shifted_to (by decide),
    shifted_past (by decide), shifted_past (by decide)]
  by_cases h : i.patience = 0 <;> simp [h]

/-- The bits below patience say which of the two knobs are used. -/
theorem field_used : field 0 8 i.controlWord =
    (if i.patience = 0 then 0 else 64) ||| (if i.numerator = 0 then 0 else 1) := by
  rw [controlWord_eq, field_or, field_patiencePart, field_intensityPart, shifted_past (by decide),
    shifted_past (by decide), shifted_past (by decide)]
  simp

theorem testBit_patient : i.controlWord.toNat.testBit 6 = decide (i.patience ≠ 0) := by
  rw [← testBit_field i.controlWord (show 6 < 8 by decide), field_used]
  by_cases hp : i.patience = 0 <;> by_cases hn : i.numerator = 0 <;> simp [hp, hn, Nat.testBit]

theorem testBit_paced : i.controlWord.toNat.testBit 0 = decide (i.numerator ≠ 0) := by
  rw [← testBit_field i.controlWord (show 0 < 8 by decide), field_used]
  by_cases hp : i.patience = 0 <;> by_cases hn : i.numerator = 0 <;> simp [hp, hn]

/-- Each field of the flag word is that of its knob. -/
structure IsApart : Prop where
  level : field 24 8 i.controlWord = i.numerator.toNat
  denominator :
    field 16 8 i.controlWord = if i.numerator = 0 then 0 else i.denominatorField.toNat
  patience : field 8 8 i.controlWord = i.patience.toNat
  patient : i.controlWord.toNat.testBit 6 = decide (i.patience ≠ 0)
  paced : i.controlWord.toNat.testBit 0 = decide (i.numerator ≠ 0)

theorem denominatorField_lt_iff :
    i.denominatorField.toNat < 256 ↔ i.denominator.toNat % 64 ≤ 32 := by
  rw [toNat_denominatorField]
  omega

theorem or_one_eq_self_iff (n : Nat) : n ||| 1 = n ↔ n % 2 = 1 := by
  have quotient : (n ||| 1) / 2 ^ 1 = n / 2 ^ 1 ||| 1 / 2 ^ 1 := Nat.or_div_two_pow
  have last : (n ||| 1) % 2 ^ 1 = n % 2 ^ 1 ||| 1 % 2 ^ 1 := Nat.or_mod_two_pow
  have odd : (n ||| 1) % 2 ^ 1 = 1 := by
    rw [last]
    rcases Nat.mod_two_eq_zero_or_one n with h | h <;> rw [Nat.pow_one, h] <;> rfl
  rw [show 1 / 2 ^ 1 = 0 from rfl, Nat.or_zero] at quotient
  omega

/-- When the intensity is what was asked for. -/
theorem level_eq_iff : i.level = i.numerator.toNat ↔
    i.numerator = 0 ∨ i.denominator.toNat % 64 ≤ 32 ∨ i.numerator.toNat % 2 = 1 := by
  have hd := i.toNat_denominatorField
  rw [level]
  by_cases zero : i.numerator = 0
  · simp [zero]
  · rw [if_neg zero, or_iff_right zero]
    by_cases small : i.denominator.toNat % 64 ≤ 32
    · have none : i.denominatorField.toNat / 256 = 0 := by omega
      rw [none]
      simp [small]
    · have ninth : i.denominatorField.toNat / 256 = 1 := by omega
      rw [ninth, or_one_eq_self_iff, or_iff_right small]

theorem isApart_iff : i.IsApart ↔ i.numerator = 0 ∨ i.denominator.toNat % 64 ≤ 32 := by
  have hd := i.denominatorField_lt_iff
  constructor
  · intro apart
    have denominator := apart.denominator
    rw [field_denominator] at denominator
    by_cases zero : i.numerator = 0
    · exact .inl zero
    · rw [if_neg zero, if_neg zero] at denominator
      exact .inr (hd.mp (by omega))
  · intro h
    refine ⟨?_, ?_, i.field_patience, i.testBit_patient, i.testBit_paced⟩
    · rw [field_level, level_eq_iff]
      tauto
    · rw [field_denominator]
      rcases h with zero | small
      · rw [if_pos zero, if_pos zero]
      · rw [Nat.mod_eq_of_lt (hd.mpr small)]

/-! ### Walking down -/

theorem le_of_mem_levels {step level l : Nat} (h : l ∈ levels step level) : l ≤ level := by
  fun_induction levels step level with
  | case1 level _ ih =>
    rcases List.mem_cons.mp h with rfl | h
    · exact Nat.le_refl _
    · split at h
      · rw [List.mem_singleton.mp h]
        exact Nat.zero_le _
      · rename_i more
        exact Nat.le_trans (ih more h) (Nat.sub_le _ _)
  | case2 => cases h

/-- A flag word that is walked down to some level has that level, and everything else as before. -/
theorem field_walked (flags : Word) {l : Nat} (hl : l < 2 ^ 8) :
    field 24 8 ((flags &&& (0x00ff_ffff : Word)) ||| (UInt32.ofNat l <<< 24)) = l ∧
      field 0 24 ((flags &&& (0x00ff_ffff : Word)) ||| (UInt32.ofNat l <<< 24)) =
        field 0 24 flags := by
  have low : (flags &&& (0x00ff_ffff : Word)).toNat = flags.toNat % 2 ^ 24 := by
    rw [UInt32.toNat_and]
    exact Nat.and_two_pow_sub_one_eq_mod flags.toNat 24
  have small : (UInt32.ofNat l).toNat = l := by
    rw [UInt32.toNat_ofNat']
    exact Nat.mod_eq_of_lt (by omega)
  have high : (UInt32.ofNat l <<< 24).toNat = l * 2 ^ 24 := by
    rw [toNat_shiftLeft_of_lt (by decide) (by rw [small]; simp; omega), small]
    rfl
  constructor
  · have none : flags.toNat % 2 ^ 24 / 2 ^ 24 = 0 := Nat.div_eq_of_lt (Nat.mod_lt _ (by decide))
    rw [field_or, field_eq low, field_eq high, none, shifted_to (Nat.le_refl 24)]
    rw [Nat.sub_self, Nat.pow_zero, Nat.div_one, Nat.mod_eq_of_lt hl, Nat.zero_mod, Nat.zero_or]
  · rw [field_or, field_eq low, field_eq high, shifted_past (by decide)]
    simp [field]

theorem toNat_level (flags : Word) : (flags >>> 24).toNat = field 24 8 flags := by
  have hlt := flags.toNat_lt
  have hdiv : (flags >>> 24).toNat = flags.toNat / 2 ^ 24 := by
    rw [UInt32.toNat_shiftRight, Nat.shiftRight_eq_div_pow]
    rfl
  rw [hdiv, field]
  omega

/-- The ramp steps the level down from where it is, and leaves the rest alone. -/
theorem ramp_walks (flags : Word) :
    (ramp flags).map (field 24 8) = levels ((field 24 8 flags + 7) / 8) (field 24 8 flags) ∧
      ∀ word ∈ ramp flags, field 0 24 word = field 0 24 flags := by
  have hlevel : field 24 8 flags < 2 ^ 8 := Nat.mod_lt _ (by decide)
  have small : ∀ l ∈ levels ((field 24 8 flags + 7) / 8) (field 24 8 flags), l < 2 ^ 8 :=
    fun l h ↦ Nat.lt_of_le_of_lt (le_of_mem_levels h) hlevel
  rw [ramp, toNat_level]
  constructor
  · rw [List.map_map]
    exact (List.map_congr_left fun l hl ↦ (field_walked flags (small l hl)).1).trans
      (List.map_id' _)
  · intro word hword
    obtain ⟨l, hl, rfl⟩ := List.mem_map.mp hword
    exact (field_walked flags (small l hl)).2

/-- The first level of the ramp is the one there is, if there is one. -/
theorem head_ramp (flags : Word) : ((ramp flags).map (field 24 8)).head? =
    if field 24 8 flags = 0 then none else some (field 24 8 flags) := by
  rw [(ramp_walks flags).1, levels]
  split
  · rename_i running
    rw [if_neg (Nat.pos_iff_ne_zero.mp running.1)]
    rfl
  · rw [if_pos (by omega)]
    rfl

end Intensity

end HashBoard
