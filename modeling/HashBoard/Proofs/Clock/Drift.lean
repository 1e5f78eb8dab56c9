import HashBoard.Proofs.Clock.Readback

/-!
# Returning to a whole clock again and again

What a request for a clock leaves to return to is the whole part of the clock that it set. The one
MHz that is added before the divisor is chosen makes up for the part that was dropped. Where nothing
was dropped it is one too many: a clock that is whole, and was asked for as one MHz less, is not
returned to if its divisor is so high that another MHz makes an eighth. Every other clock is.
-/

namespace HashBoard

open Routine

namespace Pll

variable {v d d' : Rat} {t : Nat}

/-- The clock of a divisor is whole and one MHz above what was asked for, and one more MHz makes an
eighth of the divisor. -/
def Slips (v d : Rat) (t : Nat) : Prop := v = (t + 1) * d ∧ (t + 2 : Rat) ≤ 8 * d

/-- A divisor that is accepted and does not grow is the same if it does not come down. -/
theorem divisorFor_eq_ok_iff_le {mhz : Rat} {k : Nat} (hv : 0 ≤ v) (hmhz : 0 ≤ mhz) (hlow : 16 ≤ k)
    (hhigh : k < 128) (hle : eighths v mhz ≤ k) :
    divisorFor v mhz = .ok (k / 8) ↔ (k : Int) ≤ eighths v mhz := by
  rw [divisorFor_eq_ok_iff hv hmhz, div_left_inj' (by norm_num)]
  constructor
  · rintro ⟨hsame, -⟩
    exact_mod_cast hsame.le
  · intro hge
    have hsame : eighths v mhz = k := le_antisymm hle hge
    rw [hsame]
    exact ⟨rfl, by omega, by omega⟩

/-- One MHz is added to a clock that is whole. The divisor comes down if that makes an eighth. -/
theorem le_eighths_succ_iff (k t : Nat) :
    (k : Int) ≤ eighths ((t + 1) * (k / 8)) (t + 1) ↔ ¬(t + 2 : Rat) ≤ 8 * (k / 8) := by
  have hnext : (t + 1 : Rat) * (k / 8) / (t + 1 + 1) * 8 = (t + 1) * k / (t + 2) := by
    field_simp
    ring
  have hpos : (0 : Rat) < t + 2 := by positivity
  rw [eighths, Int.le_ceil_iff, hnext, lt_div_iff₀ hpos,
    mul_div_cancel₀ _ (by norm_num : (8 : Rat) ≠ 0), not_le]
  push_cast
  constructor
  · intro h
    linarith
  · intro h
    linarith

/-- The whole part of the clock that an accepted divisor gives has the same divisor, but where it
slips. -/
theorem divisorFor_floor_iff (hv : 0 ≤ v) (accepts : divisorFor v t = .ok d) :
    divisorFor v (⌊v / d⌋ : Rat) = .ok d ↔ ¬Slips v d t := by
  obtain ⟨k, hlow, hhigh, rfl, heighths⟩ := eighths_of_divisorFor hv t.cast_nonneg accepts
  have hk : (0 : Rat) < k / 8 := by positivity
  have hfloor : (0 : Rat) ≤ (⌊v / (k / 8 : Rat)⌋ : Rat) :=
    Int.cast_nonneg (Int.floor_nonneg.mpr (div_nonneg hv hk.le))
  have hle : eighths v ⌊v / (k / 8 : Rat)⌋ ≤ k := ceil_eighths k ▸ eighths_le hk hv le_rfl
  have hclock : v ≤ (t + 1) * (k / 8) := by
    have hceil := le_mul_ceil v (t.cast_nonneg (α := Rat))
    rwa [← eighths, heighths, Int.cast_natCast] at hceil
  rw [divisorFor_eq_ok_iff_le hv hfloor hlow hhigh hle]
  -- below one MHz more than was asked for, the whole part is no more than was asked for
  rcases hclock.lt_or_eq with hpart | hexact
  · have hbelow : (⌊v / (k / 8 : Rat)⌋ : Rat) ≤ t := by
      have hlt : v / (k / 8 : Rat) < (t + 1 : Int) := by
        rw [div_lt_iff₀ hk]
        exact_mod_cast hpart
      exact_mod_cast Int.lt_add_one_iff.mp (Int.floor_lt.mpr hlt)
    refine iff_of_true ?_ fun slips ↦ hpart.ne slips.1
    rw [← heighths]
    exact eighths_antitone hv hfloor hbelow
  · have hone : (⌊v / (k / 8 : Rat)⌋ : Rat) = t + 1 := by
      rw [hexact, mul_div_cancel_right₀ _ hk.ne']
      exact_mod_cast congrArg (Int.cast (R := Rat)) (Int.floor_natCast (t + 1))
    rw [hone, Slips, and_iff_right hexact, hexact]
    exact le_eighths_succ_iff k t

/-- Divisors that are accepted have words of their own. -/
theorem encode_inj {v' t t' : Rat} (hv : 0 ≤ v) (ht : 0 ≤ t) (hv' : 0 ≤ v') (ht' : 0 ≤ t')
    (accepts : divisorFor v t = .ok d) (accepts' : divisorFor v' t' = .ok d')
    (h : encode d = encode d') : d = d' := by
  obtain ⟨k, hlow, hhigh, rfl, -⟩ := eighths_of_divisorFor hv ht accepts
  obtain ⟨k', hlow', hhigh', rfl, -⟩ := eighths_of_divisorFor hv' ht' accepts'
  rw [← divisor_encode k hhigh hlow, h, divisor_encode k' hhigh' hlow']

end Pll

namespace Clocking

/-- Requests one after another, each for the clock that is to be returned to, with an oscillator of
the same frequency. What is done between two of them leaves that clock alone. -/
inductive Restores (vco : Rat) : (target : Rat) → List (List (Answered Rat)) → Rat → Prop
  | nil (target : Rat) : Restores vco target [] target
  | cons {m : Memory Rat} {pll : PllReading Rat} {talk : List (Answered Rat)}
      {talks : List (List (Answered Rat))} {x : Option Rat} {target : Rat} :
    Run (setClock (.target m.clock.target)) talk x → readingIn talk = some pll → pll.vco = vco →
    Restores vco (recollection m talk).clock.target talks target →
    Restores vco m.clock.target (talk :: talks) target

/-- A request programs a divisor, and none other. -/
def Selects (d : Rat) (talk : List (Answered Rat)) : Prop :=
  writesTo Reg.pllClk0 talk = [.call (.write (Pll.encode d) Reg.pllClk0)]

variable {d target target' : Rat} {pll : PllReading Rat} {talk : List (Answered Rat)}
  {talks : List (List (Answered Rat))} {x : Option Rat}

theorem selects_of_programs (h : Programs pll d talk x) : Selects d talk := h.writes _ (by decide)

theorem selects_of_refuses (h : Refuses pll talk x) : ¬Selects d talk := fun selects ↦ by
  rw [Selects, h.writes _ (by decide)] at selects
  cases selects

theorem vco_nonneg_of_readingIn (reads : readingIn talk = some pll) : 0 ≤ pll.vco := by
  rw [readingIn] at reads
  split at reads
  · exact (Pll.decoded reads).vco_nonneg
  · cases reads

/-- A request after which one divisor was programmed has that divisor. -/
theorem divisorFor_of_selects {mhz v t : Rat} (run : Run (setClock (.target mhz)) talk x)
    (reads : readingIn talk = some pll) (hmhz : 0 ≤ mhz) (hv : 0 ≤ v) (ht : 0 ≤ t)
    (accepts : Pll.divisorFor v t = .ok d) (selects : Selects d talk) :
    Pll.divisorFor pll.vco mhz = .ok d := by
  have hprograms := programs_of_run run reads
  cases hdivisor : Pll.divisorFor pll.vco mhz with
  | error e =>
    rw [hdivisor] at hprograms
    exact absurd selects (selects_of_refuses hprograms)
  | ok d' =>
    rw [hdivisor] at hprograms
    have hwords := List.singleton_inj.mp (selects.symm.trans (selects_of_programs hprograms))
    simp only [Request.call.injEq, Call.write.injEq, and_true] at hwords
    rw [Pll.encode_inj hv ht (vco_nonneg_of_readingIn reads) hmhz accepts hdivisor hwords]

/-- A clock whose divisor gives it back, dropping its fraction, is returned to however often. -/
theorem Restores.selects {vco : Rat} (h : Restores vco target talks target')
    (accepts : Pll.divisorFor vco target = .ok d) (gives : Quantity.trunc (vco / d) = target) :
    (∀ talk ∈ talks, Selects d talk) ∧ target' = target := by
  induction h with
  | nil => exact ⟨List.forall_mem_nil _, rfl⟩
  | @cons m pll talk talks x target' run reads hvco later ih =>
    subst hvco
    have programs := programs_of_accepts run reads accepts
    have hsame : (recollection m talk).clock.target = m.clock.target := by
      rw [programs.recollects]
      exact gives
    rw [hsame] at ih
    obtain ⟨hselects, rfl⟩ := ih accepts gives
    exact ⟨List.forall_mem_cons.mpr ⟨selects_of_programs programs, hselects⟩, rfl⟩

end Clocking

open Clocking

/-- **When a whole clock is returned to.** A request for a clock of whole MHz that has a divisor is
followed by others, each for the clock that is then to be returned to. All of them select the same
divisor, and leave the clock to return to as it is, if and only if the divisor does not slip. -/
theorem returns_alike_iff {m : Memory Rat} {t : Nat} {first : List (Answered Rat)} {x : Option Rat}
    (run : Run (setClock (.target (t : Rat))) first x) {pll : PllReading Rat}
    (reads : readingIn first = some pll) {d : Rat}
    (accepts : Pll.divisorFor pll.vco t = .ok d) {talks : List (List (Answered Rat))} {target : Rat}
    (later : Restores pll.vco (recollection m first).clock.target talks target)
    (further : talks ≠ []) :
    ((∀ talk ∈ talks, Selects d talk) ∧ target = (recollection m first).clock.target) ↔
      ¬Pll.Slips pll.vco d t := by
  have hvco := vco_nonneg_of_readingIn reads
  have programs := programs_of_accepts run reads accepts
  obtain ⟨k, hlow, -, hd, -⟩ := Pll.eighths_of_divisorFor hvco t.cast_nonneg accepts
  have hclock : 0 ≤ pll.vco / d := by
    rw [hd]
    positivity
  have htarget : (recollection m first).clock.target = Quantity.trunc (pll.vco / d) := by
    rw [programs.recollects]
    rfl
  have hwhole := htarget.trans (Pll.trunc_eq hclock)
  rw [← Pll.divisorFor_floor_iff hvco accepts, ← hwhole]
  have hnonneg : 0 ≤ (recollection m first).clock.target := by
    rw [hwhole]
    exact Int.cast_nonneg (Int.floor_nonneg.mpr hclock)
  generalize (recollection m first).clock.target = returned at *
  constructor
  -- the first of the others decides: it asks for the whole part of the clock that was set
  · rintro ⟨selects, -⟩
    cases later with
    | nil => exact absurd rfl further
    | cons run' reads' hsame =>
      rw [← hsame]
      exact divisorFor_of_selects run' reads' hnonneg hvco t.cast_nonneg accepts
        (selects _ (.head _))
  · intro kept
    exact later.selects kept htarget.symm

/-! ### A clock of 80 MHz -/

namespace Clocking

/-- A board whose oscillator runs at 1000 MHz. -/
def slow : SimulatedBoard :=
  { SimulatedBoard.healthy with
    registers := (Reg.pllVco, 0x501) :: SimulatedBoard.healthy.registers }

/-- It is asked for 79 MHz, and runs at 80 over a divisor of 12.5. -/
def set79 : Rehearsal Saving.requests := asking (.start 0 false) slow (.target 79)

/-- It is asked for 80 MHz. -/
def set80 : Rehearsal Saving.requests :=
  asking set79.scene.shared.memory set79.board (.target 80)

theorem set79_runs : ∃ x, Run (setClock (.target 79)) (talkOf set79.before) x := by
  have answers : answersAlone (.start 0 false) slow (.target 79) := by decide +kernel
  obtain ⟨x, run, -⟩ := exists_run_of_answersAlone answers
  exact ⟨x, run⟩

theorem readingIn_set79 :
    readingIn (talkOf set79.before) = some (⟨0x501, 1000, 4, 250⟩ : PllReading Rat) := by
  decide +kernel

theorem readingIn_set80 : readingIn (talkOf set80.before) =
    some (⟨0x501, 1000, 12.5, 80⟩ : PllReading Rat) := by
  decide +kernel

theorem divisorFor_79 : Pll.divisorFor (1000 : Rat) (79 : Nat) = .ok 12.5 :=
  (Pll.divisorFor_eq_ok_iff (by norm_num) (by norm_num)).mpr (by decide +kernel)

theorem divisorFor_80 : Pll.divisorFor (1000 : Rat) 80 = .ok 12.375 :=
  (Pll.divisorFor_eq_ok_iff (by norm_num) (by norm_num)).mpr (by decide +kernel)

/-- What is remembered after the first request. -/
def after79 : Memory Rat := recollection (.start 0 false) (talkOf set79.before)

theorem target_of_set79 : after79.clock.target = (80 : Rat) := by decide +kernel

theorem set80_runs :
    ∃ y, Run (setClock (.target after79.clock.target)) (talkOf set80.before) y := by
  have answers : answersAlone set79.scene.shared.memory set79.board (.target 80) := by
    decide +kernel
  obtain ⟨y, run, -⟩ := exists_run_of_answersAlone answers
  rw [target_of_set79]
  exact ⟨y, run⟩

theorem target_of_set80 :
    (recollection after79 (talkOf set80.before)).clock.target = (80 : Rat) := by
  decide +kernel

end Clocking

/-- The equivalence where a divisor slips: 80 MHz were reached over 12.5, and another divisor is
programmed for them. -/
theorem slips_of_set79 : after79.clock.target = (80 : Rat) ∧
    ∃ y, Run (setClock (.target after79.clock.target)) (talkOf set80.before) y ∧
      ¬Selects 12.5 (talkOf set80.before) := by
  obtain ⟨x, run⟩ := set79_runs
  obtain ⟨y, run'⟩ := set80_runs
  have later : Restores 1000 after79.clock.target [talkOf set80.before]
      (recollection after79 (talkOf set80.before)).clock.target :=
    .cons run' readingIn_set80 rfl (.nil _)
  have slips : Pll.Slips 1000 12.5 79 := ⟨by norm_num, by norm_num⟩
  have alike := returns_alike_iff run readingIn_set79 divisorFor_79 later (List.cons_ne_nil _ _)
  refine ⟨target_of_set79, y, run', fun selects ↦ alike.mp ⟨?_, ?_⟩ slips⟩
  · exact List.forall_mem_singleton.mpr selects
  · exact target_of_set80.trans target_of_set79.symm

/-- Not every whole clock is returned to. -/
theorem whole_clock_not_kept :
    ¬∀ (m : Memory Rat) (t : Nat) (first second : List (Answered Rat)) (x y : Option Rat)
      (pll pll' : PllReading Rat) (d : Rat),
      Run (setClock (.target (t : Rat))) first x → readingIn first = some pll →
      Pll.divisorFor pll.vco t = .ok d →
      Run (setClock (.target (recollection m first).clock.target)) second y →
      readingIn second = some pll' → pll'.vco = pll.vco →
      Selects d second ∧ (recollection (recollection m first) second).clock.target =
        (recollection m first).clock.target := by
  intro always
  obtain ⟨x, run⟩ := set79_runs
  obtain ⟨y, run'⟩ := set80_runs
  obtain ⟨selects, -⟩ := always (.start 0 false) 79 (talkOf set79.before) (talkOf set80.before) x y
    _ _ _ run readingIn_set79 divisorFor_79 run' readingIn_set80 rfl
  have hnonneg : 0 ≤ after79.clock.target := by
    rw [target_of_set79]
    norm_num
  have accepts := divisorFor_of_selects run' readingIn_set80 hnonneg (by norm_num) (by norm_num)
    divisorFor_79 selects
  rw [target_of_set79] at accepts
  exact absurd (Except.ok.inj (accepts.symm.trans divisorFor_80)) (by norm_num)

end HashBoard
