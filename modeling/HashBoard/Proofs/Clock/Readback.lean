import HashBoard.Proofs.Clock.Programming
import HashBoard.Proofs.Clock.StockClock

/-!
# Reading back a divisor

The limits of the divisor are those of its register: the whole part has four bits, and the eighths
of a fraction are whole thousandths. So a divisor that is accepted is encoded as it is, and a board
that gives back what was written reports the clock that was set.
-/

namespace HashBoard

open Routine

namespace Pll

/-! ## The choice of a divisor -/

variable {v t d : Rat}

/-- The divisor for a clock is rounded up to an eighth, and rejected outside its limits. -/
theorem divisorFor_iff (hv : 0 ≤ v) (ht : 0 ≤ t) :
    (divisorFor v t = .ok (⌈v / (t + 1) * 8⌉ / 8) ↔
      (2 : Rat) ≤ ⌈v / (t + 1) * 8⌉ / 8 ∧ (⌈v / (t + 1) * 8⌉ / 8 : Rat) ≤ 15.875) ∧
    (divisorFor v t = .error (.tooFast (⌈v / (t + 1) * 8⌉ / 8)) ↔
      (⌈v / (t + 1) * 8⌉ / 8 : Rat) < 2) ∧
    (divisorFor v t = .error (.tooSlow (⌈v / (t + 1) * 8⌉ / 8)) ↔
      (15.875 : Rat) < ⌈v / (t + 1) * 8⌉ / 8) := by
  have hchoice := divisorFor_eq hv ht
  rw [eighths] at hchoice
  generalize (⌈v / (t + 1) * 8⌉ / 8 : Rat) = d at *
  rcases lt_or_ge d 2 with low | low
  · have hshort : ¬(15.875 : Rat) < d := by linarith
    rw [hchoice, if_pos low]
    exact ⟨iff_of_false (by simp) (fun h ↦ absurd low (not_lt.mpr h.1)), iff_of_true rfl low,
      iff_of_false (by simp) hshort⟩
  · rw [hchoice, if_neg (not_lt.mpr low)]
    rcases lt_or_ge (15.875 : Rat) d with high | high
    · rw [if_pos high]
      exact ⟨iff_of_false (by simp) (fun h ↦ absurd high (not_lt.mpr h.2)),
        iff_of_false (by simp) (not_lt.mpr low), iff_of_true rfl high⟩
    · rw [if_neg (not_lt.mpr high)]
      exact ⟨iff_of_true rfl ⟨low, high⟩, iff_of_false (by simp) (not_lt.mpr low),
        iff_of_false (by simp) (not_lt.mpr high)⟩

/-- The divisor for a clock gives one that is at most one MHz faster. -/
theorem le_mul_ceil (v : Rat) (ht : 0 ≤ t) : v ≤ (t + 1) * (⌈v / (t + 1) * 8⌉ / 8) :=
  calc
    v = (t + 1) * (v / (t + 1) * 8 / 8) := by field_simp
    _ ≤ (t + 1) * (⌈v / (t + 1) * 8⌉ / 8) := by
      gcongr
      exact Int.le_ceil _

/-! ## The two fields -/

/-- A divisor fits its word: its whole part the low four bits, and its fraction, in thousandths, the
ten bits from bit 8 on. -/
def Fits (d : Rat) (word : Word) : Prop :=
  ∃ whole fraction : Nat, whole < 16 ∧ fraction < 1024 ∧ (whole : Rat) = ⌊d⌋ ∧
    (fraction : Rat) = Int.fract d * 1000 ∧ word.toNat = whole + fraction * 256

theorem toNat_encode : ∀ k < (128 : Nat), 16 ≤ k →
    (encode ((k : Rat) / 8)).toNat = k / 8 + k % 8 * 125 * 256 := by
  decide +kernel

theorem fits_encode {k : Nat} (hlow : 16 ≤ k) (hhigh : k < 128) :
    Fits (k / 8) (encode ((k : Rat) / 8)) := by
  refine ⟨k / 8, k % 8 * 125, by omega, by omega, ?_, ?_, toNat_encode k hhigh hlow⟩
  · have hfloor : ⌊(k : Rat) / (8 : Nat)⌋ = (k / 8 : Nat) := Rat.floor_natCast_div_natCast k 8
    rw [Nat.cast_ofNat] at hfloor
    rw [hfloor, Int.cast_natCast]
  · have hfract : Int.fract ((k : Rat) / (8 : Nat)) = (k % 8 : Nat) / (8 : Nat) :=
      Int.fract_div_natCast_eq_div_natCast_mod
    rw [Nat.cast_ofNat] at hfract
    rw [hfract]
    push_cast
    ring

/-- The word of an oscillator that runs is decoded with any divisor that is accepted. -/
theorem decode_encode {vcoWord : Word} (runs : vcoWord &&& 0xf ≠ 0) {k : Nat} (hlow : 16 ≤ k)
    (hhigh : k < 128) :
    ∃ pll, decode vcoWord (encode ((k : Rat) / 8)) = some pll ∧ pll.divisor = (k / 8 : Rat) := by
  have hdivisor := divisor_encode k hhigh hlow
  have hpos : (0 : Rat) < k / 8 := by positivity
  have hout : ¬Quantity.same (Quantity.ofNat (vcoWord &&& 0xf).toNat : Rat) (Quantity.ofNat 0) := by
    rw [same_zero_iff]
    have hne : (vcoWord &&& 0xf).toNat ≠ 0 := fun h ↦ runs (UInt32.toNat_inj.mp h)
    exact Nat.cast_ne_zero.mpr hne
  have hd : ¬Quantity.same (divisor (encode ((k : Rat) / 8)) : Rat) (Quantity.ofNat 0) := by
    rw [same_zero_iff, hdivisor]
    exact hpos.ne'
  refine ⟨_, if_neg ?_, hdivisor⟩
  rw [Bool.or_eq_true, not_or]
  exact ⟨hout, hd⟩

end Pll

/-! ## A board that gives back what was written -/

namespace Clocking

variable {ν : Type} {addr w : Word} {talk : List (Answered ν)}

/-- A faithful register is read as it is, which leaves it as it is. -/
theorem read_of_faithful {x : Except LinkFault Word} (run : Run (read addr) talk x)
    (faithful : Faithful addr w talk) : x = .ok w := by
  obtain ⟨rest, rfl, -⟩ := exists_of_run_read run
  cases x with
  | error fault => exact absurd rfl faithful.1
  | ok value => exact congrArg _ (faithful.1 rfl)

theorem contents_of_run_read {addr' : Word} {x : Except LinkFault Word}
    (run : Run (read addr') talk x) : contents addr w talk = w := by
  obtain ⟨rest, rfl, hrest⟩ := exists_of_run_read run
  refine contents_of_unwritten fun said hs ↦ ?_
  rcases List.mem_cons.mp hs with rfl | hs
  · exact id
  · obtain ⟨event, hevent⟩ := hrest said hs
    rw [hevent]
    exact id

variable [Quantity ν] {vcoWord clkWord : Word}

/-- The settings that are read of a clock generator are those that its words stand for. -/
theorem readPll_of_faithful {pll : Option (PllReading ν)} (run : Run readPll talk pll)
    (faithful : FaithfulClock vcoWord clkWord talk) : pll = Pll.decode vcoWord clkWord := by
  obtain ⟨first, x, _, rfl, hfirst, run⟩ := run_bind_iff.mp run
  obtain ⟨faithful₁, faithful⟩ := faithfulClock_append.mp faithful
  rw [contents_of_run_read hfirst, contents_of_run_read hfirst] at faithful
  obtain rfl := read_of_faithful hfirst faithful₁.1
  obtain ⟨second, y, last, rfl, hsecond, run⟩ := run_bind_iff.mp run
  obtain ⟨faithful₂, -⟩ := faithfulClock_append.mp faithful
  obtain rfl := read_of_faithful hsecond faithful₂.2
  dsimp only at run
  cases hdecode : Pll.decode (ν := ν) vcoWord clkWord with
  | none =>
    rw [hdecode] at run
    obtain ⟨_, _, rest, -, -, run⟩ := run_bind_iff.mp run
    exact (run_done_iff.mp run).2.symm
  | some pll =>
    rw [hdecode] at run
    exact (run_done_iff.mp run).2.symm

theorem readingIn_of_faithful {request : ClockRequest ν} {x : Option ν}
    (run : Run (setClock request) talk x) (faithful : FaithfulClock vcoWord clkWord talk) :
    readingIn talk = Pll.decode vcoWord clkWord := by
  obtain ⟨first, pll, rest, rfl, hread, -⟩ := run_bind_iff.mp run
  rw [readingIn_of_run hread]
  exact readPll_of_faithful hread (faithfulClock_append.mp faithful).1

theorem clock_of_run_read {pll : PllReading ν} {x : Option ν} (run : Run (setClock .read) talk x)
    (reads : readingIn talk = some pll) : x = some pll.core := by
  obtain ⟨first, _, rest, rfl, hread, hrest⟩ := run_bind_iff.mp run
  obtain rfl := (readingIn_of_run hread rest).symm.trans reads
  obtain ⟨_, _, _, _, -, hend⟩ := run_bind_iff.mp hrest
  exact (run_done_iff.mp hend).2.symm

/-- What a faithful clock generator holds after a request for a clock that has a divisor. -/
theorem contents_of_programs {pll : PllReading ν} {d : ν} {x : Option ν}
    (programs : Programs pll d talk x) (faithful : FaithfulClock vcoWord clkWord talk) :
    contents Reg.pllVco vcoWord talk = pll.vcoWord ∧
      contents Reg.pllClk0 clkWord talk = Pll.encode d := by
  constructor
  · refine contents_of_writesTo faithful.1 ((programs.writes _ (by decide)).trans ?_)
    rfl
  · refine contents_of_writesTo faithful.2 ((programs.writes _ (by decide)).trans ?_)
    rfl

/-- A reading of the clock after a request for one gives what the request gave, if the divisor is
decoded as it was encoded, and nobody writes the words of the clock generator in between. -/
theorem clock_of_runs {pll : PllReading Rat} {mhz d : Rat}
    {first between later : List (Answered Rat)} {x y : Option Rat}
    (reads : Pll.decode vcoWord clkWord = some pll) (accepts : Pll.divisorFor pll.vco mhz = .ok d)
    (hpos : 0 < d) (hdivisor : Pll.divisor (Pll.encode d) = d)
    (run : Run (setClock (.target mhz)) first x)
    (unwritten : ∀ said ∈ between,
      ¬said.request.Writes Reg.pllVco ∧ ¬said.request.Writes Reg.pllClk0)
    (run' : Run (setClock .read) later y)
    (faithful : FaithfulClock vcoWord clkWord (first ++ between ++ later)) :
    x = some (pll.vco / d) ∧ y = some (pll.vco / d) := by
  obtain ⟨faithful, faithful_later⟩ := faithfulClock_append.mp faithful
  obtain ⟨faithful_first, -⟩ := faithfulClock_append.mp faithful
  have programs : Programs pll d first x :=
    programs_of_accepts run ((readingIn_of_faithful run faithful_first).trans reads) accepts
  -- when the clock is read, the words are the oscillator's as it was and the divisor's as encoded
  obtain ⟨hvco, hclk⟩ := contents_of_programs programs faithful_first
  rw [contents_append, contents_append, hvco, hclk, Pll.vcoWord_of_decode reads,
    contents_of_unwritten fun said hs ↦ (unwritten said hs).1,
    contents_of_unwritten fun said hs ↦ (unwritten said hs).2] at faithful_later
  have hprogrammed : (0 : Rat) < Pll.divisor (Pll.encode d) := by
    rw [hdivisor]
    exact hpos
  have reads_later := (readingIn_of_faithful run' faithful_later).trans
    ((Pll.decoded reads).others (Pll.encode d) hprogrammed)
  refine ⟨programs.clock, ?_⟩
  rw [clock_of_run_read run' reads_later, hdivisor]

end Clocking

open Clocking in
/-- **Reading back a divisor.** For a clock of `t` MHz at an oscillator of `v` MHz the divisor is
`v / (t + 1)` rounded up to an eighth. It is accepted from 2 to 15.875, and rejected as too fast
below and as too slow above. One that is accepted fits its word, and the word is decoded as it. Both
requests come to an end whoever answers; and on a board that gives back what was written, a request
for the clock and a reading of it later give the same clock, which is at most one MHz too fast. -/
theorem clock_readsBack {v t : Rat} (hv : 0 < v) (ht : 0 ≤ t) :
    ∃ d : Rat, d = ⌈v / (t + 1) * 8⌉ / 8 ∧
    ((Pll.divisorFor v t = .ok d ↔ 2 ≤ d ∧ d ≤ 15.875) ∧
      (Pll.divisorFor v t = .error (.tooFast d) ↔ d < 2) ∧
      (Pll.divisorFor v t = .error (.tooSlow d) ↔ 15.875 < d)) ∧
    (∀ (request : ClockRequest Rat) (reply : Answering Rat),
      ∃ talk x, Run (setClock request) talk x ∧ reply.Gives [] talk) ∧
    (Pll.divisorFor v t = .ok d → Pll.Fits d (Pll.encode d) ∧
      (∀ vcoWord : Word, vcoWord &&& 0xf ≠ 0 →
        ∃ pll, Pll.decode vcoWord (Pll.encode d) = some pll ∧ pll.divisor = d) ∧
      ∀ {vcoWord clkWord : Word} {pll : PllReading Rat} {first between later : List (Answered Rat)}
        {x y : Option Rat}, Pll.decode vcoWord clkWord = some pll → pll.vco = v →
        Run (setClock (.target t)) first x →
        (∀ said ∈ between, ¬said.request.Writes Reg.pllVco ∧ ¬said.request.Writes Reg.pllClk0) →
        Run (setClock .read) later y → FaithfulClock vcoWord clkWord (first ++ between ++ later) →
        x = some (v / d) ∧ y = some (v / d) ∧ v / d ≤ t + 1) := by
  refine ⟨_, rfl, Pll.divisorFor_iff hv.le ht,
    fun request reply ↦ (Board.brief_setClock request).exists_run reply [], fun accepts ↦ ?_⟩
  obtain ⟨k, hlow, hhigh, hd, -⟩ := Pll.eighths_of_divisorFor hv.le ht accepts
  have hslow : v ≤ (t + 1) * (⌈v / (t + 1) * 8⌉ / 8) := Pll.le_mul_ceil v ht
  generalize (⌈v / (t + 1) * 8⌉ / 8 : Rat) = d at *
  have hpos : 0 < d := by
    rw [hd]
    positivity
  refine ⟨hd ▸ Pll.fits_encode hlow hhigh, fun vcoWord runs ↦ ?_, ?_⟩
  · rw [hd]
    exact Pll.decode_encode runs hlow hhigh
  · rintro vcoWord clkWord pll first between later x y reads rfl run unwritten run' faithful
    have hdivisor : Pll.divisor (Pll.encode d) = d := by
      rw [hd]
      exact Pll.divisor_encode k hhigh hlow
    obtain ⟨hset, hread⟩ := clock_of_runs reads accepts hpos hdivisor run unwritten run' faithful
    exact ⟨hset, hread, (div_le_iff₀ hpos).mpr hslow⟩

/-! ### A clock of 400 MHz -/

namespace Clocking

/-- A healthy board is asked for 400 MHz. -/
def set400 : Rehearsal Saving.requests := asking (.start 0 false) .healthy (.target 400)

/-- Then its clock is read. -/
def read400 : Rehearsal Saving.requests := asking set400.scene.shared.memory set400.board .read

end Clocking

open Clocking in
/-- The same clock twice on a healthy board that is asked for 400 MHz: the divisor of its oscillator
at 2000 MHz is 5. -/
theorem clock_readsBack_of_set400 :
    (0 : Rat) < 2000 ∧ (0 : Rat) ≤ 400 ∧ Pll.divisorFor (2000 : Rat) 400 = .ok 5 ∧
      Run (setClock (.target 400)) (talkOf set400.before) (some (400 : Rat)) ∧
      Run (setClock .read) (talkOf read400.before) (some (400 : Rat)) := by
  have hv : (0 : Rat) < 2000 := by norm_num
  have ht : (0 : Rat) ≤ 400 := by norm_num
  have hd : (⌈(2000 : Rat) / (400 + 1) * 8⌉ / 8 : Rat) = 5 := by decide +kernel
  obtain ⟨d, hceil, ⟨haccepts, -⟩, -, hboard⟩ := clock_readsBack hv ht
  obtain rfl := hceil.trans hd
  have accepts := haccepts.mpr (by norm_num)
  have answers : answersAlone (.start 0 false) .healthy (.target 400) := by decide +kernel
  have answers' : answersAlone set400.scene.shared.memory set400.board .read := by decide +kernel
  obtain ⟨x, run, -⟩ := exists_run_of_answersAlone answers
  obtain ⟨y, run', -⟩ := exists_run_of_answersAlone answers'
  have faithful : FaithfulClock 0xa01 0x4
      (talkOf set400.before ++ [] ++ talkOf read400.before) := by decide +kernel
  have reads : Pll.decode 0xa01 0x4 = some (⟨0xa01, 2000, 4, 500⟩ : PllReading Rat) := by
    decide +kernel
  obtain ⟨rfl, rfl, -⟩ := (hboard accepts).2.2 reads rfl run (List.forall_mem_nil _) run' faithful
  have hclock : (2000 / 5 : Rat) = 400 := by norm_num
  rw [hclock] at run run'
  exact ⟨hv, ht, accepts, run, run'⟩

end HashBoard
