import HashBoard.Board.Rails
import HashBoard.Proofs.Quantity.Rounding
import HashBoard.Proofs.Routine.Brief
import HashBoard.Proofs.Routine.Does

/-!
# Setting the rails

What is written for a rail depends on its own target: nothing if that is zero or outside the band,
and otherwise a whole sequence (`railAPart`, `railBPart`). Whatever the writes are answered, the two
parts are made one after the other, each step with its wait (`does_setVoltage`).

The code of rail B is computed in doubles. Before it is rounded it is off by `2 ^ (-45)` at most,
and no target is as close as that to halfway between two codes, so the code is the one that exact
arithmetic gives (`toNat_railBCode_float`, `toNat_railBCode_rat`).
-/

namespace HashBoard

variable {ν : Type}

/-- What a step of a sequence asks for: a write, and the wait after it if there is one. -/
def SupplyStep.requests (s : SupplyStep) : List (Request ν) :=
  .call (.write s.value s.addr) :: if s.settle = 0 then [] else [.sleep s.settle]

/-- How long a request lets time pass. -/
def Request.span : Request ν → Micros
  | .sleep span => span
  | _ => 0

theorem sum_span_requests (s : SupplyStep) :
    ((s.requests : List (Request ν)).map Request.span).sum = s.settle := by
  rw [SupplyStep.requests]
  split
  · rename_i none
    exact none.symm
  · exact (Nat.zero_add _).trans (Nat.add_zero _)

theorem sum_span_flatMap (steps : List SupplyStep) :
    ((steps.flatMap SupplyStep.requests : List (Request ν)).map Request.span).sum =
      (steps.map SupplyStep.settle).sum := by
  induction steps with
  | nil => rfl
  | cons s steps ih =>
    rw [List.flatMap_cons, List.map_append, List.sum_append, sum_span_requests, ih, List.map_cons,
      List.sum_cons]

namespace Routine

/-- A write that fails is mentioned, and the wait after it is made all the same. -/
theorem does_supplyStep (s : SupplyStep) : (supplyStep s : Routine ν Unit).Does s.requests := by
  have settles : (if s.settle = 0 then .done () else sleep s.settle : Routine ν Unit).Does
      (if s.settle = 0 then [] else [.sleep s.settle]) := by
    split
    · exact does_done ()
    · exact does_request rfl
  refine (does_write s.value s.addr).bind fun x ↦ ?_
  cases x with
  | ok => exact settles
  | error fault => exact (does_note _).bind fun _ ↦ settles

theorem does_supplySteps (steps : List SupplyStep) :
    (supplySteps steps : Routine ν Unit).Does (steps.flatMap SupplyStep.requests) :=
  does_forEach does_supplyStep steps

theorem brief_supplySteps (steps : List SupplyStep) :
    (supplySteps steps : Routine ν Unit).Brief := by
  refine brief_forEach (fun s ↦ (brief_write _ _).bind fun x ↦ ?_) steps
  have settles : (if s.settle = 0 then .done () else sleep s.settle : Routine ν Unit).Brief := by
    split
    · exact brief_done ()
    · exact brief_request _
  cases x with
  | ok => exact settles
  | error fault => exact (brief_note _).bind fun _ ↦ settles

end Routine

namespace Supply

open Routine Doubles

variable {mv : Word}

/-! ## Targets -/

/-- A voltage that a rail may be set to, in mV. -/
def InBand (mv : Word) : Prop := 500 ≤ mv.toNat ∧ mv.toNat ≤ 920

instance (mv : Word) : Decidable (InBand mv) := inferInstanceAs (Decidable (_ ∧ _))

theorem checkRange_eq (rail : Rail) (mv : Word) :
    checkRange rail mv = if InBand mv then .ok () else .error (.outOfRange rail mv) := by
  rw [checkRange]
  congr 1

theorem not_inBand_iff : ¬InBand mv ↔ mv = 0 ∨ mv.toNat < 500 ∨ 920 < mv.toNat := by
  rw [InBand]
  constructor
  · intro h
    omega
  · rintro (rfl | h)
    · decide
    · omega

/-- A rail is set if its target is in the band, and left alone otherwise. -/
theorem does_inBand {sets : Routine ν Unit} {rs : List (Request ν)} (h : sets.Does rs) (rail : Rail)
    (mv : Word) : (if mv = 0 then .done () else match checkRange rail mv with
      | .ok () => sets
      | .error e => note (.voltageDropped e) : Routine ν Unit).Does
        (if InBand mv then rs else []) := by
  rw [checkRange_eq]
  split
  · rename_i zero
    rw [if_neg (not_inBand_iff.mpr (.inl zero))]
    exact does_done ()
  · by_cases hband : InBand mv
    · rw [if_pos hband, if_pos hband]
      exact h
    · rw [if_neg hband, if_neg hband]
      exact does_note _

theorem brief_inBand {sets : Routine ν Unit} (h : sets.Brief) (rail : Rail) (mv : Word) :
    (if mv = 0 then .done () else match checkRange rail mv with
      | .ok () => sets
      | .error e => note (.voltageDropped e) : Routine ν Unit).Brief := by
  split
  · exact brief_done ()
  · split
    · exact h
    · exact brief_note _

/-! ## The parts -/

variable [Quantity ν]

/-- What is written for rail A: the position of the wiper, or nothing. -/
def railAPart (table : VoltageTable ν) (mv : Word) : List SupplyStep :=
  if InBand mv then wiperSteps (closestCode table (volts mv)) else []

variable (ν) in
/-- What is written for rail B: the corrections and the voltage, or nothing. -/
def railBPart (mv : Word) : List SupplyStep :=
  if InBand mv then loopFix ++ overVoltageFix ++ railBSteps (railBCode ν mv) else []

theorem part_eq_nil_iff {steps : List SupplyStep} (h : steps ≠ []) :
    (if InBand mv then steps else []) = [] ↔ ¬InBand mv := by
  rw [ite_eq_right_iff]
  exact forall_congr' fun _ ↦ iff_false_intro h

theorem railAPart_eq_nil_iff (table : VoltageTable ν) (mv : Word) :
    railAPart table mv = [] ↔ ¬InBand mv := part_eq_nil_iff nofun

theorem railBPart_eq_nil_iff (mv : Word) : railBPart ν mv = [] ↔ ¬InBand mv :=
  part_eq_nil_iff nofun

theorem does_setRailA (table : VoltageTable ν) (mv : Word) :
    (setRailA table mv).Does ((railAPart table mv).flatMap SupplyStep.requests) := by
  rw [railAPart, apply_ite (List.flatMap SupplyStep.requests)]
  refine does_inBand ?_ .a mv
  exact (does_note _).bind fun _ ↦ does_supplySteps _

theorem does_setRailB (mv : Word) :
    (setRailB mv : Routine ν Unit).Does ((railBPart ν mv).flatMap SupplyStep.requests) := by
  rw [railBPart, apply_ite (List.flatMap SupplyStep.requests), List.flatMap_append,
    List.flatMap_append, List.append_assoc]
  refine does_inBand ?_ .b mv
  refine (does_note _).bind fun _ ↦ (does_supplySteps _).bind fun _ ↦ ?_
  refine (does_supplySteps _).bind fun _ ↦ ?_
  exact (does_note _).bind fun _ ↦ does_supplySteps _

theorem does_setVoltage (table : VoltageTable ν) (railA railB : Word) :
    (setVoltage table railA railB).Does
      ((railAPart table railA ++ railBPart ν railB).flatMap SupplyStep.requests) := by
  rw [List.flatMap_append]
  exact (does_setRailA table railA).bind fun _ ↦ does_setRailB railB

theorem brief_setVoltage (table : VoltageTable ν) (railA railB : Word) :
    (setVoltage table railA railB).Brief := by
  refine (brief_inBand ?_ .a railA).bind fun _ ↦ brief_inBand ?_ .b railB
  · exact (brief_note _).bind fun _ ↦ brief_supplySteps _
  · refine (brief_note _).bind fun _ ↦ (brief_supplySteps _).bind fun _ ↦ ?_
    refine (brief_supplySteps _).bind fun _ ↦ ?_
    exact (brief_note _).bind fun _ ↦ brief_supplySteps _

/-! ### Waiting -/

/-- Each strobe of rail B has a second after it if there is another write, and nothing else has. -/
def Spaced : List SupplyStep → Prop
  | [] => True
  | s :: rest =>
    s.settle = (if s.addr = Reg.railBGo ∧ rest ≠ [] then 1_000_000 else 0) ∧ Spaced rest

instance decidableSpaced : (steps : List SupplyStep) → Decidable (Spaced steps)
  | [] => .isTrue trivial
  | _ :: rest => @instDecidableAnd _ _ _ (decidableSpaced rest)

theorem spaced_railAPart_append (table : VoltageTable ν) (mv : Word) {rest : List SupplyStep}
    (h : Spaced rest) : Spaced (railAPart table mv ++ rest) := by
  rw [railAPart]
  split
  · exact ⟨rfl, rfl, rfl, rfl, rfl, h⟩
  · exact h

theorem spaced_railBPart (mv : Word) : Spaced (railBPart ν mv) := by
  rw [railBPart]
  split
  -- the code is in the values alone
  · exact of_decide_eq_true rfl
  · trivial

theorem sum_settle_railAPart (table : VoltageTable ν) (mv : Word) :
    ((railAPart table mv).map SupplyStep.settle).sum = 0 := by
  rw [railAPart]
  split <;> rfl

theorem sum_settle_railBPart (mv : Word) :
    ((railBPart ν mv).map SupplyStep.settle).sum = if InBand mv then 3_000_000 else 0 := by
  have hloop : (loopFix.map SupplyStep.settle).sum = 1_000_000 := by decide
  have hover : (overVoltageFix.map SupplyStep.settle).sum = 2_000_000 := by decide
  have hvoltage (code : Word) : ((railBSteps code).map SupplyStep.settle).sum = 0 := rfl
  rw [railBPart]
  split
  · rw [List.map_append, List.map_append, List.sum_append, List.sum_append, hloop, hover, hvoltage]
  · rfl

/-! ## The position of the wiper -/

/-- The halving search stays within the table. -/
theorem landing_lt (table : VoltageTable ν) (v : ν) {n idx : ℕ} (hlo : 2 ^ n ≤ idx)
    (hhi : idx + 2 ^ n ≤ 256) : Sum.elim id id (landing table v n idx) < 256 := by
  induction n generalizing idx with
  | zero => exact hhi
  | succ n ih =>
    have hpow : 2 ^ (n + 1) = 2 ^ n + 2 ^ n := by rw [Nat.pow_succ, Nat.mul_two]
    have hpos : 0 < 2 ^ n := Nat.two_pow_pos n
    rw [hpow] at hlo hhi
    rw [landing, Nat.one_shiftLeft]
    split
    · exact ih (by omega) (by omega)
    · split
      · exact ih (by omega) (by omega)
      · change idx < 256
        omega

theorem nearest_mem (table : VoltageTable ν) (v : ν) (best : ℕ) (codes : List ℕ) :
    nearest table v best codes ∈ best :: codes := by
  induction codes generalizing best with
  | nil => exact List.mem_singleton_self best
  | cons c cs ih =>
    rw [nearest]
    rcases List.mem_cons.mp (ih (if Quantity.lt (Quantity.abs (voltage table c - v))
      (Quantity.abs (voltage table best - v)) then c else best)) with heq | hmem
    · rw [heq]
      split
      · exact .tail _ (.head _)
      · exact .head _
    · exact .tail _ (.tail _ hmem)

theorem closestCode_lt (table : VoltageTable ν) (v : ν) : closestCode table v < 256 := by
  have hlands : Sum.elim id id (landing table v 7 128) < 256 :=
    landing_lt table v (by decide) (by decide)
  rw [closestCode]
  split
  · decide
  · split
    · decide
    · generalize landing table v 7 128 = place at hlands
      rcases place with idx | idx
      · exact hlands
      · have hidx : idx < 256 := hlands
        have hmem := nearest_mem table v (idx - 1)
          (List.range' (idx - 1 + 1) (min (idx + 1) 255 - (idx - 1)))
        rw [List.mem_cons, List.mem_range'_1] at hmem
        change nearest table v (idx - 1) _ < 256
        omega

theorem wiperSteps_eq {code : ℕ} (hlt : code < 256) : ∃ data : Word,
    data.toNat = code ∧ wiperSteps code = [{ value := 0xa, addr := Reg.railACtrl }] ++
      [0x158, 0x00, 0x200 ||| data].map (fun value ↦ { value, addr := Reg.railAFifo }) ++
      [{ value := 0x1, addr := Reg.railAGo }] :=
  ⟨UInt32.ofNat code, UInt32.toNat_ofNat_of_lt' (hlt.trans (by decide)), rfl⟩

/-! ## The code of rail B -/

theorem toNat_railBCode_float (h : InBand mv) :
    (railBCode Float mv).toNat = (64 * mv.toNat + 125) / 250 := by
  obtain ⟨hlow, hhigh⟩ := h
  obtain ⟨q, hvolts, hle, hge⟩ :=
    exists_stands_div (a := mv.toNat) (b := 1000) (by omega) (by omega) (by decide)
  have hscale : Stands (Quantity.ofNat 256) (2 ^ 52) (-44) :=
    stands_of_pack full_two_pow (by decide) (by decide) (by decide +kernel)
  have hunits : Stands ((volts mv : Float) * Quantity.ofNat 256) q (-(45 : ℕ)) :=
    hvolts.mul hscale (by decide) (by decide)
  have hcount := hunits.toNat_count_round (by decide) (by decide)
  -- 64 times the target is even, and halfway between two codes it would be odd
  have hcode : (q + 2 ^ (45 - 1)) / 2 ^ 45 = (64 * mv.toNat + 125) / 250 := by omega
  rw [hcode] at hcount
  rw [railBCode, Quantity.toNat_word (by omega), hcount]

example : railBCode Float 850 = 218 := by decide +kernel

theorem round_eq_div (n : ℕ) : round ((n : ℚ) * 256 / 1000) = ((64 * n + 125) / 250 : ℕ) := by
  have hsum : (n : ℚ) * 256 / 1000 + 1 / 2 = ((64 * n + 125 : ℕ) : ℚ) / (250 : ℕ) := by
    push_cast
    ring
  rw [round_eq, hsum, Rat.floor_natCast_div_natCast]
  rfl

theorem toNat_railBCode_rat (h : InBand mv) :
    (railBCode ℚ mv).toNat = (64 * mv.toNat + 125) / 250 := by
  have hlt : (64 * mv.toNat + 125) / 250 < 256 := by
    have hhigh := h.2
    omega
  have hvolts : (volts mv : ℚ) * Quantity.ofNat 256 = (mv.toNat : ℚ) * 256 / 1000 :=
    div_mul_eq_mul_div ..
  have hround : Quantity.round ((volts mv : ℚ) * Quantity.ofNat 256) =
      (((64 * mv.toNat + 125) / 250 : ℕ) : ℚ) := by
    rw [hvolts, quantityRound_eq (by positivity), round_eq_div, Int.cast_natCast]
  have hcount := toNat_count_natCast (hlt.trans (by decide))
  rw [← hround] at hcount
  rw [railBCode, Quantity.toNat_word (hcount ▸ hlt.trans (by decide)), hcount]

/-- A code is written as two bytes, the lower one first. -/
theorem railBSteps_eq (code : Word) : ∃ low high : Word, low.toNat < 256 ∧
    low.toNat + 256 * high.toNat = code.toNat ∧
    railBSteps code = [{ value := 0xa, addr := Reg.railBCtrl }] ++
      [0x19a, 0xd0, 0x04, 0x42, 0x06, low, 0x200 ||| high].map
        (fun value ↦ { value, addr := Reg.railBFifo }) ++
      [{ value := 0x1, addr := Reg.railBGo }] := by
  have hlow : (code &&& 0xff).toNat = code.toNat % 256 := by
    rw [UInt32.toNat_and]
    exact Nat.and_two_pow_sub_one_eq_mod code.toNat 8
  have hhigh : (code >>> 8).toNat = code.toNat / 256 := by
    rw [UInt32.toNat_shiftRight, Nat.shiftRight_eq_div_pow]
    rfl
  refine ⟨code &&& 0xff, code >>> 8, ?_, ?_, rfl⟩
  · rw [hlow]
    exact Nat.mod_lt _ (by decide)
  · rw [hlow, hhigh]
    exact Nat.mod_add_div _ _

/-! ## Both rails -/

/-- Requests for voltages are dropped or issued whole, rail by rail. -/
structure SetsRails (table : VoltageTable ν) (railA railB : Word) : Prop where
  /-- Whoever answers, setting the rails comes to an end. -/
  ends : ∀ reply : Answering ν,
    ∃ talk, Run (setVoltage table railA railB) talk () ∧ reply.Gives [] talk
  /-- Whatever is answered, what is done is the part of rail A and then that of rail B. -/
  whole : (setVoltage table railA railB).Does
    ((railAPart table railA ++ railBPart ν railB).flatMap SupplyStep.requests)
  /-- A part is empty if its target is zero or outside the band, and not otherwise. -/
  dropped : (railAPart table railA = [] ↔ railA = 0 ∨ railA.toNat < 500 ∨ 920 < railA.toNat) ∧
    (railBPart ν railB = [] ↔ railB = 0 ∨ railB.toNat < 500 ∨ 920 < railB.toNat)
  /-- The part of rail A writes the position whose voltage is closest. -/
  wiper : railAPart table railA ≠ [] → ∃ data : Word,
    data.toNat = closestCode table (volts railA) ∧ data.toNat < 256 ∧
    railAPart table railA = [{ value := 0xa, addr := Reg.railACtrl }] ++
      [0x158, 0x00, 0x200 ||| data].map (fun value ↦ { value, addr := Reg.railAFifo }) ++
      [{ value := 0x1, addr := Reg.railAGo }]
  /-- The part of rail B makes the corrections and then writes the two bytes of a code. -/
  voltage : railBPart ν railB ≠ [] → ∃ low high : Word,
    low.toNat < 256 ∧ low.toNat + 256 * high.toNat = (railBCode ν railB).toNat ∧
    railBPart ν railB = loopFix ++ overVoltageFix ++ ([{ value := 0xa, addr := Reg.railBCtrl }] ++
      [0x19a, 0xd0, 0x04, 0x42, 0x06, low, 0x200 ||| high].map
        (fun value ↦ { value, addr := Reg.railBFifo }) ++
      [{ value := 0x1, addr := Reg.railBGo }])
  /-- In doubles as in exact numbers, the code is the target in units of 1/256 V to the nearest,
  and fits one byte. -/
  code : railBPart ν railB ≠ [] →
    ((railBCode Float railB).toNat : ℤ) = round ((railB.toNat : ℚ) * 256 / 1000) ∧
    railBCode ℚ railB = railBCode Float railB ∧ (railBCode Float railB).toNat < 256
  /-- Three seconds pass in all if there is a part of rail B, and none otherwise: -/
  waits : ∀ talk, Run (setVoltage table railA railB) talk () →
    ((doings talk).map Request.span).sum = if railBPart ν railB = [] then 0 else 3_000_000
  /-- a second after each strobe that another write follows. -/
  spaced : Spaced (railAPart table railA ++ railBPart ν railB)

/-- **Setting the rails.** -/
theorem sets_rails (table : VoltageTable ν) (railA railB : Word) :
    SetsRails table railA railB := by
  have whole := does_setVoltage table railA railB
  have inBandA : railAPart table railA ≠ [] → InBand railA :=
    fun issued ↦ not_not.mp (mt (railAPart_eq_nil_iff table railA).mpr issued)
  have inBandB : railBPart ν railB ≠ [] → InBand railB :=
    fun issued ↦ not_not.mp (mt (railBPart_eq_nil_iff railB).mpr issued)
  refine ⟨fun reply ↦ ?_, whole, ⟨?_, ?_⟩, ?_, ?_, ?_, ?_, ?_⟩
  · obtain ⟨talk, ⟨⟩, run, gives⟩ := (brief_setVoltage table railA railB).exists_run reply []
    exact ⟨talk, run, gives⟩
  · exact (railAPart_eq_nil_iff table railA).trans not_inBand_iff
  · exact (railBPart_eq_nil_iff railB).trans not_inBand_iff
  · intro issued
    have hlt := closestCode_lt table (volts railA)
    obtain ⟨data, hdata, hsteps⟩ := wiperSteps_eq hlt
    refine ⟨data, hdata, hdata.trans_lt hlt, ?_⟩
    rw [railAPart, if_pos (inBandA issued), hsteps]
  · intro issued
    obtain ⟨low, high, hlow, hcode, hsteps⟩ := railBSteps_eq (railBCode ν railB)
    refine ⟨low, high, hlow, hcode, ?_⟩
    rw [railBPart, if_pos (inBandB issued), hsteps]
  · intro issued
    have hfloat := toNat_railBCode_float (inBandB issued)
    have hrat := toNat_railBCode_rat (inBandB issued)
    have hhigh := (inBandB issued).2
    refine ⟨?_, UInt32.toNat_inj.mp (hrat.trans hfloat.symm), by omega⟩
    rw [hfloat, round_eq_div]
  · intro talk run
    rw [whole talk () run, sum_span_flatMap, List.map_append, List.sum_append,
      sum_settle_railAPart, sum_settle_railBPart, Nat.zero_add]
    simp only [railBPart_eq_nil_iff, ite_not]
  · exact spaced_railAPart_append table railA (spaced_railBPart railB)

end Supply

end HashBoard
