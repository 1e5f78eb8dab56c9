import HashBoard.Proofs.Clock.Effect
import HashBoard.Proofs.Search.Stop

/-!
# What a telemetry sample does about a fault

A telemetry sample reads the health word of the memory stacks after the temperature, the clock and
the supply, whichever of those can be read. What it accesses after the health word is decided by
that word alone: nothing, unless a stack tripped or lost its calibration, and then the core is
stopped and the generator powered down.
-/

namespace HashBoard

variable {ν : Type}

/-- A health word tells of a fault if either stack tripped, which are bits 2 and 10, or is not
calibrated, which are bits 0 and 1. One that could not be read tells of none. -/
def IsFaulty : Except LinkFault Word → Prop
  | .ok raw => raw.toNat.testBit 2 ∨ raw.toNat.testBit 10 ∨ ¬raw.toNat.testBit 0 ∨
      ¬raw.toNat.testBit 1
  | .error _ => False

/-- The flags that keep a board from working: halted, busy, and new work. -/
def Memory.flags (m : Memory ν) : Bool × Bool × Bool := (m.halted, m.busy, m.newWork)

/-- What is read before the health word. -/
def Reg.surveyed : List Word := [Reg.temperature, Reg.pllVco, Reg.pllClk0, Reg.supply]

/-! ## The health word -/

namespace StackHealth

theorem bit_eq_testBit (raw : Word) {n : Word} (h : n.toNat < 32) :
    bit raw n = raw.toNat.testBit n.toNat := by
  have hbit : ((raw >>> n) &&& 1).toNat = raw.toNat / 2 ^ n.toNat % 2 := by
    rw [UInt32.toNat_and, UInt32.toNat_shiftRight, Nat.mod_eq_of_lt h, Nat.shiftRight_eq_div_pow]
    exact Nat.and_one_is_mod _
  have hzero : (0 : Word).toNat = 0 := rfl
  rw [Bool.eq_iff_iff, bit, bne_iff_ne, ne_eq, ← UInt32.toNat_inj, hbit, hzero,
    Nat.testBit_eq_decide_div_mod_eq, decide_eq_true_iff]
  exact Nat.mod_two_ne_zero

/-- What halts the board is a fault that the word tells of. The substitute for a word that cannot be
read does not. -/
theorem requiresHalt_iff (health : Except LinkFault Word) :
    (ofWord (health.toOption.getD Reg.stackHealthSafe)).requiresHalt ↔ IsFaulty health := by
  cases health with
  | error fault =>
    have safe : (ofWord Reg.stackHealthSafe).requiresHalt = false := by decide
    exact iff_of_false (ne_true_of_eq_false safe) id
  | ok raw =>
    rw [Except.toOption, Option.getD_some, requiresHalt, tripped, ofWord,
      bit_eq_testBit raw (by decide), bit_eq_testBit raw (by decide),
      bit_eq_testBit raw (by decide), bit_eq_testBit raw (by decide)]
    simp [IsFaulty, or_assoc]

end StackHealth

namespace Survey

open Routine Board

variable {s t u : List (Answered ν)}

/-! ## What is accessed -/

/-- From one transcript to the next some of the surveyed registers are read, and nothing else is
accessed. -/
def Looks (s t : List (Answered ν)) : Prop :=
  ∃ looks : List (Answered ν), accesses t = accesses s ++ looks ∧
    ∀ said ∈ looks, ∃ addr ∈ Reg.surveyed, said.request = .call (.read addr)

theorem looks_of_nil (h : Accesses s t []) : Looks s t :=
  ⟨[], by rw [accesses_eq_of_nil h, List.append_nil], List.forall_mem_nil _⟩

theorem looks_snoc {addr : Word} {x : Except LinkFault Word}
    (h : accesses t = accesses s ++ [⟨.call (.read addr), x⟩]) (haddr : addr ∈ Reg.surveyed) :
    Looks s t := ⟨_, h, List.forall_mem_singleton.mpr ⟨addr, haddr, rfl⟩⟩

theorem Looks.trans (h : Looks s t) (h' : Looks t u) : Looks s u := by
  obtain ⟨looks, hlooks, hreads⟩ := h
  obtain ⟨looks', hlooks', hreads'⟩ := h'
  refine ⟨looks ++ looks', ?_, List.forall_mem_append.mpr ⟨hreads, hreads'⟩⟩
  rw [hlooks', hlooks, List.append_assoc]

section Sample

variable [Quantity ν]

theorem looks_reading {addr : Word} {ofWord : Word → ν} {unread : LinkFault → Event ν}
    (haddr : addr ∈ Reg.surveyed) (s : List (Answered ν)) :
    (reading addr ofWord unread).Ensures (transcript ν) (fun _ t ↦ Looks s t) s := by
  refine (accesses_read addr s).seq ?_
  rintro (fault | raw) t ht
  · refine (accesses_note _ t).seq fun _ u hu ↦ ?_
    exact (looks_snoc ht haddr).trans (looks_of_nil hu)
  · exact looks_snoc ht haddr

theorem looks_readPll (s : List (Answered ν)) :
    (readPll : Routine ν _).Ensures (transcript ν) (fun _ t ↦ Looks s t) s := by
  have mentions {event : Event ν} {t : List (Answered ν)} (ht : Looks s t) :
      (do note event; pure none : Routine ν (Option (PllReading ν))).Ensures (transcript ν)
        (fun _ t ↦ Looks s t) t :=
    (accesses_note event t).seq fun _ _ hu ↦ ht.trans (looks_of_nil hu)
  refine (accesses_read Reg.pllVco s).seq ?_
  rintro (fault | vco) t ht
  · exact mentions (looks_snoc ht (by decide))
  · refine (accesses_read Reg.pllClk0 t).seq ?_
    rintro (fault | clk) u hu
    · exact mentions ((looks_snoc ht (by decide)).trans (looks_snoc hu (by decide)))
    · have hboth : Looks s u :=
        (looks_snoc ht (by decide)).trans (looks_snoc hu (by decide))
      dsimp only
      cases Pll.decode (ν := ν) vco clk with
      | none => exact mentions hboth
      | some pll => exact hboth

theorem looks_setClock_read (s : List (Answered ν)) :
    (setClock .read : Routine ν _).Ensures (transcript ν) (fun _ t ↦ Looks s t) s := by
  refine (looks_readPll s).seq ?_
  rintro (- | pll) t ht
  · exact (accesses_note _ t).seq fun _ u hu ↦ ht.trans (looks_of_nil hu)
  · exact (accesses_request rfl t).seq fun _ u hu ↦ ht.trans (looks_of_nil hu)

/-- A sample looks at the health word last. -/
theorem accesses_sample (s : List (Answered ν)) :
    (sample : Routine ν _).Ensures (transcript ν)
      (fun x t ↦ ∃ looks, ∃ health : Except LinkFault Word,
        accesses t = accesses s ++ looks ++ [⟨.call (.read Reg.stackHealth), health⟩] ∧
          (∀ said ∈ looks, ∃ addr ∈ Reg.surveyed, said.request = .call (.read addr)) ∧
          x.health = StackHealth.ofWord (health.toOption.getD Reg.stackHealthSafe)) s := by
  refine (looks_reading (by decide) s).seq fun temperature t ht ↦ ?_
  refine (looks_setClock_read t).seq fun clock u hu ↦ ?_
  refine (looks_reading (by decide) u).seq fun supply v hv ↦ ?_
  obtain ⟨looks, hlooks, hreads⟩ := (ht.trans hu).trans hv
  refine Ensures.seq (R := fun word w ↦ ∃ health : Except LinkFault Word,
    accesses w = accesses v ++ [⟨.call (.read Reg.stackHealth), health⟩] ∧
      word = health.toOption.getD Reg.stackHealthSafe) ?_ ?_
  · refine (accesses_read Reg.stackHealth v).seq ?_
    rintro (fault | raw) w hw
    · exact (accesses_note _ w).seq fun _ x hx ↦ ⟨_, (accesses_eq_of_nil hx).trans hw, rfl⟩
    · exact ⟨_, hw, rfl⟩
  · rintro _ w ⟨health, hw, rfl⟩
    exact ⟨looks, health, by rw [hw, hlooks], hreads, rfl⟩

omit [Quantity ν] in
theorem accesses_noteAverages (b : Board) (x : Telemetry ν) (s : List (Answered ν)) :
    (b.noteAverages x).Ensures (transcript ν) (fun _ t ↦ Accesses s t []) s := by
  refine (accesses_request rfl s).seq fun m t ht ↦ ?_
  refine (accesses_request rfl t).seq fun stage u hu ↦ ?_
  exact (accesses_note _ u).mono fun _ v hv ↦ (ht.trans hu).trans hv

end Sample

/-- A halt stops the core and powers the generator down. -/
theorem accesses_emergencyHalt (health : StackHealth) (s : List (Answered ν)) :
    (emergencyHalt health).Ensures (transcript ν) (fun _ t ↦ ∃ flags, ∃ writes : List (Answered ν),
      accesses t = accesses s ++ ⟨.call (.read Reg.coreFlags), flags⟩ :: writes ∧
        writes.map Answered.request =
          switchOff flags ++ [.call (.write Reg.dagPowerOff Reg.dagPower)]) s := by
  refine (Stop.ensures_stopCore s).seq ?_
  rintro - t ⟨flags, walk, ht, hwalk⟩
  refine (accesses_tryWrite _ _ _ t).seq fun _ u hu ↦ ?_
  refine (accesses_note _ u).seq fun _ v hv ↦ ?_
  refine (accesses_request rfl v).seq fun _ w hw ↦ ?_
  refine (accesses_request rfl w).seq fun _ x hx ↦ ?_
  refine (accesses_request rfl x).mono fun _ y hy ↦ ?_
  obtain ⟨last, hlast, hpower⟩ := (((hu.trans hv).trans hw).trans hx).trans hy
  refine ⟨flags, walk ++ last, ?_, ?_⟩
  · rw [hlast, ht, List.append_assoc, List.cons_append]
  · rw [List.map_append, hwalk, hpower]
    rfl

/-! ## What is remembered -/

/-- A request that leaves the flags alone. -/
def KeepsFlags (r : Request ν) : Prop := ∀ m, (remembered m r).flags = m.flags

theorem keepsFlags_of_isQuiet {r : Request ν} (h : r.isQuiet) : KeepsFlags r :=
  fun m ↦ congrArg Memory.flags (remembered_of_isQuiet h m)

theorem keepsFlags_books {f : Memory ν → Memory ν} (h : Bookkeeping f) :
    KeepsFlags (.revise f) := fun m ↦
  Prod.ext (h m).halted (Prod.ext (h m).busy (h m).newWork)

theorem flags_of_only {α : Type} {p : Routine ν α} {talk : List (Answered ν)} {a : α}
    (run : Run p talk a) (h : p.Only KeepsFlags) (m : Memory ν) :
    (recollection m talk).flags = m.flags := part_recollection Memory.flags (h.of_run run) m

theorem flags_emergencyHalt {health : StackHealth} {talk : List (Answered ν)} {u : Unit}
    (run : Run (emergencyHalt health) talk u) (m : Memory ν) :
    (recollection m talk).flags = (true, true, true) := by
  obtain ⟨t₁, _, _, rfl, h₁, run⟩ := run_bind_iff.mp run
  obtain ⟨t₂, _, _, rfl, h₂, run⟩ := run_bind_iff.mp run
  obtain ⟨t₃, _, _, rfl, h₃, run⟩ := run_bind_iff.mp run
  obtain ⟨t₄, _, t₅, rfl, h₄, h₅⟩ := run_bind_iff.mp run
  have hlast : (do call .kick; request .wake : Routine ν _).Only KeepsFlags :=
    (only_request (r := .call .kick) (keepsFlags_of_isQuiet rfl)).bind fun _ ↦
      only_request (r := .wake) (keepsFlags_of_isQuiet rfl)
  obtain ⟨_, _, rfl, hdone⟩ := run_ask_iff.mp h₄
  obtain ⟨rfl, -⟩ := run_done_iff.mp hdone
  rw [recollection_append, recollection_append, recollection_append, recollection_append]
  exact flags_of_only h₅ hlast _

theorem only_noteAverages (b : Board) (x : Telemetry ν) :
    (b.noteAverages x).Only (KeepsFlags (ν := ν)) := by
  refine (only_request (r := .memory) (keepsFlags_of_isQuiet rfl)).bind fun m ↦ ?_
  refine (only_request (r := .tuningStage) (keepsFlags_of_isQuiet rfl)).bind fun stage ↦ ?_
  exact only_request fun _ ↦ rfl

/-- Showing a sample to onlookers is the last thing that is done with it. -/
theorem showing_of_run {x y : Telemetry ν} {talk : List (Answered ν)}
    (run : Run (do
      reviseStatus fun s : Status ν ↦ { s with telemetry := some x, clock := x.clock }
      pure x) talk y) :
    accesses talk = [] ∧ ∀ m : Memory ν, (recollection m talk).flags = m.flags := by
  obtain ⟨_, _, rfl, hdone⟩ := run_ask_iff.mp run
  obtain ⟨rfl, -⟩ := run_done_iff.mp hdone
  exact ⟨rfl, fun _ ↦ rfl⟩

end Survey

open Survey Routine in
/-- **What a telemetry sample does about a fault.** Whoever answers, a telemetry sample comes to its
end. Before the health word it only reads other registers. If the word tells of a fault, the core is
walked down from its flags and switched off, the generator is powered down, and the board is halted,
busy, and does not go on with its work; otherwise nothing else is accessed, and the flags are what
they were. -/
theorem halts_iff_faulty [Quantity ν] (b : Board) :
    (∀ reply : Answering ν, ∃ talk t, Run b.checkTelemetry talk t ∧ reply.Gives [] talk) ∧
    ∀ talk t (m : Memory ν), Run b.checkTelemetry talk t →
      ∃ (looks : List (Answered ν)) (health : Except LinkFault Word) (reaction : List (Answered ν)),
        accesses talk = looks ++ ⟨.call (.read Reg.stackHealth), health⟩ :: reaction ∧
          (∀ said ∈ looks, ∃ addr ∈ Reg.surveyed, said.request = .call (.read addr)) ∧
          (IsFaulty health →
            (∃ flags writes, reaction = ⟨.call (.read Reg.coreFlags), flags⟩ :: writes ∧
              writes.map Answered.request =
                switchOff flags ++ [.call (.write Reg.dagPowerOff Reg.dagPower)]) ∧
            (recollection m talk).flags = (true, true, true)) ∧
          (¬IsFaulty health → reaction = [] ∧ (recollection m talk).flags = m.flags) := by
  refine ⟨fun reply ↦ (Board.brief_checkTelemetry b).exists_run reply [], fun talk t m run ↦ ?_⟩
  have quiet : ∀ r : Request ν, r.isQuiet → KeepsFlags r := fun _ ↦ keepsFlags_of_isQuiet
  have books : ∀ f : Memory ν → Memory ν, Bookkeeping f → KeepsFlags (.revise f) :=
    fun _ ↦ keepsFlags_books
  obtain ⟨sampling, x, _, rfl, hsample, hnext⟩ := run_bind_iff.mp run
  obtain ⟨noting, _, rest, rfl, hnote, hrest⟩ := run_bind_iff.mp hnext
  obtain ⟨looks, health, hlooks, hreads, hhealth⟩ := (accesses_sample []).of_run hsample
  have hsampled := flags_of_only hsample (Board.only_sample quiet books)
  have hlooked : accesses sampling = looks ++ [⟨.call (.read Reg.stackHealth), health⟩] := hlooks
  have hquiet : accesses noting = [] :=
    accesses_eq_of_nil ((accesses_noteAverages b x []).of_run hnote)
  have hnoted := flags_of_only hnote (only_noteAverages b x)
  have halts : x.health.requiresHalt ↔ IsFaulty health :=
    hhealth ▸ StackHealth.requiresHalt_iff health
  -- what is accessed after the health word, and what becomes of the flags, is up to that word
  by_cases hfault : IsFaulty health
  · rw [if_pos (halts.mpr hfault)] at hrest
    obtain ⟨halting, _, last, rfl, hhalt, hlast⟩ := run_bind_iff.mp hrest
    obtain ⟨flags, writes, hwrites, hmap⟩ := (accesses_emergencyHalt x.health []).of_run hhalt
    obtain ⟨hshown, hkept⟩ := showing_of_run hlast
    refine ⟨looks, health, ⟨.call (.read Reg.coreFlags), flags⟩ :: writes, ?_, hreads,
      fun _ ↦ ⟨⟨flags, writes, rfl, hmap⟩, ?_⟩, fun hsound ↦ absurd hfault hsound⟩
    · have hhalted : accesses halting = ⟨.call (.read Reg.coreFlags), flags⟩ :: writes := hwrites
      rw [accesses_append, accesses_append, accesses_append, hlooked, hquiet, hhalted, hshown,
        List.append_nil, List.nil_append, ← List.append_cons]
    · rw [recollection_append, recollection_append, recollection_append, hkept]
      exact flags_emergencyHalt hhalt _
  · rw [if_neg (halts.not.mpr hfault)] at hrest
    obtain ⟨hshown, hkept⟩ := showing_of_run hrest
    refine ⟨looks, health, [], ?_, hreads, fun hfaulty ↦ absurd hfaulty hfault, fun _ ↦ ⟨rfl, ?_⟩⟩
    · rw [accesses_append, accesses_append, hlooked, hquiet, hshown, List.append_nil,
        List.append_nil]
    · rw [recollection_append, recollection_append, hkept, hnoted, hsampled]

end HashBoard
