import HashBoard.Proofs.Board.Brief
import HashBoard.Proofs.Clock.Saving
import HashBoard.Proofs.Routine.Reads
import HashBoard.Proofs.Scene.Memory

/-!
# What a clock change amounts to

A run of a clock change falls into parts, and each part writes to some registers and makes some
change to what is remembered. What the parts amount to adds up. Which parts there are depends on
what was read of the clock generator at first.
-/

namespace HashBoard

variable {ν : Type}

/-- What is remembered once some things were said, if nobody else changes it. -/
def recollection (m : Memory ν) (talk : List (Answered ν)) : Memory ν :=
  talk.foldl (fun m said ↦ remembered m said.request) m

theorem recollection_append (m : Memory ν) (talk talk' : List (Answered ν)) :
    recollection m (talk ++ talk') = recollection (recollection m talk) talk' := List.foldl_append

/-- A part of what is remembered that nothing said changes. -/
theorem part_recollection {β : Type} (part : Memory ν → β) {talk : List (Answered ν)}
    (kept : ∀ said ∈ talk, ∀ m, part (remembered m said.request) = part m) (m : Memory ν) :
    part (recollection m talk) = part m := by
  induction talk generalizing m with
  | nil => rfl
  | cons said talk ih =>
    obtain ⟨hsaid, htalk⟩ := List.forall_mem_cons.mp kept
    rw [recollection, List.foldl_cons]
    exact (ih htalk _).trans (hsaid m)

/-- A request that writes nothing to the board but some registers, one at a time. -/
def Request.WritesOnly (addrs : List Word) : Request ν → Prop
  | .call (.write _ addr) => addr ∈ addrs
  | .call (.writeBulk ..) | .call (.upload ..) | .call (.move ..) => False
  | _ => True

/-- The settings of the clock generator, as the first reads of its two words tell them. -/
def readingIn [Quantity ν] (talk : List (Answered ν)) : Option (PllReading ν) :=
  match talk.findSome? (Answered.told? Reg.pllVco), talk.findSome? (Answered.told? Reg.pllClk0) with
  | some (.ok vco), some (.ok clk) => Pll.decode vco clk
  | _, _ => none

namespace Clocking

open Routine Board

variable {α β : Type} {p : Routine ν α} {a : α} {addrs addrs' : List Word}
  {f g : Memory ν → Memory ν} {talk talk' : List (Answered ν)} {r : Request ν}

/-! ## What some talk amounts to -/

/-- What was said writes only to some registers, and makes a change to what is remembered. -/
structure AmountsTo (addrs : List Word) (f : Memory ν → Memory ν) (talk : List (Answered ν)) :
    Prop where
  writes : ∀ said ∈ talk, said.request.WritesOnly addrs
  recollects : ∀ m, recollection m talk = f m

/-- A request that writes only to some registers, and changes nothing that is remembered. -/
def Mild (addrs : List Word) (r : Request ν) : Prop :=
  r.WritesOnly addrs ∧ ∀ m, remembered m r = m

theorem writesOnly_mono (h : r.WritesOnly addrs) (hsub : addrs ⊆ addrs') :
    r.WritesOnly addrs' := by
  cases r with
  | call c =>
    cases c with
    | write value addr => exact hsub h
    | _ => exact h
  | _ => trivial

theorem not_writes_of_writesOnly {addr : Word} (h : r.WritesOnly addrs) (haddr : addr ∉ addrs) :
    ¬r.Writes addr := by
  cases r with
  | call c =>
    cases c with
    | write value a =>
      rintro rfl
      exact haddr h
    | writeBulk => exact h.elim
    | _ => exact id
  | _ => exact id

theorem AmountsTo.append (h : AmountsTo addrs f talk) (h' : AmountsTo addrs g talk') :
    AmountsTo addrs (g ∘ f) (talk ++ talk') := by
  refine ⟨List.forall_mem_append.mpr ⟨h.writes, h'.writes⟩, fun m ↦ ?_⟩
  rw [recollection_append]
  exact (h'.recollects _).trans (congrArg g (h.recollects m))

theorem AmountsTo.mono (h : AmountsTo addrs f talk) (hsub : addrs ⊆ addrs') :
    AmountsTo addrs' f talk := ⟨fun said hs ↦ writesOnly_mono (h.writes said hs) hsub, h.recollects⟩

theorem mild_of_isQuiet (h : r.isQuiet) : Mild addrs r := by
  refine ⟨?_, remembered_of_isQuiet h⟩
  cases r with
  | call c =>
    cases c with
    | write | writeBulk | upload | move => cases h
    | _ => trivial
  | _ => trivial

theorem mild_note (event : Event ν) : Mild addrs (.note event) := ⟨trivial, fun _ ↦ rfl⟩

theorem mild_write {addr : Word} (h : addr ∈ addrs) (value : Word) :
    Mild addrs (.call (.write value addr) : Request ν) := ⟨h, fun _ ↦ rfl⟩

theorem amountsTo_of_mild (h : ∀ said ∈ talk, Mild addrs said.request) :
    AmountsTo addrs id talk :=
  ⟨fun said hs ↦ (h said hs).1, part_recollection id fun said hs ↦ (h said hs).2⟩

theorem amountsTo_of_only (run : Run p talk a) (h : p.Only (Mild addrs)) :
    AmountsTo addrs id talk := amountsTo_of_mild (h.of_run run)

theorem amountsTo_revise {u : Unit} (run : Run (revise f) talk u) : AmountsTo addrs f talk := by
  obtain ⟨x, rest, rfl, hrest⟩ := run_ask_iff.mp run
  obtain ⟨rfl, -⟩ := run_done_iff.mp hrest
  exact ⟨List.forall_mem_singleton.mpr trivial, fun _ ↦ rfl⟩

theorem amountsTo_note {event : Event ν} {u : Unit} (run : Run (note event) talk u) :
    AmountsTo addrs id talk := amountsTo_of_only run (only_request (mild_note event))

theorem amountsTo_tryWrite {addr value : Word} {what : String} {u : Unit}
    (run : Run (tryWrite value addr what) talk u) (h : addr ∈ addrs) : AmountsTo addrs id talk :=
  amountsTo_of_only run (only_tryWrite (fun _ ↦ mild_of_isQuiet) (mild_write h value))

/-! ## Readings of the clock generator -/

section Readings

variable [Quantity ν]

/-- A request that reads neither word of the clock generator. -/
def Averted (r : Request ν) : Prop :=
  r ≠ .call (.read Reg.pllVco) ∧ r ≠ .call (.read Reg.pllClk0)

/-- What does not read the words tells nothing of them. -/
theorem readingIn_append (h : ∀ said ∈ talk, Averted said.request) (more : List (Answered ν)) :
    readingIn (talk ++ more) = readingIn more := by
  rw [readingIn, findSome?_told?_append fun said hs ↦ (h said hs).1,
    findSome?_told?_append fun said hs ↦ (h said hs).2, readingIn]

/-- A reading of the clock generator is told by what is said first about its words. -/
theorem readingIn_of_run {pll : Option (PllReading ν)} (run : Run readPll talk pll)
    (more : List (Answered ν)) : readingIn (talk ++ more) = pll := by
  obtain ⟨first, x, rest, rfl, hfirst, run⟩ := run_bind_iff.mp run
  have hvco := told?_of_run_read hfirst (rest ++ more)
  rw [List.append_assoc, readingIn, hvco]
  cases x with
  | error fault =>
    obtain ⟨-, -, last, -, -, run⟩ := run_bind_iff.mp run
    exact (run_done_iff.mp run).2
  | ok vco =>
    obtain ⟨second, y, last, rfl, hsecond, run⟩ := run_bind_iff.mp run
    rw [told?_of_run_read_ne hfirst (by decide), List.append_assoc, told?_of_run_read hsecond]
    cases y with
    | error fault =>
      obtain ⟨-, -, last, -, -, run⟩ := run_bind_iff.mp run
      exact (run_done_iff.mp run).2
    | ok clk =>
      dsimp only at run ⊢
      cases hdecode : Pll.decode (ν := ν) vco clk with
      | none =>
        rw [hdecode] at run
        obtain ⟨-, -, last, -, -, run⟩ := run_bind_iff.mp run
        exact (run_done_iff.mp run).2
      | some reading =>
        rw [hdecode] at run
        exact (run_done_iff.mp run).2

end Readings

/-! ## The parts of a clock change -/

section Parts

variable [Quantity ν]

omit [Quantity ν] in
theorem averted_note (event : Event ν) : Averted (.note event) := ⟨nofun, nofun⟩

omit [Quantity ν] in
theorem averted_awaitLock (n : Nat) : (awaitLock n : Routine ν _).Only Averted := by
  induction n with
  | zero => trivial
  | succ n ih =>
    have hread : (Routine.read Reg.pllStatus : Routine ν _).Only Averted := by
      refine ⟨⟨nofun, nofun⟩, fun x ↦ ?_⟩
      cases x with
      | ok status => exact (only_request (averted_note _)).bind fun _ ↦ trivial
      | error fault => trivial
    refine hread.bind fun x ↦ ?_
    cases x with
    | error fault => exact ih
    | ok status =>
      dsimp only
      split
      · exact ih
      · trivial

omit [Quantity ν] in
theorem averted_settleClock : (settleClock : Routine ν _).Only Averted := by
  refine (averted_awaitLock lockPolls).bind fun locked ↦ ?_
  cases locked with
  | false => exact only_request (averted_note _)
  | true => trivial

omit [Quantity ν] in
theorem amountsTo_settleClock {u : Unit} (run : Run settleClock talk u) :
    AmountsTo addrs id talk :=
  amountsTo_of_only run (only_settleClock fun _ ↦ mild_of_isQuiet)

omit [Quantity ν] in
/-- The reset of the clock generator ends with a strobe. -/
theorem exists_of_run_resetClock {u : Unit} (run : Run (resetClock : Routine ν _) talk u) :
    ∃ earlier strobe later, talk = earlier ++ strobe :: later ∧
      strobe.request = .call (.write Reg.clockResetValue Reg.clockReset) ∧
      AmountsTo [Reg.pllReconfig] id earlier ∧
      ∀ said ∈ later, ∃ event, said.request = .note event := by
  obtain ⟨t₁, _, _, rfl, h₁, run⟩ := run_bind_iff.mp run
  obtain ⟨t₂, _, _, rfl, h₂, run⟩ := run_bind_iff.mp run
  obtain ⟨t₃, _, _, rfl, h₃, run⟩ := run_bind_iff.mp run
  obtain ⟨t₄, _, _, rfl, h₄, run⟩ := run_bind_iff.mp run
  obtain ⟨mention, x, later, rfl, ⟨event, hmention⟩, hlater⟩ := exists_of_run_tryWrite run
  refine ⟨t₁ ++ (t₂ ++ (t₃ ++ (t₄ ++ [mention]))), ⟨_, x⟩, later, by simp, rfl, ?_, hlater⟩
  have hsleep : AmountsTo [Reg.pllReconfig] id t₄ :=
    amountsTo_of_only h₄ (only_request (mild_of_isQuiet rfl))
  have hlast : AmountsTo [Reg.pllReconfig] id [mention] :=
    amountsTo_of_mild (List.forall_mem_singleton.mpr (hmention ▸ mild_note event))
  exact (amountsTo_note h₁).append ((amountsTo_tryWrite h₂ (.head _)).append
    ((amountsTo_tryWrite h₃ (.head _)).append (hsleep.append hlast)))

/-- The stock clock is remembered as it is read. -/
theorem readStock_of_run {before clock : ν} (run : Run (readStock before) talk clock)
    (more : List (Answered ν)) :
    clock = ((readingIn (talk ++ more)).map PllReading.core).getD before ∧
      AmountsTo [] (fun m ↦ m.withClock fun c ↦
        { c with baseline := ((readingIn (talk ++ more)).map PllReading.core).getD c.baseline })
        talk := by
  obtain ⟨t₁, pll, t₂, rfl, h₁, run⟩ := run_bind_iff.mp run
  rw [List.append_assoc, readingIn_of_run h₁]
  have hread : AmountsTo [] id t₁ := amountsTo_of_only h₁ (only_readPll fun _ ↦ mild_of_isQuiet)
  cases pll with
  | none =>
    obtain ⟨t₃, _, _, rfl, h₃, run⟩ := run_bind_iff.mp run
    obtain ⟨rfl, rfl⟩ := run_done_iff.mp run
    rw [List.append_nil]
    exact ⟨rfl, hread.append (amountsTo_note h₃)⟩
  | some pll =>
    obtain ⟨t₃, _, _, rfl, h₃, run⟩ := run_bind_iff.mp run
    obtain ⟨rfl, rfl⟩ := run_done_iff.mp run
    rw [List.append_nil]
    exact ⟨rfl, hread.append (amountsTo_revise h₃)⟩

/-- A divisor that is rejected is not programmed, and one that is programmed is for the clock to
return to. -/
theorem programDivisor_of_run {pll : PllReading ν} {mhz clock : ν}
    (run : Run (programDivisor pll mhz) talk clock) :
    match Pll.divisorFor pll.vco mhz with
    | .ok divisor =>
      clock = pll.vco / divisor ∧ AmountsTo Reg.clockGenerator
        (fun m ↦ m.withClock fun c ↦ { c with target := Quantity.trunc clock }) talk
    | .error _ => clock = pll.core ∧ AmountsTo [] id talk := by
  rw [programDivisor] at run
  cases hdivisor : Pll.divisorFor pll.vco mhz with
  | error e =>
    rw [hdivisor] at run
    cases e <;>
      obtain ⟨t₁, _, _, rfl, h₁, run⟩ := run_bind_iff.mp run <;>
      obtain ⟨rfl, rfl⟩ := run_done_iff.mp run <;>
      rw [List.append_nil] <;> exact ⟨rfl, amountsTo_note h₁⟩
  | ok divisor =>
    rw [hdivisor] at run
    obtain ⟨t₁, _, _, rfl, h₁, run⟩ := run_bind_iff.mp run
    obtain ⟨t₂, _, _, rfl, h₂, run⟩ := run_bind_iff.mp run
    obtain ⟨t₃, _, _, rfl, h₃, run⟩ := run_bind_iff.mp run
    obtain ⟨t₄, _, _, rfl, h₄, run⟩ := run_bind_iff.mp run
    obtain ⟨t₅, _, _, rfl, h₅, run⟩ := run_bind_iff.mp run
    obtain ⟨t₆, _, _, rfl, h₆, run⟩ := run_bind_iff.mp run
    obtain ⟨rfl, rfl⟩ := run_done_iff.mp run
    rw [List.append_nil]
    refine ⟨rfl, ?_⟩
    exact (amountsTo_tryWrite h₁ (by decide)).append ((amountsTo_tryWrite h₂ (by decide)).append
      ((amountsTo_tryWrite h₃ (by decide)).append ((amountsTo_tryWrite h₄ (by decide)).append
        ((amountsTo_revise h₅).append (amountsTo_note h₆)))))

omit [Quantity ν] in
/-- A change is made between saving some registers and restoring them, and what it gives is the
clock that is remembered. -/
theorem exists_of_run_changingClock {change : Routine ν ν} {x : Option ν}
    (run : Run (changingClock change) talk x) :
    ∃ before changes after clock, talk = before ++ (changes ++ after) ∧ Run change changes clock ∧
      x = some clock ∧ AmountsTo Reg.saved id before ∧
      AmountsTo Reg.saved (fun m ↦ m.withClock fun c ↦ { c with current := clock }) after := by
  -- three registers are saved and the generator is powered; after the change the three are written
  -- back, and the clock is remembered
  obtain ⟨t₁, items, _, rfl, h₁, run⟩ := run_bind_iff.mp run
  obtain ⟨t₂, reciprocal, _, rfl, h₂, run⟩ := run_bind_iff.mp run
  obtain ⟨t₃, power, _, rfl, h₃, run⟩ := run_bind_iff.mp run
  obtain ⟨t₄, _, _, rfl, h₄, run⟩ := run_bind_iff.mp run
  obtain ⟨t₅, clock, _, rfl, h₅, run⟩ := run_bind_iff.mp run
  obtain ⟨t₆, _, _, rfl, h₆, run⟩ := run_bind_iff.mp run
  obtain ⟨t₇, _, _, rfl, h₇, run⟩ := run_bind_iff.mp run
  obtain ⟨t₈, _, _, rfl, h₈, run⟩ := run_bind_iff.mp run
  obtain ⟨t₉, _, _, rfl, h₉, run⟩ := run_bind_iff.mp run
  obtain ⟨rfl, rfl⟩ := run_done_iff.mp run
  have hsave {addr : Word} {value : Word} {t : List (Answered ν)}
      (h : Run (saveParameter addr) t value) : AmountsTo Reg.saved id t :=
    amountsTo_of_only h (only_readOr (fun _ ↦ mild_of_isQuiet) ⟨trivial, fun _ ↦ rfl⟩)
  refine ⟨t₁ ++ (t₂ ++ (t₃ ++ t₄)), t₅, t₆ ++ (t₇ ++ (t₈ ++ t₉)), clock, by simp, h₅, rfl, ?_, ?_⟩
  · exact (hsave h₁).append ((hsave h₂).append
      ((hsave h₃).append (amountsTo_tryWrite h₄ (by decide))))
  · exact (amountsTo_tryWrite h₆ (by decide)).append ((amountsTo_tryWrite h₇ (by decide)).append
      ((amountsTo_tryWrite h₈ (by decide)).append (amountsTo_revise h₉)))

/-! ## Whole clock changes -/

/-- What a request for a clock amounts to. -/
theorem target_of_run {pll : PllReading ν} {mhz : ν} {x : Option ν}
    (run : Run (changingClock do
      let clock ← programDivisor pll mhz
      settleClock
      pure clock) talk x) :
    ∃ clock, x = some clock ∧
      match Pll.divisorFor pll.vco mhz with
      | .ok divisor => clock = pll.vco / divisor ∧
        AmountsTo Reg.clockChange (fun m ↦ m.withClock fun c ↦
          { c with target := Quantity.trunc clock, current := clock }) talk
      | .error _ => clock = pll.core ∧
        AmountsTo Reg.saved (fun m ↦ m.withClock fun c ↦ { c with current := clock }) talk := by
  obtain ⟨before, _, after, clock, rfl, hchange, rfl, hbefore, hafter⟩ :=
    exists_of_run_changingClock run
  refine ⟨clock, rfl, ?_⟩
  obtain ⟨t₁, clock', _, rfl, h₁, hrest⟩ := run_bind_iff.mp hchange
  obtain ⟨t₂, _, _, rfl, h₂, hend⟩ := run_bind_iff.mp hrest
  obtain ⟨rfl, rfl⟩ := run_done_iff.mp hend
  have hprogram := programDivisor_of_run h₁
  rw [List.append_nil]
  cases hdivisor : Pll.divisorFor pll.vco mhz with
  | error e =>
    simp only [hdivisor] at hprogram
    have hnothing : AmountsTo Reg.saved id (t₁ ++ t₂) :=
      (hprogram.2.mono (List.nil_subset _)).append (amountsTo_settleClock h₂)
    exact ⟨hprogram.1, hbefore.append (hnothing.append hafter)⟩
  | ok divisor =>
    simp only [hdivisor] at hprogram
    have hsaved : Reg.saved ⊆ Reg.clockChange := by decide
    have hgenerator : Reg.clockGenerator ⊆ Reg.clockChange := fun _ ↦ Reg.mem_clockChange
    have hprogrammed := (hprogram.2.append (amountsTo_settleClock h₂)).mono hgenerator
    exact ⟨hprogram.1, (hbefore.mono hsaved).append (hprogrammed.append (hafter.mono hsaved))⟩

/-- What a request for the stock clock amounts to. -/
theorem stock_of_run {core : ν} {x : Option ν}
    (run : Run (changingClock do
      resetClock
      settleClock
      readStock core) talk x) :
    ∃ clock earlier strobe later, x = some clock ∧ talk = earlier ++ strobe :: later ∧
      strobe.request = .call (.write Reg.clockResetValue Reg.clockReset) ∧
      AmountsTo (Reg.pllReconfig :: Reg.saved) id earlier ∧
      AmountsTo Reg.saved (fun m ↦ m.withClock fun c ↦
        { c with
          baseline := ((readingIn later).map PllReading.core).getD c.baseline
          current := clock }) later := by
  obtain ⟨before, _, after, clock, rfl, hchange, rfl, hbefore, hafter⟩ :=
    exists_of_run_changingClock run
  obtain ⟨_, _, _, rfl, h₁, hrest⟩ := run_bind_iff.mp hchange
  obtain ⟨settling, _, reading, rfl, h₂, h₃⟩ := run_bind_iff.mp hrest
  obtain ⟨resetting, strobe, noting, rfl, hstrobe, hreset, hnoting⟩ := exists_of_run_resetClock h₁
  -- what is said between the strobe and the reading tells nothing of the settings
  have hnotes : ∀ said ∈ noting, Mild [] said.request ∧ Averted said.request := fun said hs ↦ by
    obtain ⟨event, hevent⟩ := hnoting said hs
    rw [hevent]
    exact ⟨mild_note event, averted_note event⟩
  have hsettling : ∀ said ∈ settling, Averted said.request := by
    obtain ⟨q, hp, -⟩ := h₂
    exact averted_settleClock.of_path hp
  have htold : readingIn (noting ++ (settling ++ (reading ++ after))) =
      readingIn (reading ++ after) := by
    rw [readingIn_append fun said hs ↦ (hnotes said hs).2, readingIn_append hsettling]
  have hread := (readStock_of_run h₃ after).2
  rw [← htold] at hread
  refine ⟨clock, before ++ resetting, strobe, noting ++ (settling ++ (reading ++ after)), rfl,
    by simp, hstrobe, ?_, ?_⟩
  · exact (hbefore.mono (List.subset_cons_self _ _)).append (hreset.mono (by simp))
  · have hquiet : AmountsTo Reg.saved id noting :=
      (amountsTo_of_mild fun said hs ↦ (hnotes said hs).1).mono (List.nil_subset _)
    exact hquiet.append ((amountsTo_settleClock h₂).append
      ((hread.mono (List.nil_subset _)).append hafter))

end Parts

end Clocking

/-! ## What a clock request leaves alone -/

variable [Quantity ν]

/-- What a clock request leaves alone of the board and of the clock as it is remembered, where the
clock generator could be read at first. -/
def ClockRequest.Confines (pll : PllReading ν) (talk : List (Answered ν)) (c c' : ClockState ν) :
    ClockRequest ν → Prop
  | .read => (∀ said ∈ talk, said.request.WritesOnly []) ∧ c' = { c with current := c'.current }
  | .target mhz => c'.baseline = c.baseline ∧ ∀ e, Pll.divisorFor pll.vco mhz = .error e →
      c'.target = c.target ∧ ∀ said ∈ talk, ∀ addr ∈ Reg.clockGenerator, ¬said.request.Writes addr
  | .stock => c'.target = c.target ∧
      (∀ said ∈ talk, ¬said.request.Writes Reg.pllVco ∧ ¬said.request.Writes Reg.pllClk0) ∧
      ∃ earlier strobe later, talk = earlier ++ strobe :: later ∧
        strobe.request = .call (.write Reg.clockResetValue Reg.clockReset) ∧
        (∀ said ∈ earlier ++ later, ¬said.request.Writes Reg.clockReset) ∧
        c'.baseline = ((readingIn later).map PllReading.core).getD c.baseline

namespace Clocking

open Routine Board

variable {first talk : List (Answered ν)} {pll : PllReading ν} {x : Option ν}

theorem confines_target {mhz : ν} (hfirst : AmountsTo [] id first)
    (run : Run (changingClock do
      let clock ← programDivisor pll mhz
      settleClock
      pure clock) talk x) :
    ∃ f addrs, AmountsTo addrs (fun m ↦ m.withClock f) (first ++ talk) ∧
      ∀ c, x = some (f c).current ∧
        ClockRequest.Confines pll (first ++ talk) c (f c) (.target mhz) := by
  obtain ⟨clock, rfl, hamount⟩ := target_of_run run
  cases hdivisor : Pll.divisorFor pll.vco mhz with
  | ok divisor =>
    simp only [hdivisor] at hamount
    refine ⟨fun c ↦ { c with target := Quantity.trunc clock, current := clock }, _,
      (hfirst.mono (List.nil_subset _)).append hamount.2, fun c ↦ ⟨rfl, rfl, ?_⟩⟩
    rw [hdivisor]
    nofun
  | error e =>
    simp only [hdivisor] at hamount
    have hwhole := (hfirst.mono (List.nil_subset _)).append hamount.2
    refine ⟨fun c ↦ { c with current := clock }, _, hwhole, fun c ↦
      ⟨rfl, rfl, fun _ _ ↦ ⟨rfl, fun said hs addr haddr ↦ ?_⟩⟩⟩
    have disjoint : Reg.clockGenerator.all (· ∉ Reg.saved) := by decide
    have hunsaved : addr ∉ Reg.saved := of_decide_eq_true (List.all_eq_true.mp disjoint addr haddr)
    exact not_writes_of_writesOnly (hwhole.writes said hs) hunsaved

theorem confines_stock (hfirst : AmountsTo [] id first)
    (run : Run (changingClock do
      resetClock
      settleClock
      readStock pll.core) talk x) :
    ∃ f addrs, AmountsTo addrs (fun m ↦ m.withClock f) (first ++ talk) ∧
      ∀ c, x = some (f c).current ∧ ClockRequest.Confines pll (first ++ talk) c (f c) .stock := by
  obtain ⟨clock, earlier, strobe, later, rfl, rfl, hstrobe, hearlier, hlater⟩ := stock_of_run run
  have hbefore : AmountsTo (Reg.pllReconfig :: Reg.saved) id (first ++ earlier) :=
    (hfirst.mono (List.nil_subset _)).append hearlier
  have hmild : Mild [Reg.clockReset] strobe.request := hstrobe ▸ mild_write (.head _) _
  have hthen : AmountsTo [Reg.clockReset] id [strobe] :=
    amountsTo_of_mild (List.forall_mem_singleton.mpr hmild)
  have hwhole :=
    (hbefore.mono (by decide : _ ⊆ Reg.pllReconfig :: Reg.clockReset :: Reg.saved)).append
      ((hthen.mono (by decide)).append (hlater.mono (by decide)))
  rw [List.append_assoc] at hwhole
  let stock : ClockState ν → ClockState ν := fun c ↦
    { c with
      baseline := ((readingIn later).map PllReading.core).getD c.baseline
      current := clock }
  refine ⟨stock, _, hwhole, fun c ↦ ⟨rfl, rfl, fun said hs ↦ ?_, first ++ earlier, strobe, later,
    (List.append_assoc ..).symm, hstrobe, ?_, rfl⟩⟩
  · have hsaid := hwhole.writes said hs
    exact ⟨not_writes_of_writesOnly hsaid (by decide), not_writes_of_writesOnly hsaid (by decide)⟩
  · refine List.forall_mem_append.mpr ⟨fun said hs ↦ ?_, fun said hs ↦ ?_⟩
    · exact not_writes_of_writesOnly (hbefore.writes said hs) (by decide)
    · exact not_writes_of_writesOnly (hlater.writes said hs) (by decide)

end Clocking

/-- **What a clock request leaves alone.** Whoever answers, a clock request comes to its end. If the
clock generator could not be read at first, nothing is written and nothing is changed. Otherwise the
answer is the clock that is remembered in the end, and the request leaves alone what it is not
about. -/
theorem setClock_confines (request : ClockRequest ν) :
    (∀ reply : Answering ν, ∃ talk x,
      Routine.Run (Routine.setClock request) talk x ∧ reply.Gives [] talk) ∧
    ∀ talk x (m : Memory ν), Routine.Run (Routine.setClock request) talk x →
      recollection m talk = m.withClock (fun _ ↦ (recollection m talk).clock) ∧
      match readingIn talk with
      | none => x = none ∧ (∀ said ∈ talk, said.request.WritesOnly []) ∧
          (recollection m talk).clock = m.clock
      | some pll => x = some (recollection m talk).clock.current ∧
          request.Confines pll talk m.clock (recollection m talk).clock := by
  refine ⟨fun reply ↦ (Board.brief_setClock request).exists_run reply [], fun talk x m run ↦ ?_⟩
  obtain ⟨first, pll, rest, rfl, hread, hrest⟩ := Routine.run_bind_iff.mp run
  have hfirst : Clocking.AmountsTo [] id first :=
    Clocking.amountsTo_of_only hread (Board.only_readPll fun _ ↦ Clocking.mild_of_isQuiet)
  rw [Clocking.readingIn_of_run hread]
  cases pll with
  | none =>
    obtain ⟨noting, _, _, rfl, hnote, hend⟩ := Routine.run_bind_iff.mp hrest
    obtain ⟨rfl, rfl⟩ := Routine.run_done_iff.mp hend
    have hwhole := hfirst.append (Clocking.amountsTo_note hnote)
    rw [List.append_nil, hwhole.recollects]
    exact ⟨rfl, rfl, hwhole.writes, rfl⟩
  | some pll =>
    have hconfines : ∃ f addrs, Clocking.AmountsTo addrs (fun m ↦ m.withClock f) (first ++ rest) ∧
        ∀ c, x = some (f c).current ∧ request.Confines pll (first ++ rest) c (f c) := by
      cases request with
      | stock => exact Clocking.confines_stock hfirst hrest
      | target mhz => exact Clocking.confines_target hfirst hrest
      | read =>
        obtain ⟨_, _, _, rfl, hrevise, hend⟩ := Routine.run_bind_iff.mp hrest
        obtain ⟨rfl, rfl⟩ := Routine.run_done_iff.mp hend
        have hwhole := hfirst.append (Clocking.amountsTo_revise hrevise)
        rw [List.append_nil]
        exact ⟨fun c ↦ { c with current := pll.core }, [], hwhole, fun c ↦
          ⟨rfl, hwhole.writes, rfl⟩⟩
    obtain ⟨f, addrs, hamount, hclock⟩ := hconfines
    rw [hamount.recollects]
    exact ⟨rfl, hclock m.clock⟩

/-! ### The stock clock on a board that can be read -/

namespace Clocking

/-- What is remembered of a board that returns to 400 MHz. -/
def returning : Memory Rat := (Memory.start 0 false).withClock fun c ↦ { c with target := 400 }

/-- The board is asked for its stock clock. -/
def toStock : Rehearsal Saving.requests :=
  .rehearse returning {} SimulatedBoard.healthy [.begins .stock, .goes .owner 60]

def isStock : Occurrence Saving.requests → Bool
  | .ends .stock (some _) => true
  | _ => false

theorem toStock_runs :
    ∃ clock, Routine.Run (Routine.setClock .stock) (talkOf toStock.before) (some clock) := by
  have ends : toStock.lastPasses isStock := by decide +kernel
  obtain ⟨e, htest, hlast⟩ := Rehearsal.occurrences_of_lastPasses ends
  unfold isStock at htest
  split at htest
  · exact ⟨_, (Rehearsal.run_of_isSoloJob hlast (by decide +kernel)).1⟩
  · cases htest

end Clocking

/-- A request for the stock clock leaves the clock to return to alone. -/
theorem target_of_toStock : ∃ clock talk,
    Routine.Run (Routine.setClock .stock) talk (some clock) ∧
      (recollection Clocking.returning talk).clock.target = 400 ∧
      (recollection Clocking.returning talk).clock.current = clock := by
  obtain ⟨clock, run⟩ := Clocking.toStock_runs
  have read : (readingIn (talkOf Clocking.toStock.before)).isSome := by decide +kernel
  obtain ⟨pll, hpll⟩ := Option.isSome_iff_exists.mp read
  have confines := ((setClock_confines .stock).2 _ _ Clocking.returning run).2
  rw [hpll] at confines
  obtain ⟨hcurrent, htarget, -⟩ := confines
  exact ⟨clock, _, run, htarget, (Option.some.inj hcurrent).symm⟩

end HashBoard
