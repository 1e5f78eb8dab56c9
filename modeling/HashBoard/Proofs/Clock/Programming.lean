import HashBoard.Proofs.Clock.Effect

/-!
# What a request for a clock programs

A request for a clock that has a divisor writes the oscillator word as it was read, the divisor word
and the strobes, and nothing else but the parameters it saves. So what the two words of the clock
generator hold afterwards is known, if the writes succeed.
-/

namespace HashBoard

variable {ν : Type}

/-- What was asked to write a register. -/
def writesTo (addr : Word) (talk : List (Answered ν)) : List (Request ν) :=
  (talk.map Answered.request).filter (·.Writes addr)

/-- What programs a divisor. -/
def PllReading.programming [Quantity ν] (pll : PllReading ν) (divisor : ν) : List (Request ν) :=
  [.call (.write pll.vcoWord Reg.pllVco), .call (.write (Pll.encode divisor) Reg.pllClk0),
    .call (.write 0x7 Reg.pllReconfig), .call (.write 0x3 Reg.pllReconfig)]

section Writes

variable {addr : Word} {talk talk' : List (Answered ν)}

theorem writesTo_append :
    writesTo addr (talk ++ talk') = writesTo addr talk ++ writesTo addr talk' := by
  rw [writesTo, List.map_append, List.filter_append]
  rfl

theorem writesTo_eq_nil_iff :
    writesTo addr talk = [] ↔ ∀ said ∈ talk, ¬said.request.Writes addr := by
  simp [writesTo, List.filter_eq_nil_iff]

theorem contents_of_unwritten {w : Word} (h : ∀ said ∈ talk, ¬said.request.Writes addr) :
    contents addr w talk = w :=
  contents_of_kept fun said hs ↦ .inl (leaves_of_not_writes (h said hs) said.reply)

/-- A register that is written once holds what was written, on a board that is faithful about it. -/
theorem contents_of_writesTo {w value : Word} (faithful : Faithful addr w talk)
    (h : writesTo addr talk = [.call (.write value addr)]) : contents addr w talk = value := by
  obtain ⟨before, after, hmap, hbefore, -, hafter⟩ := List.filter_eq_cons_iff.mp h
  obtain ⟨earlier, rest, rfl, rfl, hrest⟩ := List.map_eq_append_iff.mp hmap
  obtain ⟨⟨r, x⟩, later, rfl, hr, rfl⟩ := List.map_eq_cons_iff.mp hrest
  obtain rfl : r = _ := hr
  have hunwritten : contents addr value later = value :=
    contents_of_unwritten (writesTo_eq_nil_iff.mp hafter)
  have hwrite := (faithful_append.mp faithful).2.1
  cases x with
  | error fault => exact absurd rfl hwrite
  | ok =>
    rw [List.append_cons, contents_append, contents_snoc, Answered.leaves, if_pos rfl]
    exact hunwritten

end Writes

namespace Clocking

open Routine Board

variable {addr : Word} {talk : List (Answered ν)}

theorem writesTo_of_only {α : Type} {p : Routine ν α} {a : α} (run : Run p talk a)
    (h : p.Only (¬·.Writes addr)) : writesTo addr talk = [] :=
  writesTo_eq_nil_iff.mpr (h.of_run run)

theorem writesTo_of_amountsTo {addrs : List Word} {f : Memory ν → Memory ν}
    (h : AmountsTo addrs f talk) (haddr : addr ∉ addrs) : writesTo addr talk = [] :=
  writesTo_eq_nil_iff.mpr fun said hs ↦ not_writes_of_writesOnly (h.writes said hs) haddr

theorem writesTo_of_run_tryWrite {value addr' : Word} {what : String} {u : Unit}
    (run : Run (tryWrite value addr' what) talk u) :
    writesTo addr talk = [.call (.write value addr')].filter (·.Writes addr) := by
  obtain ⟨mention, x, later, rfl, ⟨event, hmention⟩, hlater⟩ := exists_of_run_tryWrite run
  have hnotes : ∀ said ∈ later, ¬said.request.Writes addr := fun said hs ↦ by
    obtain ⟨event, hevent⟩ := hlater said hs
    rw [hevent]
    exact id
  have hfirst : ∀ said ∈ [mention], ¬said.request.Writes addr :=
    List.forall_mem_singleton.mpr (hmention ▸ id)
  rw [← List.singleton_append, writesTo_append, writesTo_eq_nil_iff.mpr hfirst,
    ← List.singleton_append, writesTo_append, writesTo_eq_nil_iff.mpr hnotes]
  exact List.append_nil _

variable [Quantity ν] {pll : PllReading ν} {mhz d : ν}

theorem writesTo_of_run_programDivisor {clock : ν} (run : Run (programDivisor pll mhz) talk clock)
    (accepts : Pll.divisorFor pll.vco mhz = .ok d) :
    writesTo addr talk = (pll.programming d).filter (·.Writes addr) := by
  rw [programDivisor, accepts] at run
  obtain ⟨t₁, _, _, rfl, h₁, run⟩ := run_bind_iff.mp run
  obtain ⟨t₂, _, _, rfl, h₂, run⟩ := run_bind_iff.mp run
  obtain ⟨t₃, _, _, rfl, h₃, run⟩ := run_bind_iff.mp run
  obtain ⟨t₄, _, t₅, rfl, h₄, run⟩ := run_bind_iff.mp run
  have hrest : writesTo addr t₅ = [] :=
    writesTo_of_only run ((only_request (r := .revise _) id).bind fun _ ↦
      (only_request (r := .note _) id).bind fun _ ↦ trivial)
  rw [writesTo_append, writesTo_append, writesTo_append, writesTo_append, hrest,
    writesTo_of_run_tryWrite h₁, writesTo_of_run_tryWrite h₂, writesTo_of_run_tryWrite h₃,
    writesTo_of_run_tryWrite h₄, List.append_nil, ← List.filter_append, ← List.filter_append,
    ← List.filter_append]
  rfl

/-- What comes of a request for a clock that has a divisor. -/
structure Programs (pll : PllReading ν) (d : ν) (talk : List (Answered ν)) (x : Option ν) :
    Prop where
  clock : x = some (pll.vco / d)
  writes : ∀ addr ∉ Reg.saved, writesTo addr talk = (pll.programming d).filter (·.Writes addr)
  recollects : ∀ m, recollection m talk = m.withClock fun c ↦
    { c with target := Quantity.trunc (pll.vco / d), current := pll.vco / d }

/-- What comes of a request for a clock that has none. -/
structure Refuses (pll : PllReading ν) (talk : List (Answered ν)) (x : Option ν) : Prop where
  clock : x = some pll.core
  writes : ∀ addr ∉ Reg.saved, writesTo addr talk = []
  recollects : ∀ m, recollection m talk = m.withClock fun c ↦ { c with current := pll.core }

/-- A request for a clock programs the divisor for it, if there is one. -/
theorem programs_of_run {x : Option ν} (run : Run (setClock (.target mhz)) talk x)
    (reads : readingIn talk = some pll) :
    match Pll.divisorFor pll.vco mhz with
    | .ok d => Programs pll d talk x
    | .error _ => Refuses pll talk x := by
  obtain ⟨first, _, rest, rfl, hread, hrest⟩ := run_bind_iff.mp run
  obtain rfl := (readingIn_of_run hread rest).symm.trans reads
  have hfirst : AmountsTo [] id first :=
    amountsTo_of_only hread (only_readPll fun _ ↦ mild_of_isQuiet)
  obtain ⟨clock, rfl, htarget⟩ := target_of_run hrest
  cases hdivisor : Pll.divisorFor pll.vco mhz with
  | error e =>
    simp only [hdivisor] at htarget ⊢
    obtain ⟨rfl, hamount⟩ := htarget
    have hwhole := (hfirst.mono (List.nil_subset _)).append hamount
    exact ⟨rfl, fun addr ↦ writesTo_of_amountsTo hwhole, hwhole.recollects⟩
  | ok d =>
    simp only [hdivisor] at htarget ⊢
    obtain ⟨rfl, hamount⟩ := htarget
    refine ⟨rfl, fun addr haddr ↦ ?_, ((hfirst.mono (List.nil_subset _)).append hamount).recollects⟩
    -- what is said before and after the change writes only what is saved
    obtain ⟨before, changes, after, _, rfl, hchange, -, hbefore, hafter⟩ :=
      exists_of_run_changingClock hrest
    obtain ⟨t₁, _, t₂, rfl, h₁, h₂⟩ := run_bind_iff.mp hchange
    have hsettle : writesTo addr t₂ = [] :=
      writesTo_of_only h₂ ((only_settleClock fun r h ↦ r.not_writes_of_isQuiet h addr).bind
        fun _ ↦ trivial)
    rw [writesTo_append, writesTo_append, writesTo_append, writesTo_append,
      writesTo_of_amountsTo hfirst (List.not_mem_nil), writesTo_of_amountsTo hbefore haddr,
      writesTo_of_amountsTo hafter haddr, hsettle, writesTo_of_run_programDivisor h₁ hdivisor,
      List.append_nil, List.append_nil]
    rfl

theorem programs_of_accepts {x : Option ν} (run : Run (setClock (.target mhz)) talk x)
    (reads : readingIn talk = some pll) (accepts : Pll.divisorFor pll.vco mhz = .ok d) :
    Programs pll d talk x := by
  have hprograms := programs_of_run run reads
  rwa [accepts] at hprograms

/-! ### Requests, one at a time -/

deriving instance DecidableEq for ClockRequest

/-- A board is asked for something of its clock. -/
def asking (memory : Memory Rat) (board : SimulatedBoard) (request : ClockRequest Rat) :
    Rehearsal Saving.requests := .rehearse memory {} board [.begins request, .goes .owner 60]

def isEndOf (request : ClockRequest Rat) : Occurrence Saving.requests → Bool
  | .ends request' _ => request == request'
  | _ => false

/-- Whether it answers, with nobody else there. -/
def answersAlone (memory : Memory Rat) (board : SimulatedBoard) (request : ClockRequest Rat) :
    Bool :=
  (asking memory board request).lastPasses (isEndOf request) &&
    Rehearsal.isSoloJob (asking memory board request).before

theorem exists_run_of_answersAlone {memory : Memory Rat} {board : SimulatedBoard}
    {request : ClockRequest Rat} (h : answersAlone memory board request) :
    ∃ x, Run (setClock request) (talkOf (asking memory board request).before) x ∧
      board.Answers (talkOf (asking memory board request).before)
        (asking memory board request).board := by
  obtain ⟨ends, solo⟩ := (Bool.and_eq_true _ _).mp h
  obtain ⟨e, htest, hlast⟩ := Rehearsal.occurrences_of_lastPasses ends
  unfold isEndOf at htest
  split at htest
  · obtain rfl := eq_of_beq htest
    exact ⟨_, Rehearsal.run_of_isSoloJob hlast solo⟩
  · cases htest

end Clocking

end HashBoard
