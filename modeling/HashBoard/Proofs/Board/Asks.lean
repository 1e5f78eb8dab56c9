import HashBoard.Proofs.Routine.Only
import HashBoard.Worker

/-!
# What the routines of a board ask

For each routine, what it does to the board's registers, to its lock and to what is remembered of
it; the rest of what it asks is quiet. Each statement is about an arbitrary set of requests with
room for that much, so that a proof about, say, the item count picks the set of the requests that
leave the item count alone.
-/

namespace HashBoard

/-- What onlookers are told about the work under way is the same. -/
structure Status.AtPar {ν : Type} (s s' : Status ν) : Prop where
  searching : s'.searching = s.searching
  epoch : s'.epoch = s.epoch
  phase : s'.phase = s.phase
  solutions : s'.solutions = s.solutions

theorem Status.AtPar.refl {ν : Type} (s : Status ν) : s.AtPar s := ⟨rfl, rfl, rfl, rfl⟩

theorem Status.AtPar.trans {ν : Type} {s s' s'' : Status ν} (h : s.AtPar s') (h' : s'.AtPar s'') :
    s.AtPar s'' :=
  ⟨h'.searching.trans h.searching, h'.epoch.trans h.epoch, h'.phase.trans h.phase,
    h'.solutions.trans h.solutions⟩

/-- The stock clock and the clock to return to are the same. -/
structure ClockState.AtPar {ν : Type} (c c' : ClockState ν) : Prop where
  baseline : c'.baseline = c.baseline
  target : c'.target = c.target

/-- What is remembered of the work under way is the same: the flags, whether tuning is on, the last
epoch, the averages, the clock to return to, and what onlookers are told. -/
structure Memory.AtPar {ν : Type} (m m' : Memory ν) : Prop where
  newWork : m'.newWork = m.newWork
  busy : m'.busy = m.busy
  halted : m'.halted = m.halted
  autoTune : m'.autoTune = m.autoTune
  lastEpoch : m'.lastEpoch = m.lastEpoch
  averager : m'.averager = m.averager
  clock : m.clock.AtPar m'.clock
  status : m.status.AtPar m'.status

/-- A change of what is remembered that has nothing to do with the work under way. -/
def Bookkeeping {ν : Type} (f : Memory ν → Memory ν) : Prop := ∀ m : Memory ν, m.AtPar (f m)

/-- A change of what is remembered that concerns only the averages of the work under way and the
number of solutions. -/
def Averaging {ν : Type} (f : Memory ν → Memory ν) : Prop :=
  ∀ m : Memory ν,
    ({ m with
      averager := (f m).averager
      status := { m.status with solutions := (f m).status.solutions } } : Memory ν).AtPar (f m)

/-- The registers of the clock generator. -/
def Reg.clockGenerator : List Word :=
  [Reg.pllVco, Reg.pllClk0, Reg.pllReconfig, Reg.clockReset]

/-- The registers a clock change writes: those of the clock generator, and the parameters it would
lose. -/
def Reg.clockChange : List Word :=
  Reg.itemCount :: Reg.itemReciprocal :: Reg.dagPower :: Reg.clockGenerator

theorem Reg.mem_clockChange {addr : Word} (h : addr ∈ Reg.clockGenerator) :
    addr ∈ Reg.clockChange := .tail _ (.tail _ (.tail _ h))

/-- The change that a halt makes to what is remembered. -/
def Memory.halt {ν : Type} (m : Memory ν) : Memory ν :=
  { m with halted := true, busy := true, newWork := true }

namespace Board

open Routine

variable {ν : Type} {P : Request ν → Prop}

theorem only_reviseStatus (books : ∀ f, Bookkeeping f → P (.revise f)) {f : Status ν → Status ν}
    (h : ∀ s : Status ν, s.AtPar (f s)) : (reviseStatus f).Only P :=
  only_request (books _ fun m ↦ ⟨rfl, rfl, rfl, rfl, rfl, rfl, ⟨rfl, rfl⟩, h m.status⟩)

theorem only_reviseClock (books : ∀ f, Bookkeeping f → P (.revise f))
    {f : ClockState ν → ClockState ν} (h : ∀ c : ClockState ν, c.AtPar (f c)) :
    (reviseClock f).Only P :=
  only_request (books _ fun m ↦ ⟨rfl, rfl, rfl, rfl, rfl, rfl, h m.clock, .refl _⟩)

/-- Room for everything that a telemetry sample asks. -/
structure RoomToWatch (P : Request ν → Prop) : Prop where
  quiet : ∀ r, r.isQuiet → P r
  books : ∀ f, Bookkeeping f → P (.revise f)
  halt : P (.revise Memory.halt)
  coreFlags : ∀ value, P (.call (.write value Reg.coreFlags))
  coreOff : P (.call (.write Reg.coreOff Reg.coreEnable))
  powerOff : P (.call (.write Reg.dagPowerOff Reg.dagPower))

variable (quiet : ∀ r : Request ν, r.isQuiet → P r)
include quiet

/-! ## The clock -/

section Clock

variable [Quantity ν]

theorem only_readPll : (readPll : Routine ν _).Only P := by
  refine (only_read quiet (quiet _ rfl)).bind fun x ↦ ?_
  cases x with
  | error fault => exact (only_note quiet rfl).bind fun _ ↦ trivial
  | ok vco =>
    refine (only_read quiet (quiet _ rfl)).bind fun y ↦ ?_
    cases y with
    | error fault => exact (only_note quiet rfl).bind fun _ ↦ trivial
    | ok clk =>
      dsimp only
      cases Pll.decode (ν := ν) vco clk with
      | none => exact (only_note quiet rfl).bind fun _ ↦ trivial
      | some pll => trivial

omit [Quantity ν] in
theorem only_awaitLock (n : Nat) : (awaitLock n : Routine ν _).Only P := by
  induction n with
  | zero => trivial
  | succ n ih =>
    refine (only_read quiet (quiet _ rfl)).bind fun x ↦ ?_
    cases x with
    | error fault => exact ih
    | ok status =>
      dsimp only
      split
      · exact ih
      · trivial

omit [Quantity ν] in
theorem only_settleClock : (settleClock : Routine ν _).Only P := by
  refine (only_awaitLock quiet lockPolls).bind fun locked ↦ ?_
  cases locked with
  | false => exact only_note quiet rfl
  | true => trivial

variable (books : ∀ f, Bookkeeping f → P (.revise f))
include books

theorem only_setClock_read : (setClock .read : Routine ν _).Only P := by
  refine (only_readPll quiet).bind fun pll ↦ ?_
  cases pll with
  | none => exact (only_note quiet rfl).bind fun _ ↦ trivial
  | some pll =>
    refine Only.bind (only_reviseClock books fun _ ↦ ?_) fun _ ↦ trivial
    exact ⟨rfl, rfl⟩

omit books

variable (clocked : ∀ f : ClockState ν → ClockState ν, P (.revise fun m ↦ m.withClock f))
include clocked

variable (writes : ∀ value, ∀ addr ∈ Reg.clockChange, P (.call (.write value addr)))
include writes

omit [Quantity ν] in
theorem only_changingClock {change : Routine ν ν} (h : change.Only P) :
    (changingClock change).Only P := by
  refine (only_readOr quiet (quiet _ rfl)).bind fun items ↦ ?_
  refine (only_readOr quiet (quiet _ rfl)).bind fun reciprocal ↦ ?_
  refine (only_readOr quiet (quiet _ rfl)).bind fun power ↦ ?_
  refine (only_tryWrite quiet (writes _ _ (by decide))).bind fun _ ↦ ?_
  refine h.bind fun clock ↦ ?_
  refine (only_tryWrite quiet (writes _ _ (by decide))).bind fun _ ↦ ?_
  refine (only_tryWrite quiet (writes _ _ (by decide))).bind fun _ ↦ ?_
  refine (only_tryWrite quiet (writes _ _ (by decide))).bind fun _ ↦ ?_
  exact (only_request (clocked _)).bind fun _ ↦ trivial

omit [Quantity ν] clocked writes in
theorem only_resetClock
    (writes : ∀ value, ∀ addr ∈ [Reg.pllReconfig, Reg.clockReset], P (.call (.write value addr))) :
    (resetClock : Routine ν _).Only P := by
  refine (only_note quiet rfl).bind fun _ ↦ ?_
  refine (only_tryWrite quiet (writes _ _ (by decide))).bind fun _ ↦ ?_
  refine (only_tryWrite quiet (writes _ _ (by decide))).bind fun _ ↦ ?_
  exact ⟨quiet _ rfl, fun _ ↦ only_tryWrite quiet (writes _ _ (by decide))⟩

omit writes in
theorem only_readStock (before : ν) : (readStock before).Only P := by
  refine (only_readPll quiet).bind fun pll ↦ ?_
  cases pll with
  | none => exact (only_note quiet rfl).bind fun _ ↦ trivial
  | some pll => exact (only_request (clocked _)).bind fun _ ↦ trivial

theorem only_setClock_stock : (setClock .stock : Routine ν _).Only P := by
  refine (only_readPll quiet).bind fun pll ↦ ?_
  cases pll with
  | none => exact (only_note quiet rfl).bind fun _ ↦ trivial
  | some pll =>
    refine only_changingClock quiet clocked writes ?_
    have inner : ∀ value, ∀ addr ∈ [Reg.pllReconfig, Reg.clockReset],
        P (.call (.write value addr)) :=
      fun value addr h ↦ writes value addr (Reg.mem_clockChange (.tail _ (.tail _ h)))
    refine (only_resetClock quiet inner).bind fun _ ↦ ?_
    exact (only_settleClock quiet).bind fun _ ↦ only_readStock quiet clocked pll.core

omit writes in
theorem only_programDivisor
    (writes : ∀ value, ∀ addr ∈ Reg.clockGenerator, P (.call (.write value addr)))
    (clocks : ∀ event, event.isClock → P (.note event)) (pll : PllReading ν) (mhz : ν) :
    (programDivisor pll mhz).Only P := by
  rw [programDivisor]
  cases Pll.divisorFor pll.vco mhz with
  | error e => cases e <;> exact (only_request (clocks _ rfl)).bind fun _ ↦ trivial
  | ok divisor =>
    refine (only_tryWrite quiet (writes _ _ (by decide))).bind fun _ ↦ ?_
    refine (only_tryWrite quiet (writes _ _ (by decide))).bind fun _ ↦ ?_
    refine (only_tryWrite quiet (writes _ _ (by decide))).bind fun _ ↦ ?_
    refine (only_tryWrite quiet (writes _ _ (by decide))).bind fun _ ↦ ?_
    refine (only_request (clocked _)).bind fun _ ↦ ?_
    exact (only_request (clocks _ rfl)).bind fun _ ↦ trivial

theorem only_setClock_target (clocks : ∀ event, event.isClock → P (.note event)) (mhz : ν) :
    (setClock (.target mhz)).Only P := by
  refine (only_readPll quiet).bind fun pll ↦ ?_
  cases pll with
  | none => exact (only_note quiet rfl).bind fun _ ↦ trivial
  | some pll =>
    refine only_changingClock quiet clocked writes ?_
    have inner : ∀ value, ∀ addr ∈ Reg.clockGenerator, P (.call (.write value addr)) :=
      fun value addr h ↦ writes value addr (Reg.mem_clockChange h)
    refine (only_programDivisor quiet clocked inner clocks pll mhz).bind fun clock ↦ ?_
    exact (only_settleClock quiet).bind fun _ ↦ trivial

end Clock

/-! ## Watching -/

section Watching

variable [Quantity ν] (books : ∀ f, Bookkeeping f → P (.revise f))
include books

omit [Quantity ν] books in
theorem only_reading [Quantity ν] {addr : Word} {ofWord : Word → ν} {unread : LinkFault → Event ν}
    (h : P (.call (.read addr))) (hn : ∀ fault, (unread fault).isMilestone = false) :
    (reading addr ofWord unread).Only P := by
  refine (only_read quiet h).bind fun x ↦ ?_
  cases x with
  | ok raw => trivial
  | error fault => exact (only_note quiet (hn fault)).bind fun _ ↦ trivial

theorem only_sample : (sample : Routine ν _).Only P := by
  refine (only_reading quiet (quiet _ rfl) fun _ ↦ rfl).bind fun temperature ↦ ?_
  refine (only_setClock_read quiet books).bind fun clock ↦ ?_
  refine (only_reading quiet (quiet _ rfl) fun _ ↦ rfl).bind fun supply ↦ ?_
  exact (only_readOr quiet (quiet _ rfl)).bind fun health ↦ trivial

omit [Quantity ν] books quiet in
theorem only_emergencyHalt (room : RoomToWatch P) (health : StackHealth) :
    (emergencyHalt health : Routine ν _).Only P := by
  have quiet := room.quiet
  refine (only_stopCore quiet room.coreFlags room.coreOff).bind fun _ ↦ ?_
  refine (only_tryWrite quiet room.powerOff).bind fun _ ↦ ?_
  refine (only_note quiet (by split <;> rfl)).bind fun _ ↦ ?_
  refine (only_request room.halt).bind fun _ ↦ ?_
  exact (only_request (quiet (.call .kick) rfl)).bind fun _ ↦ only_request (quiet .wake rfl)

omit books quiet in
theorem only_checkTelemetry (room : RoomToWatch P) (b : Board) :
    (b.checkTelemetry : Routine ν _).Only P := by
  have quiet := room.quiet
  refine (only_sample quiet room.books).bind fun t ↦ ?_
  refine (?_ : (b.noteAverages t).Only P).bind fun _ ↦ ?_
  · refine (only_request (quiet .memory rfl)).bind fun m ↦ ?_
    exact (only_request (quiet .tuningStage rfl)).bind fun stage ↦ only_note quiet rfl
  · have after : (do reviseStatus fun s ↦ { s with telemetry := some t, clock := t.clock }
                     pure t : Routine ν _).Only P :=
      Only.bind (only_reviseStatus room.books fun _ ↦ ⟨rfl, rfl, rfl, rfl⟩) fun _ ↦ trivial
    split
    · exact (only_emergencyHalt room t.health).bind fun _ ↦ after
    · exact after

end Watching

end Board

end HashBoard
