import HashBoard.Proofs.Scene.Memory
import HashBoard.Proofs.Scene.Rehearsal
import HashBoard.Proofs.Search.Asks
import HashBoard.Proofs.Stock.Reset

/-!
# The clock that the generator is started at

The dataset is to be generated at the stock clock. Whether it is depends on two reads: the generator
is started at the stock clock if and only if the call that starts it could read the clock generator
before it did anything else to the board. Guests do not matter, since they leave the clock alone.
-/

namespace HashBoard

open Routine

variable {ν : Type}

/-- The owner reset the clock in a stretch of a run, and nobody wrote its divisor since. -/
def ResetSince {R : Repertoire ν} (es : List (Occurrence R)) : Prop :=
  ∃ earlier later, es = earlier ++ later ∧ JustReset (ownTalk earlier) ∧
    ∀ said ∈ talkOf later, ¬said.request.Writes Reg.pllClk0

theorem Modest.steady {r : Request ν} (h : Modest r) : Stock.Steady r := by
  cases h with
  | quiet h => exact Stock.steady_of_isQuiet h
  | coreFlags | coreOff | powerOff => exact Stock.steady_write (by decide) (by decide)
  | _ => exact ⟨id, id⟩

theorem Modest.ne_start {r : Request ν} (h : Modest r) : r ≠ Stock.start := by
  rintro rfl
  cases h with
  | quiet h => cases h

namespace Stock

variable [Quantity ν]

omit [Quantity ν] in
theorem roomToSearch_ne_start {work : Work} :
    Board.RoomToSearch (· ≠ (start : Request ν)) work where
  quiet := roomToDrive_ne_start.quiet
  programmed := nofun
  stall := nofun
  slots := nofun
  checks := nofun
  interrupts := nofun
  looks := nofun
  tunes := nofun
  averages := nofun
  books := nofun
  searching := nofun
  halt := nofun
  acquire := nofun
  release := nofun
  writes value addr h := by
    rintro ⟨⟩
    exact absurd h (by decide)
  header := nofun
  target := nofun
  submits := nofun

section Runs

variable {b : Board} {memory : Memory ν} {feed : Feed}
  {es before since : List (Occurrence (b.errands (ν := ν)))} {s : Scene (b.errands (ν := ν))}

/-- What the owner did about the clock is what was done about it. -/
theorem resetSince_iff (run : Scene.Runs (.quiet memory feed) (before ++ since) s) :
    ResetSince since ↔ Restored (ownTalk since) := by
  constructor
  · rintro ⟨earlier, later, rfl, hreset, hlater⟩
    refine ⟨ownTalk earlier, ownTalk later, ownTalk_append _ _, hreset, fun said hsaid ↦ ?_⟩
    exact hlater said (List.mem_filterMap.mpr ⟨_, mem_ownTalk.mp hsaid, rfl⟩)
  · rintro ⟨earlier, later, htalk, hreset, hlater⟩
    obtain ⟨pre, post, rfl, rfl, rfl⟩ := List.filterMap_eq_append_iff.mp htalk
    refine ⟨pre, post, rfl, hreset, fun said hsaid ↦ ?_⟩
    rw [← List.append_assoc] at run
    rcases run.said_cases (Scene.orderly_quiet memory feed) hsaid with hown | hmodest
    · exact hlater said hown
    · exact hmodest.steady.1

/-- Only a call that prepares an epoch starts the generator, where the clock is settled. -/
theorem settled_of_start {party : Party} {x : Except LinkFault Unit}
    (run : Scene.Runs (.quiet memory feed) (es ++ [.talks party ⟨start, x⟩]) s) :
    party = .owner ∧ ∃ ctx, ∃ before since : List (Occurrence (b.errands (ν := ν))),
      es = before ++ .begins (.prepare ctx) :: since ∧ (∀ e ∈ since, e.IsWithin) ∧
        Settled (ownTalk since) := by
  have hne : ¬Modest (start : Request ν) := fun h ↦ h.ne_start rfl
  obtain ⟨rfl, job, before, since, rfl, hwithin, p, q, hpath, hp⟩ :=
    run.begun_of_asked (Scene.orderly_quiet memory feed) rfl hne
  refine ⟨rfl, ?_⟩
  cases job with
  | prepare ctx =>
    refine ⟨ctx, before, since, rfl, hwithin, ?_⟩
    exact (ensures_prepareEpoch b ctx).guard_of_path hpath hp rfl
  | search work =>
    have hsearch : (b.search work : Routine ν _).Only (· ≠ start) :=
      Board.only_search roomToSearch_ne_start b
    have hall := hsearch.of_path (hpath.append (.cons hp (.nil _)))
    exact absurd rfl (hall _ (List.mem_append_right _ (.head _)))

end Runs

end Stock

/-- **The generator runs at the stock clock if the clock could be read.** Only calls that prepare an
epoch start the generator. Such a call has reset the clock by then, and its divisor was not written
since, if and only if its first two accesses read the clock generator, and neither divider was zero.
-/
theorem reset_iff_clock_read [Quantity ν] {b : Board} {memory : Memory ν} {feed : Feed}
    {es : List (Occurrence (b.errands (ν := ν)))} {party : Party} {x : Except LinkFault Unit}
    {s : Scene (b.errands (ν := ν))}
    (run : Scene.Runs (.quiet memory feed)
      (es ++ [.talks party ⟨.call (.write Reg.dagStart Reg.dagControl), x⟩]) s) :
    party = .owner ∧ ∃ ctx, ∃ before since : List (Occurrence (b.errands (ν := ν))),
      es = before ++ .begins (.prepare ctx) :: since ∧ (∀ e ∈ since, e.IsWithin) ∧
        (ResetSince since ↔ ReadsClock (ownTalk since)) := by
  obtain ⟨howner, ctx, before, since, rfl, hwithin, hsettled⟩ := Stock.settled_of_start run
  refine ⟨howner, ctx, before, since, rfl, hwithin, ?_⟩
  obtain ⟨t, upTo, -⟩ := run.of_snoc
  rw [List.append_cons] at upTo
  rw [Stock.resetSince_iff upTo, hsettled.restored_iff]

/-! ### A clock generator that can be read, and one that cannot -/

namespace Stock

/-- A change on a healthy board starts the generator. -/
def startsReset : Rehearsal (plainBoard.errands (ν := Rat)) :=
  .rehearse (.start 0 false) {} .healthy [.begins (.prepare plainEpoch), .goes .owner 95]

/-- A change on a board whose oscillator cannot be read starts the generator. -/
def startsUnread : Rehearsal (plainBoard.errands (ν := Rat)) :=
  .rehearse (.start 0 false) {} { SimulatedBoard.healthy with brokenReads := [Reg.pllVco] }
    [.begins (.prepare plainEpoch), .goes .owner 64]

/-- The generator is started. -/
def isStart : Occurrence (plainBoard.errands (ν := Rat)) → Bool
  | .talks _ ⟨.call (.write value addr), _⟩ => value = Reg.dagStart ∧ addr = Reg.dagControl
  | _ => false

theorem start_of_isStart {e : Occurrence (plainBoard.errands (ν := Rat))} (h : isStart e) :
    ∃ party x, e = .talks party ⟨start, x⟩ := by
  unfold isStart at h
  split at h
  · obtain ⟨rfl, rfl⟩ := of_decide_eq_true h
    exact ⟨_, _, rfl⟩
  · cases h

/-- The oscillator is read successfully, and so is the divisor; neither divider is zero. -/
def isRead : List (Answered Rat) → Bool
  | ⟨.call (.read addr), .ok vco⟩ :: ⟨.call (.read addr'), .ok clk⟩ :: _ =>
    addr = Reg.pllVco ∧ addr' = Reg.pllClk0 ∧ (Pll.decode (ν := Rat) vco clk).isSome
  | _ => false

theorem readsClock_of_isRead {talk : List (Answered Rat)} (h : isRead (accesses talk)) :
    ReadsClock talk := by
  unfold isRead at h
  split at h
  · rename_i addr vco addr' clk rest htalk
    obtain ⟨rfl, rfl, hsome⟩ := of_decide_eq_true h
    exact ⟨vco, clk, ⟨rest, htalk.symm⟩, hsome⟩
  · cases h

end Stock

/-- The guarantee for a change on a healthy board. -/
theorem reset_of_healthy : ∃ s : Scene (plainBoard.errands (ν := Rat)), ∃ ctx x,
    ∃ before since : List (Occurrence (plainBoard.errands (ν := Rat))),
      Scene.Runs (.quiet (.start 0 false) {}) (before ++ .begins (.prepare ctx) :: since ++
        [.talks .owner ⟨.call (.write Reg.dagStart Reg.dagControl), x⟩]) s ∧ ResetSince since := by
  have run : Scene.Runs (.quiet (.start 0 false) {}) Stock.startsReset.occurrences
      Stock.startsReset.scene := Rehearsal.rehearse_runs ..
  have starts : Stock.startsReset.lastPasses Stock.isStart := by decide +kernel
  have single : Rehearsal.isSingleJob Stock.startsReset.before := by decide +kernel
  have hread : Stock.isRead (accesses (ownTalk Stock.startsReset.before)) := by decide +kernel
  obtain ⟨e, htest, hlast⟩ := Rehearsal.occurrences_of_lastPasses starts
  obtain ⟨party, x, rfl⟩ := Stock.start_of_isStart htest
  rw [hlast] at run
  obtain ⟨rfl, ctx, before, since, hbefore, -, hreset⟩ := reset_iff_clock_read run
  rw [hbefore] at run single hread
  obtain rfl := Rehearsal.eq_nil_of_isSingleJob single
  exact ⟨_, ctx, x, [], since, run, hreset.mpr (Stock.readsClock_of_isRead hread)⟩

/-- A change whose clock generator cannot be read starts the generator without a reset. -/
theorem generates_without_reset : ∃ s : Scene (plainBoard.errands (ν := Rat)), ∃ ctx x,
    ∃ before since : List (Occurrence (plainBoard.errands (ν := Rat))),
      Scene.Runs (.quiet (.start 0 false) {}) (before ++ .begins (.prepare ctx) :: since ++
        [.talks .owner ⟨.call (.write Reg.dagStart Reg.dagControl), x⟩]) s ∧ ¬ResetSince since := by
  have run : Scene.Runs (.quiet (.start 0 false) {}) Stock.startsUnread.occurrences
      Stock.startsUnread.scene := Rehearsal.rehearse_runs ..
  have starts : Stock.startsUnread.lastPasses Stock.isStart := by decide +kernel
  have unreset : ∀ said ∈ ownTalk Stock.startsUnread.before,
      ¬said.request.Writes Reg.pllReconfig := by decide +kernel
  obtain ⟨e, htest, hlast⟩ := Rehearsal.occurrences_of_lastPasses starts
  obtain ⟨party, x, rfl⟩ := Stock.start_of_isStart htest
  rw [hlast] at run
  obtain ⟨rfl, ctx, before, since, hbefore, -, -⟩ := Stock.settled_of_start run
  rw [hbefore] at run unreset
  refine ⟨_, ctx, x, before, since, run, ?_⟩
  obtain ⟨t, upTo, -⟩ := run.of_snoc
  rw [List.append_cons] at upTo unreset
  rw [Stock.resetSince_iff upTo]
  refine Stock.Unreset.not_restored fun said hsaid ↦ unreset said ?_
  rw [ownTalk_append]
  exact List.mem_append_right _ hsaid

end HashBoard
