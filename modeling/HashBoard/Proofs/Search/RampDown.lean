import HashBoard.Proofs.Clock.Programming
import HashBoard.Proofs.Halt.Debts
import HashBoard.Proofs.Intensity.ControlWord
import HashBoard.Proofs.Search.Programmed
import HashBoard.Proofs.Search.Stop

/-!
# Where the ramp of a search starts

A search writes the flag word once, when it programs its work, and reads it back when it stops the
core. On a board that keeps what is written, it finds what it wrote, unless the board was halted in
between: a halt stops the core softly too, and has walked the intensity down already. So the ramp
starts from the level in the flag word that was programmed, which is the intensity that was asked
for unless the denominator field runs into it.
-/

namespace HashBoard

open Routine Board

variable {ν : Type} {talk talk' : List (Answered ν)}

namespace RampDown

/-- The flags are written at some pacing, and the board takes them. -/
def flagsWritten (i : Intensity) : Answered ν :=
  ⟨.call (.write i.controlWord Reg.coreFlags), .ok ()⟩

/-- The flags are read. -/
def flagsRead (flags : Except LinkFault Word) : Answered ν := ⟨.call (.read Reg.coreFlags), flags⟩

/-! ### The flag word between programming and stopping -/

/-- The flag word is not written unless the board is halted. -/
def Spares (talk : List (Answered ν)) : Prop :=
  (∀ said ∈ talk, ¬said.request.MayHalt) → ∀ said ∈ talk, ¬said.request.Writes Reg.coreFlags

theorem Spares.append (h : Spares talk) (h' : Spares talk') : Spares (talk ++ talk') := by
  intro unhalted
  obtain ⟨hfirst, hrest⟩ := List.forall_mem_append.mp unhalted
  exact List.forall_mem_append.mpr ⟨h hfirst, h' hrest⟩

theorem spares_of_unwritten (h : ∀ said ∈ talk, ¬said.request.Writes Reg.coreFlags) :
    Spares talk := fun _ ↦ h

theorem Spares.cons {said : Answered ν} (h : Spares talk)
    (hsaid : ¬said.request.Writes Reg.coreFlags) : Spares (said :: talk) := by
  have first : Spares [said] := spares_of_unwritten (List.forall_mem_singleton.mpr hsaid)
  exact first.append h

theorem spares_nil : Spares ([] : List (Answered ν)) := spares_of_unwritten (List.forall_mem_nil _)

theorem spares_flatten {laps : List (List (Answered ν))} (h : ∀ lap ∈ laps, Spares lap) :
    Spares laps.flatten := by
  induction laps with
  | nil => exact spares_of_unwritten (List.forall_mem_nil _)
  | cons lap laps ih =>
    obtain ⟨hfirst, hrest⟩ := List.forall_mem_cons.mp h
    rw [List.flatten_cons]
    exact hfirst.append (ih hrest)

variable [Quantity ν] {b : Board} {work : Work}

theorem spares_watchIfDue {watched t u : Micros} (run : Run (b.watchIfDue watched t) talk u) :
    Spares talk := by
  rw [watchIfDue] at run
  split at run
  · obtain ⟨check, _, _, rfl, hcheck, hend⟩ := run_bind_iff.mp run
    obtain ⟨rfl, -⟩ := run_done_iff.mp hend
    rw [List.append_nil]
    exact Debt.unwritten_of_run_checkTelemetry b hcheck
  · obtain ⟨rfl, -⟩ := run_done_iff.mp run
    exact spares_of_unwritten (List.forall_mem_nil _)

theorem spares_finish {r : Round} {nonces : List UInt64} (f : Finish (ν := ν) b work r nonces) :
    Spares f.said := by
  have quiet (r : Request ν) (h : r.isQuiet) := r.not_writes_of_isQuiet h Reg.coreFlags
  have hsampling := (only_checkStall quiet id b r.stall).of_run f.run_sampling
  have hchecking := (only_countChecks quiet r.checks fun _ _ ↦ id).of_run f.run_checking
  have hhanding := (only_forEach fun nonce _ ↦
    only_report quiet b work nonce fun _ _ ↦ id).of_run f.run_handing
  have htelling := (only_keepAccount quiet (fun _ ↦ id) (fun _ _ ↦ id) _ _ _ _).of_run f.run_telling
  refine (spares_of_unwritten hsampling).append ((spares_of_unwritten hchecking).append
    ((spares_of_unwritten hhanding).append (Spares.cons ((spares_of_unwritten htelling).append
      ((spares_watchIfDue f.run_watching).append ?_)) id)))
  split
  · exact spares_nil.cons id
  · exact spares_nil

theorem spares_searchRound {r : Round} {x : Round ⊕ Except BoardError SearchExit}
    (run : Run (b.searchRound work r) talk x) : Spares talk := by
  have room : RoomToGather fun r : Request ν ↦ ¬r.Writes Reg.coreFlags :=
    { quiet := fun r h ↦ r.not_writes_of_isQuiet h _
      slots := fun _ _ ↦ id
      interrupts := fun _ _ ↦ id
      acquire := id
      release := id
      clears := (by decide : Reg.coreEnable ≠ Reg.coreFlags) }
  have gathers {gathering : List (Answered ν)} {y : Except BoardError (List UInt64)}
      (h : Run b.gatherNonces gathering y) : Spares gathering :=
    spares_of_unwritten ((only_gatherNonces room b).of_run h)
  cases roundCourse_of_run run with
  | newWork => exact spares_nil.cons id
  | shutdown => exact (spares_nil.cons id).cons id
  | failed _ hgather => exact ((gathers hgather).cons id).cons id
  | finished f _ hgather => exact (((gathers hgather).append (spares_finish f)).cons id).cons id

/-! ### The parts of a search -/

/-- A search writes the flags at the pacing that the tuning wants, or else at the configured one,
and in the end it reads them, walks down from there and switches the core off. In between it writes
them only to halt the board, and it holds the lock where it reads them. -/
theorem parts_of_run {a : Except BoardError SearchExit} (run : Run (b.search work) talk a)
    (taken : ∀ value x, ⟨.call (.write value Reg.coreFlags), x⟩ ∈ talk → x = .ok ()) :
    ∃ pre wanted mid flags post,
      talk = pre ++ flagsWritten (wanted.getD b.settings.intensity) ::
        (mid ++ flagsRead flags :: post) ∧
      ⟨.intensityOverride, wanted⟩ ∈ pre ∧
      (accesses post).map Answered.request = switchOff flags ∧ Spares mid ∧
      Stop.Held (pre ++ flagsWritten (wanted.getD b.settings.intensity) :: mid) := by
  obtain ⟨under, stop, event, rfl, hunder, hstop⟩ := Stop.exists_of_run_search run
  have decided : Stop.Holds (DecidedOn a) (⟨.acquire, ()⟩ :: under) :=
    (Stop.ensures_runSearch b work ⟨[], [], rfl, List.forall_mem_nil _, trivial⟩).of_run hunder
  obtain ⟨program, x, rest, rfl, hprogram, hrest⟩ :=
    (run_bind_iff (p := b.programWork work)).mp hunder
  obtain ⟨job, wanted, f, mention, answer, last, rfl, -, hlast⟩ :=
    Programmed.exists_of_run_programWork hprogram
  obtain rfl : answer = .ok () := taken _ _ (by simp)
  obtain ⟨rfl, henable⟩ := hlast rfl
  obtain ⟨begun, _, rfl, hnow⟩ := (run_ask_iff (r := .revise _)).mp hrest
  obtain ⟨t, _, rfl, hloop⟩ := (run_ask_iff (r := .now)).mp hnow
  obtain ⟨laps, r, lap, _, _, rfl, hlaps, hlap, hend⟩ := exists_of_run_loop asks_searchRound hloop
  obtain ⟨rfl, rfl⟩ := run_done_iff.mp hend
  -- stopping the core reads the flags first, which is the read that its accesses start with
  obtain ⟨flags, after, rfl, -⟩ := (run_ask_iff (r := .call (.read Reg.coreFlags))).mp hstop
  obtain ⟨flags', walk, haccesses, hwalk⟩ := (Stop.ensures_stopCore []).of_run hstop
  have first : ⟨.call (.read Reg.coreFlags), flags⟩ :: accesses after =
      ⟨.call (.read Reg.coreFlags), flags'⟩ :: walk :=
    (List.filter_cons_of_pos rfl).symm.trans haccesses
  cases first
  refine ⟨⟨.acquire, ()⟩ :: (job ++ [⟨.intensityOverride, wanted⟩, ⟨.revise f, ()⟩,
    ⟨.note mention, ()⟩]), wanted, last ++ ⟨.revise _, begun⟩ :: ⟨.now, t⟩ :: (laps.flatten ++ lap),
    flags, after ++ Stop.leave event, by simp [flagsWritten, flagsRead], by simp, ?_, ?_, ?_⟩
  · have leaves : accesses (Stop.leave (ν := ν) event) = [] := rfl
    rw [accesses_append, leaves, List.append_nil]
    exact hwalk
  · have enables : Spares last := by
      refine spares_of_unwritten (unwritten_of_accesses henable (List.forall_mem_singleton.mpr ?_))
      exact (by decide : Reg.coreEnable ≠ Reg.coreFlags)
    have rounds : Spares laps.flatten :=
      spares_flatten (hlaps.forall fun _ _ _ ↦ spares_searchRound)
    exact enables.append (((rounds.append (spares_searchRound hlap)).cons id).cons id)
  · have held : Stop.Held (⟨.acquire, ()⟩ :: _) := decided.mono fun _ _ ↦ trivial
    simpa [flagsWritten] using held

end RampDown

/-! ### Runs -/

section Runs

variable [Quantity ν] {b : Board} {memory : Memory ν} {feed : Feed} {work : Work}
  {es mid : List (Occurrence (b.errands (ν := ν)))} {s : Scene (b.errands (ν := ν))}

open RampDown

/-- A search programs its flags at some pacing, and stops the core from the flags that it finds. -/
structure SoftStop (b : Board) (work : Work)
    (es pre mid post : List (Occurrence (b.errands (ν := ν)))) (pacing : Intensity)
    (flags : Word) : Prop where
  /-- The flags are written, and read in the end. -/
  parts : ∃ before, es = before ++ .begins (.search work) :: (pre ++
    .talks .owner (flagsWritten pacing) :: (mid ++ .talks .owner (flagsRead (.ok flags)) :: post))
  /-- All of it belongs to the search. -/
  within : ∀ e ∈ pre ++ (mid ++ post), e.IsWithin
  /-- The pacing is what the tuning wants, or else what is configured. -/
  paces : ∃ wanted, ⟨.intensityOverride, wanted⟩ ∈ ownTalk pre ∧
    pacing = wanted.getD b.settings.intensity
  /-- The intensity is walked down from the flags that were found, and the core switched off. -/
  walks : (accesses (ownTalk post)).map Answered.request = switchOff (.ok flags)
  /-- They are what was left in the register, -/
  found : flags = contents Reg.coreFlags pacing.controlWord (talkOf mid)
  /-- which is what the search wrote, unless the board was halted. -/
  kept : (∀ said ∈ talkOf mid, ¬said.request.MayHalt) → flags = pacing.controlWord

/-- An owner that holds the lock finds the flags as it left them, unless the board was halted. -/
theorem contents_of_unhalted {w : Word} (run : Scene.Runs (.quiet memory feed) es s)
    (before : List (Occurrence (b.errands (ν := ν)))) (part : before ++ mid <+: es)
    (held : Stop.Held (ownTalk (before ++ mid))) (spares : Spares (ownTalk mid))
    (unhalted : ∀ said ∈ talkOf mid, ¬said.request.MayHalt) :
    contents Reg.coreFlags w (talkOf mid) = w := by
  obtain ⟨t, upTo⟩ := run.of_prefix part
  obtain ⟨earlier, stretch, hheld, hkept, -⟩ := held
  refine contents_of_unwritten (upTo.unwritten (upTo.holds hheld hkept) unhalted ?_)
  exact spares fun said hs ↦ unhalted said (ownTalk_subset mid hs)

theorem softStop_of_run {a : Except BoardError SearchExit} {w : Word}
    (run : Scene.Runs (.quiet memory feed) (es ++ [.ends (.search work) a]) s)
    (faithful : Faithful Reg.coreFlags w (talkOf es)) :
    ∃ pre mid post pacing flags, SoftStop b work es pre mid post pacing flags := by
  obtain ⟨before, since, rfl, hwithin, hrun⟩ := run.run_of_ends rfl
  have taken (value : Word) (x : Except LinkFault Unit)
      (h : ⟨.call (.write value Reg.coreFlags), x⟩ ∈ ownTalk since) : x = .ok () := by
    have hes : ⟨.call (.write value Reg.coreFlags), x⟩ ∈
        talkOf (before ++ .begins (.search work) :: since) := by
      rw [List.append_cons, talkOf_append]
      exact List.mem_append_right _ (ownTalk_subset since h)
    exact faithful.taken hes
  obtain ⟨_, wanted, _, flags, _, htalk, hwanted, hwalk, spares, held⟩ := parts_of_run hrun taken
  obtain ⟨pre, rest, rfl, rfl, hrest⟩ := ownTalk_eq_append_cons htalk
  obtain ⟨mid, post, rfl, rfl, rfl⟩ := ownTalk_eq_append_cons hrest
  set pacing := wanted.getD b.settings.intensity
  -- what others ask meanwhile stands between the write and the read as well
  have htold : talkOf (before ++ .begins (.search work) :: (pre ++
      .talks .owner (flagsWritten pacing) :: (mid ++ .talks .owner (flagsRead flags) :: post))) =
        talkOf (before ++ .begins (.search work) :: pre) ++
          flagsWritten pacing :: (talkOf mid ++ flagsRead flags :: talkOf post) := by
    rw [← List.cons_append, ← List.append_assoc, talkOf_append]
    exact congrArg _ (congrArg (List.cons _) (talkOf_append mid _))
  rw [htold] at faithful
  obtain rfl : flags = .ok (contents Reg.coreFlags pacing.controlWord (talkOf mid)) :=
    faithful.read_back
  refine ⟨pre, mid, post, pacing, _, ⟨before, rfl⟩, ?_, ⟨wanted, hwanted, rfl⟩, hwalk, rfl, ?_⟩
  · intro e he
    exact hwithin e (by simp at he ⊢; tauto)
  · refine contents_of_unhalted run (before ++ .begins (.search work) ::
      (pre ++ [.talks .owner (flagsWritten pacing)])) (by simp) ?_ spares
    have own : ownTalk (before ++ .begins (.search work) ::
        (pre ++ [.talks .owner (flagsWritten pacing)]) ++ mid) =
          ownTalk before ++ (ownTalk pre ++ flagsWritten pacing :: ownTalk mid) := by
      have begun : ownTalk (.begins (.search work) ::
          (pre ++ [.talks .owner (flagsWritten pacing)]) : List (Occurrence b.errands)) =
            ownTalk pre ++ [flagsWritten pacing] := ownTalk_snoc_own pre _
      rw [ownTalk_append, ownTalk_append, begun, List.append_assoc, List.append_assoc]
      rfl
    rw [own]
    exact held.prepend (ownTalk before)

end Runs

/-- How the fields of the flag word stand to the knobs, and where the ramp of a search starts. -/
structure Board.RampsDown (ν : Type) [Quantity ν] (b : Board) : Prop where
  /-- Patience and the two bits are those of their knobs, and the top byte is the level. -/
  fields : ∀ i : Intensity, field 24 8 i.controlWord = i.level ∧
    field 8 8 i.controlWord = i.patience.toNat ∧
    i.controlWord.toNat.testBit 6 = decide (i.patience ≠ 0) ∧
    i.controlWord.toNat.testBit 0 = decide (i.numerator ≠ 0)
  /-- All fields are those of their knobs exactly if the denominator has room. -/
  apart : ∀ i : Intensity, i.IsApart ↔ i.numerator = 0 ∨ i.denominator.toNat % 64 ≤ 32
  /-- The level is the intensity that was asked for also where its lowest bit is set anyway. -/
  level : ∀ i : Intensity, i.level = i.numerator.toNat ↔
    i.numerator = 0 ∨ i.denominator.toNat % 64 ≤ 32 ∨ i.numerator.toNat % 2 = 1
  /-- A ramp steps down from the level that there is, and keeps all bits below it. -/
  walks : ∀ flags, ((Intensity.ramp flags).map (field 24 8)).head? =
      (if field 24 8 flags = 0 then none else some (field 24 8 flags)) ∧
    (Intensity.ramp flags).map (field 24 8) =
      Intensity.levels ((field 24 8 flags + 7) / 8) (field 24 8 flags) ∧
    ∀ word ∈ Intensity.ramp flags, field 0 24 word = field 0 24 flags
  /-- On a board that keeps its flags, a search that ends walks down from what it programmed, unless
  the board was halted meanwhile. -/
  stops : ∀ (memory : Memory ν) feed (es : List (Occurrence b.errands)) work a s w,
    Scene.Runs (.quiet memory feed) (es ++ [.ends (.search work) a]) s →
    Faithful Reg.coreFlags w (talkOf es) →
    ∃ pre mid post pacing flags, SoftStop b work es pre mid post pacing flags

/-- **The ramp starts from the level that was programmed.** -/
theorem ramps_down (ν : Type) [Quantity ν] (b : Board) : b.RampsDown ν where
  fields i := ⟨i.field_level, i.field_patience, i.testBit_patient, i.testBit_paced⟩
  apart i := i.isApart_iff
  level i := i.level_eq_iff
  walks flags := ⟨Intensity.head_ramp flags, Intensity.ramp_walks flags⟩
  stops _ _ _ _ _ _ _ run faithful := softStop_of_run run faithful

/-- The intensity is not kept at 20/33. -/
theorem intensity_not_kept :
    ¬∀ i : Intensity, field 24 8 i.controlWord = i.numerator.toNat := by
  intro kept
  have changed : field 24 8 ({ numerator := 20, denominator := 33 } : Intensity).controlWord = 21 :=
    by decide
  cases (kept _).symm.trans changed

/-! ### A search at 20/40 -/

namespace RampDown

/-- A board that is paced at 20/40. -/
def pacedBoard : Board :=
  { plainBoard with
    settings := { plainBoard.settings with intensity := { numerator := 20, denominator := 40 } } }

/-- A search goes on for a while, and is kicked by a guest. -/
def pacedSearch : Rehearsal (pacedBoard.errands (ν := Rat)) :=
  .rehearse (.start 0 false) {} {}
    [.begins (.search plainWork), .goes .owner 21, .arrives 0 .kick, .goes (.guest 0) 10,
      .goes .owner 80]

def endsSearch : Occurrence (pacedBoard.errands (ν := Rat)) → Bool
  | .ends (.search _) _ => true
  | _ => false

/-- The levels that the flags are written at. -/
def levelsWritten (talk : List (Answered ν)) : List Nat :=
  (writesTo Reg.coreFlags talk).filterMap fun
    | .call (.write value _) => some (field 24 8 value)
    | _ => none

end RampDown

/-- It is programmed at 21, and walks down from there. -/
theorem ramps_down_from_21 : ∃ es work a, ∃ s : Scene (RampDown.pacedBoard.errands (ν := Rat)),
    Scene.Runs (.quiet (.start 0 false) {}) (es ++ [.ends (.search work) a]) s ∧
      RampDown.levelsWritten (talkOf es) = [21, 21, 18, 15, 12, 9, 6, 3] ∧
      ∃ pre mid post pacing flags,
        SoftStop RampDown.pacedBoard work es pre mid post pacing flags := by
  have run : Scene.Runs (.quiet (.start 0 false) {}) RampDown.pacedSearch.occurrences
      RampDown.pacedSearch.scene := Rehearsal.rehearse_runs ..
  have ends : RampDown.pacedSearch.lastPasses RampDown.endsSearch := by decide +kernel
  obtain ⟨es, hes, faithful, written⟩ : ∃ es, RampDown.pacedSearch.before = es ∧
      Faithful Reg.coreFlags 0 (talkOf es) ∧
        RampDown.levelsWritten (talkOf es) = [21, 21, 18, 15, 12, 9, 6, 3] :=
    ⟨_, rfl, by decide +kernel, by decide +kernel⟩
  obtain ⟨e, htest, hlast⟩ := Rehearsal.occurrences_of_lastPasses ends
  rw [hlast, hes] at run
  unfold RampDown.endsSearch at htest
  split at htest
  · exact ⟨es, _, _, _, run, written,
      (ramps_down Rat RampDown.pacedBoard).stops _ _ es _ _ _ 0 run faithful⟩
  · cases htest

end HashBoard
