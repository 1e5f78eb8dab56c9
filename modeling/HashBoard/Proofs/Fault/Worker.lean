import HashBoard.Board.BringUp
import HashBoard.Proofs.Fault.EpochChange
import HashBoard.Proofs.Scene.Rehearsal
import HashBoard.Worker

/-!
# Why an operation fails

A board that is brought up needs nothing but its connection, and a search ends early only where the
settings make a fault fatal. What a worker ends with is passed on from there, but for work it cannot
do: shutdown and a halt end no worker with an error. However a worker ends, disconnecting the board
is the last thing it does.
-/

namespace HashBoard

open Routine

variable {ν : Type} {s t : List (Answered ν)}

/-- Why a worker fails. -/
inductive Worker.Fails (b : Board) (talk : List (Answered ν)) : BoardError → Prop
  /-- It was given work of an algorithm the board cannot do. -/
  | unsupported {work : Work} : ⟨.latestWork, some work⟩ ∈ talk → work.isSupported = false →
    Fails b talk (.unsupportedWork work.algorithm)
  /-- A fault was made fatal. -/
  | escalated {e : BoardError} : b.Escalates talk e → Fails b talk e
  /-- An epoch came without the light cache that the board is to be given. -/
  | missingCache {wanted : Word} {ctx : EpochContext} : b.settings.cacheStrategy = .upload →
    ⟨.epochContext wanted, some ctx⟩ ∈ talk → ctx.lightCache = none →
    Fails b talk (.missingCache ctx.epoch)
  /-- A piece of the light cache could not be uploaded, twice. -/
  | uploadFailed {bytes : ByteArray} {offset : UInt64} {fault fault' : LinkFault} :
    b.settings.cacheStrategy = .upload →
    [⟨.call (.upload bytes offset), .error fault⟩,
      ⟨.call (.upload bytes offset), .error fault'⟩].Sublist talk →
    Fails b talk (.uploadFailed offset)

/-- What a worker does last. -/
def Worker.farewell : List (Answered ν) :=
  [⟨.stopKicker, ()⟩, ⟨.call .disconnect, ()⟩, ⟨.note .disconnected, ()⟩]

namespace Fault

open Board

/-! ## Bringing a board up -/

section BringUp

variable [Quantity ν] (endpoint : Endpoint) (index : Nat) (settings : Settings)

theorem ensures_bringUp :
    (bringUp endpoint index settings).Ensures (transcript ν) (Explains fun talk e ↦
      ∃ fault, e = .link fault ∧ talk = [⟨.connect endpoint, .error fault⟩]) [] := by
  have connects : (connect endpoint index settings).Ensures (transcript ν) (Explains fun talk e ↦
      ∃ fault, e = .link fault ∧ talk = [⟨.connect endpoint, .error fault⟩]) [] := by
    refine (ensures_request (.connect endpoint) []).seq ?_
    rintro (fault | -) t rfl
    · exact ⟨fault, rfl, rfl⟩
    · exact Ensures.after fun _ _ _ ↦ Ensures.after fun _ _ _ ↦ Ensures.after fun _ _ _ ↦
        Ensures.after fun _ _ _ ↦ Ensures.after fun _ _ _ ↦ Ensures.after fun _ _ _ ↦ trivial
  refine connects.seq ?_
  rintro (e | b) t ht
  · exact ht
  · exact Ensures.after fun _ _ _ ↦ trivial

variable {endpoint index settings}

theorem run_bringUp_error_iff {talk : List (Answered ν)} {e : BoardError} :
    Run (bringUp endpoint index settings) talk (.error e) ↔
      ∃ fault, e = .link fault ∧ talk = [⟨.connect endpoint, .error fault⟩] := by
  constructor
  · intro h
    exact (ensures_bringUp endpoint index settings).of_run h
  · rintro ⟨fault, rfl, rfl⟩
    exact ⟨.done (.error (.link fault)), .cons (.ask ..) (.nil _), .done _⟩

end BringUp

/-! ## Searching -/

/-- A round that ends what it is a round of explains an error; one that leads on does not. -/
def ExplainsRound {σ α : Type} (why : List (Answered ν) → BoardError → Prop) :
    σ ⊕ Except BoardError α → List (Answered ν) → Prop
  | .inl _, _ => True
  | .inr x, talk => Explains why x talk

theorem ensures_rounds {σ α : Type} {step : σ → Routine ν (σ ⊕ Except BoardError α)}
    {why : List (Answered ν) → BoardError → Prop}
    (h : ∀ state s, (step state).Ensures (transcript ν) (ExplainsRound why) s) (state : σ)
    (s : List (Answered ν)) : (repeating state step).Ensures (transcript ν) (Explains why) s := by
  refine ensures_repeating (fun _ _ ↦ True) trivial ?_
  intro state s _
  refine ⟨trivial, (h state s).mono ?_⟩
  rintro (state' | x) t ht
  · trivial
  · exact ht

section Search

variable (b : Board) (work : Work)

theorem ensures_programPacing (intensity : Intensity) (s : List (Answered ν)) :
    (b.programPacing intensity).Ensures (transcript ν) (Explains b.Escalates) s := by
  refine Ensures.after fun _ _ _ ↦ Ensures.after ?_
  rintro (fault | -) t -
  · exact Ensures.after fun _ t _ ↦ ensures_escalate b _ _
  · trivial

theorem ensures_gatherNonces (s : List (Answered ν)) :
    b.gatherNonces.Ensures (transcript ν) (Explains b.Escalates) s := by
  rw [gatherNonces]
  cases b.settings.nonceReporting with
  | polled => exact Ensures.after fun _ _ _ ↦ Ensures.after fun _ _ _ ↦ trivial
  | interrupt =>
    refine Ensures.after fun _ _ _ ↦ Ensures.after fun answer _ _ ↦ Ensures.after fun _ t _ ↦ ?_
    rcases answer with fault | nonce
    · refine Ensures.after fun _ t _ ↦ (ensures_escalate b _ _).seq ?_
      rintro (e | -) u hu
      · exact hu
      · trivial
    · cases nonce <;> trivial

variable [Quantity ν]

theorem ensures_searchRound (r : Round) (s : List (Answered ν)) :
    (b.searchRound work r).Ensures (transcript ν) (ExplainsRound b.Escalates) s := by
  refine Ensures.after fun m _ _ ↦ ?_
  split
  · trivial
  · refine Ensures.after fun cancelled t _ ↦ ?_
    split
    · trivial
    · refine (ensures_gatherNonces b t).seq ?_
      rintro (e | nonces) t ht
      · exact ht
      · refine Ensures.after fun stalled _ _ ↦ Ensures.after fun counted _ _ ↦
          Ensures.after fun _ _ _ ↦ Ensures.after fun _ _ _ ↦ Ensures.after fun _ _ _ ↦
            Ensures.after fun _ _ _ ↦ ?_
        split
        · exact Ensures.after fun _ _ _ ↦ trivial
        · trivial

/-- Whatever a search is answered, it fails only where a fault is made fatal. -/
theorem ensures_search (s : List (Answered ν)) :
    (b.search work).Ensures (transcript ν) (Explains b.Escalates) s := by
  have runs (s : List (Answered ν)) :
      (b.runSearch work).Ensures (transcript ν) (Explains b.Escalates) s := by
    have programs : (b.programWork work).Ensures (transcript ν) (Explains b.Escalates) s := by
      refine Ensures.after fun _ _ _ ↦ Ensures.after fun intensity t _ ↦ ?_
      refine (ensures_programPacing b intensity t).seq ?_
      rintro (e | -) u hu
      · exact hu
      · exact Ensures.after fun _ _ _ ↦ Ensures.after fun _ _ _ ↦ trivial
    refine programs.seq ?_
    rintro (e | -) t ht
    · exact ht
    · exact Ensures.after fun _ _ _ ↦ Ensures.after fun now t _ ↦
        ensures_rounds (ensures_searchRound b work) _ t
  refine Ensures.after fun _ t _ ↦ (runs t).seq ?_
  rintro (e | exit) t ht
  · exact Ensures.after fun _ _ hu ↦ Ensures.after fun _ _ hv ↦ Ensures.after fun _ _ hw ↦
      Ensures.after fun _ _ hx ↦ ht.mono (hu.trans (hv.trans (hw.trans hx)))
  · exact Ensures.after fun _ _ _ ↦ Ensures.after fun _ _ _ ↦ Ensures.after fun _ _ _ ↦
      Ensures.after fun _ _ _ ↦ trivial

end Search

/-! ## Working -/

section Work

open Worker

variable {b : Board} {e : BoardError}

theorem fails_mono (h : Worker.Fails b s e) (hst : s <+: t) : Worker.Fails b t e := by
  cases h with
  | unsupported hwork hsup => exact .unsupported (hst.subset hwork) hsup
  | escalated h => exact .escalated (h.mono hst)
  | missingCache hup hctx hnone => exact .missingCache hup (hst.subset hctx) hnone
  | uploadFailed hup htwice => exact .uploadFailed hup (htwice.trans hst.sublist)

/-- An epoch change that ends early ends the worker, unless it was for a halt or for shutdown. -/
theorem fails_of_abandons {wanted : Word} {ctx : EpochContext}
    (hctx : ⟨.epochContext wanted, some ctx⟩ ∈ t) (h : b.Abandons ctx t e)
    (terminal : e.isTerminal) (hne : e ≠ .cancelled) : Worker.Fails b t e := by
  cases h with
  | halted => cases terminal
  | cancelled => exact absurd rfl hne
  | missingCache hup hnone => exact .missingCache hup hctx hnone
  | uploadFailed hup htwice => exact .uploadFailed hup htwice
  | escalated h => exact .escalated h

variable [Quantity ν] (b)

theorem ensures_prepare (epoch : Option Word) (wanted : Word) (s : List (Answered ν)) :
    (prepare b epoch wanted).Ensures (transcript ν) (ExplainsRound (Worker.Fails b)) s := by
  refine (ensures_request (.epochContext wanted) s).seq ?_
  rintro (- | ctx) t rfl
  · exact Ensures.after fun _ _ _ ↦ Ensures.after fun _ _ _ ↦ trivial
  · have kept := (ensures_prepareEpoch b ctx (s ++ [⟨.epochContext wanted, some ctx⟩])).keep
      (R := fun t ↦ (⟨.epochContext wanted, some ctx⟩ : Answered ν) ∈ t)
      (List.mem_append_right _ (.head _)) ?_
    · refine kept.seq ?_
      rintro (e | outcome) t ⟨ht, hctx⟩
      · have rest (hne : e ≠ .cancelled) : (if e.isTerminal then pure (.inr (.error e)) else do
            note (.epochNotPrepared wanted e)
            idleThen epoch : Routine ν Turn).Ensures (transcript ν)
              (ExplainsRound (Worker.Fails b)) t := by
          split
          · rename_i terminal
            exact fails_of_abandons hctx ht terminal hne
          · exact Ensures.after fun _ _ _ ↦ Ensures.after fun _ _ _ ↦ trivial
        cases e with
        | cancelled => trivial
        | _ => exact rest nofun
      · trivial
    · intro t u r x ht hm
      rw [moves_transcript hm]
      exact List.mem_append_left _ ht

theorem ensures_serve (epoch : Option Word) {work : Work} (hs : ⟨.latestWork, some work⟩ ∈ s) :
    (serve b epoch work).Ensures (transcript ν) (ExplainsRound (Worker.Fails b)) s := by
  have idles (t : List (Answered ν)) :
      (idleThen epoch).Ensures (transcript ν) (ExplainsRound (Worker.Fails b)) t :=
    Ensures.after fun _ _ _ ↦ trivial
  rw [serve]
  split
  · rename_i hsup
    exact Ensures.after fun _ _ ht ↦ .unsupported (ht.subset hs) (by simpa using hsup)
  · refine Ensures.after fun m t _ ↦ ?_
    split
    · exact idles t
    · split
      · exact ensures_prepare b epoch work.epoch t
      · refine Ensures.after fun busy t _ ↦ ?_
        split
        · exact idles t
        · refine (ensures_search b work t).seq ?_
          rintro (e | exit) u hu
          · exact .escalated hu
          · trivial

theorem ensures_turn (epoch : Option Word) (s : List (Answered ν)) :
    (turn b epoch).Ensures (transcript ν) (ExplainsRound (Worker.Fails b)) s := by
  refine Ensures.after fun cancelled t _ ↦ ?_
  split
  · trivial
  · refine Ensures.after fun _ t _ ↦ (ensures_request .latestWork t).seq ?_
    rintro (- | work) u rfl
    · exact Ensures.after fun _ _ _ ↦ trivial
    · exact ensures_serve b epoch (List.mem_append_right _ (.head _))

/-- Whatever a worker is answered, it fails only for a cause, and takes its leave at the end. -/
theorem ensures_run (s : List (Answered ν)) :
    (Worker.run b).Ensures (transcript ν)
      (fun a t ↦ Explains (Worker.Fails b) a t ∧ farewell <:+ t) s := by
  have loops (s : List (Answered ν)) :
      (workLoop b).Ensures (transcript ν) (Explains (Worker.Fails b)) s := by
    refine (ensures_rounds (ensures_turn b) none s).seq ?_
    rintro (e | -) t ht
    · exact ht
    · exact Ensures.after fun _ _ _ ↦ Ensures.after fun _ _ _ ↦ trivial
  refine Ensures.after fun seen _ _ ↦ Ensures.after fun _ t _ ↦ (loops t).seq ?_
  intro result u hu
  refine (ensures_request .stopKicker u).seq ?_
  rintro - v rfl
  have leaves : (disconnect : Routine ν _).Ensures (transcript ν)
      (fun _ t ↦ t = u ++ farewell) (u ++ [⟨.stopKicker, ()⟩]) := by
    refine (ensures_request (.call .disconnect) _).seq ?_
    rintro - w rfl
    refine (ensures_request (.note .disconnected) _).mono ?_
    rintro - w rfl
    rw [farewell, List.append_assoc, List.append_assoc]
    rfl
  refine leaves.seq ?_
  rintro - w rfl
  have hgrown : u <+: u ++ farewell := List.prefix_append _ _
  refine ⟨?_, List.suffix_append _ _⟩
  cases result with
  | error e => exact fails_mono hu hgrown
  | ok => trivial

end Work

end Fault

open Board

/-- **Faults are absorbed.** Bringing a board up fails exactly if its connection is refused. An
epoch change, a search and a worker fail only for the causes that their transcript shows, and a
worker disconnects the board however it ends.

A run here is one with any replies whatever, so that it may have any pattern of faults in it; and
whatever others do to the board meanwhile, what an owner asks and is answered is such a run. -/
theorem fails_only_for_cause [Quantity ν] (b : Board) :
    (∀ endpoint index settings (talk : List (Answered ν)) e,
      Run (bringUp endpoint index settings) talk (.error e) ↔
        ∃ fault, e = .link fault ∧ talk = [⟨.connect endpoint, .error fault⟩]) ∧
    (∀ ctx (talk : List (Answered ν)) e,
      Run (b.prepareEpoch ctx) talk (.error e) → b.Abandons ctx talk e) ∧
    (∀ work (talk : List (Answered ν)) e,
      Run (b.search work) talk (.error e) → b.Escalates talk e) ∧
    ∀ (talk : List (Answered ν)) a, Run (Worker.run b) talk a →
      (∀ e, a = .error e → Worker.Fails b talk e) ∧ Worker.farewell <:+ talk := by
  refine ⟨?_, ?_, ?_, ?_⟩
  · intro endpoint index settings talk e
    exact Fault.run_bringUp_error_iff
  · intro ctx talk e h
    exact (Fault.ensures_prepareEpoch b ctx []).of_run h
  · intro work talk e h
    exact (Fault.ensures_search b work []).of_run h
  · intro talk a h
    obtain ⟨hexplained, hfarewell⟩ := (Fault.ensures_run b []).of_run h
    refine ⟨?_, hfarewell⟩
    rintro e rfl
    exact hexplained

namespace Fault

/-- A board whose settings make faults fatal. -/
def strictBoard : Board :=
  { plainBoard with settings := { plainBoard.settings with dieOnError := true } }

/-- Work the board cannot do. -/
def foreignWork : Work where
  header := .zero
  boundary := .zero
  startNonce := 0
  epoch := 1
  algorithm := "progpow"

/-- A search programs its pacing on a board that does not take the core flags. -/
def refusedPacing : Rehearsal (strictBoard.errands (ν := Rat)) :=
  .rehearse (.start 0 false) {} { brokenWrites := [Reg.coreFlags] }
    [.begins (.search foreignWork), .goes .owner 40]

/-- A worker is given work the board cannot do. -/
def refusedWork : Rehearsal (Worker.duty strictBoard (ν := Rat)) :=
  .rehearse (.start 0 false) { latest := some foreignWork } {} [.begins (), .goes .owner 10]

/-- A search fails. -/
def isFailedSearch : Occurrence (strictBoard.errands (ν := Rat)) → Bool
  | .ends (.search _) (.error _) => true
  | _ => false

/-- A worker fails. -/
def isFailedWorker : Occurrence (Worker.duty strictBoard (ν := Rat)) → Bool
  | .ends () (.error _) => true
  | _ => false

theorem exists_failedSearch : ∃ work, ∃ talk : List (Answered Rat), ∃ e,
    Run (strictBoard.search work) talk (.error e) := by
  have run : Scene.Runs (.quiet (.start 0 false) {}) refusedPacing.occurrences
      refusedPacing.scene := Rehearsal.rehearse_runs ..
  have fails : refusedPacing.lastPasses isFailedSearch := by decide +kernel
  obtain ⟨e, htest, hlast⟩ := Rehearsal.occurrences_of_lastPasses fails
  rw [hlast] at run
  unfold isFailedSearch at htest
  split at htest
  · obtain ⟨-, since, -, -, h⟩ := run.run_of_ends rfl
    exact ⟨_, ownTalk since, _, h⟩
  · cases htest

theorem exists_failedWorker : ∃ talk : List (Answered Rat), ∃ e,
    Run (Worker.run strictBoard) talk (.error e) := by
  have run : Scene.Runs (.quiet (.start 0 false) { latest := some foreignWork })
      refusedWork.occurrences refusedWork.scene := Rehearsal.rehearse_runs ..
  have fails : refusedWork.lastPasses isFailedWorker := by decide +kernel
  obtain ⟨e, htest, hlast⟩ := Rehearsal.occurrences_of_lastPasses fails
  rw [hlast] at run
  unfold isFailedWorker at htest
  split at htest
  · obtain ⟨-, since, -, -, h⟩ := run.run_of_ends rfl
    exact ⟨ownTalk since, _, h⟩
  · cases htest

/-- An epoch change that was told of a halt. -/
theorem run_halted (ctx : EpochContext) :
    Run (strictBoard.prepareEpoch ctx)
      [⟨.memory, (Memory.start 0 false : Memory Rat).halt⟩, ⟨.note (.haltedEpoch ctx.epoch), ()⟩]
      (.error .halted) :=
  ⟨.done (.error .halted), .cons (.ask ..) (.cons (.ask ..) (.nil _)), .done _⟩

end Fault

/-- The causes of three failures: an epoch change on a halted board, a search whose pacing is
refused while faults are fatal, and a worker that is given work of another algorithm. -/
theorem causes_of_refusals :
    (∃ ctx, ∃ talk : List (Answered Rat), ∃ e,
      Run (Fault.strictBoard.prepareEpoch ctx) talk (.error e) ∧
        Fault.strictBoard.Abandons ctx talk e) ∧
    (∃ work, ∃ talk : List (Answered Rat), ∃ e,
      Run (Fault.strictBoard.search work) talk (.error e) ∧ Fault.strictBoard.Escalates talk e) ∧
    ∃ talk : List (Answered Rat), ∃ e, Run (Worker.run Fault.strictBoard) talk (.error e) ∧
      Worker.Fails Fault.strictBoard talk e ∧ Worker.farewell <:+ talk := by
  obtain ⟨-, changes, searches, works⟩ := fails_only_for_cause (ν := Rat) Fault.strictBoard
  refine ⟨?_, ?_, ?_⟩
  · let ctx : EpochContext :=
      { epoch := 1, dagSize := 0, lightSize := 0, seed := .zero, lightCache := none }
    have run := Fault.run_halted ctx
    exact ⟨ctx, _, _, run, changes _ _ _ run⟩
  · obtain ⟨work, talk, e, run⟩ := Fault.exists_failedSearch
    exact ⟨work, talk, e, run, searches _ _ _ run⟩
  · obtain ⟨talk, e, run⟩ := Fault.exists_failedWorker
    have hworker := works _ _ run
    exact ⟨talk, e, run, hworker.1 e rfl, hworker.2⟩

end HashBoard
