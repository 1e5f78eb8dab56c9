import HashBoard.Proofs.Routine.Transcript
import HashBoard.Proofs.Scene.Memory
import HashBoard.Proofs.Scene.Rehearsal
import HashBoard.Proofs.Search.Asks

/-!
# How a search stops the core

A search gives the access lock away and takes it back in every round, and ends from many places: at
the head of a round, after a wait for nonces, at the end of a round, or while the work is
programmed. Wherever it decides to end, it holds the lock, and keeps it until the core is stopped.

What is looked at is the transcript since the lock was taken last. A decision is the last thing in
it, and what comes next is the same for all of them: the flags are read, the intensity is walked
down, and the core is switched off.
-/

namespace HashBoard

open Routine

variable {ν : Type}

/-! ## Stopping -/

/-- How the core is switched off once its flags were read: at once if they could not be, and
otherwise after the intensity was walked down from what was read. -/
def switchOff : Except LinkFault Word → List (Request ν)
  | .ok flags => (Intensity.ramp flags).map (fun word ↦ .call (.write word Reg.coreFlags)) ++
    [.call (.write Reg.coreOff Reg.coreEnable)]
  | .error _ => [.call (.write Reg.coreOff Reg.coreEnable)]

/-- The stall counter was looked at. -/
def StallCountRead (talk : List (Answered ν)) : Prop :=
  ∃ count, ⟨.call (.read Reg.stallCount), count⟩ ∈ talk

/-- What a search that ends with an answer was told last. -/
def DecidedOn : Except BoardError SearchExit → List (Answered ν) → Prop
  | .ok .newWork, talk => ∃ earlier m, talk = earlier ++ [⟨.memory, m⟩] ∧ m.newWork
  | .ok .shutdown, talk => ∃ earlier, talk = earlier ++ [⟨.isCancelled, true⟩]
  | .ok .stalled, talk => ∃ earlier, talk = earlier ++ [⟨.note .coreStalled, ()⟩] ∧
    StallCountRead earlier
  | .error e, talk => ∃ earlier what cause, e = .escalated (what ++ ": " ++ cause) ∧
    talk = earlier ++ [⟨.note (.escalated what cause), ()⟩]

/-- The transcript of a search that stops the core: it decides to end under the lock, and keeps the
lock until the flags were read, the intensity was walked down and the core was switched off, which
is the last access. -/
def StopsCore (a : Except BoardError SearchExit) (talk : List (Answered ν)) : Prop :=
  ∃ earlier decision stop farewell flags walk,
    talk = earlier ++ ⟨.acquire, ()⟩ :: (decision ++ stop) ++ farewell ∧ DecidedOn a decision ∧
      (∀ said ∈ decision ++ stop, said.request ≠ .release) ∧
      accesses stop = ⟨.call (.read Reg.coreFlags), flags⟩ :: walk ∧
      walk.map Answered.request = switchOff flags ∧ accesses farewell = []

namespace Stop

open Board

variable {s t u : List (Answered ν)} {α : Type}

theorem ensures_stopCore (s : List (Answered ν)) :
    stopCore.Ensures (transcript ν) (fun _ t ↦ ∃ x, ∃ more : List (Answered ν),
      accesses t = accesses s ++ ⟨.call (.read Reg.coreFlags), x⟩ :: more ∧
        more.map Answered.request = switchOff x) s := by
  have off (x : Except LinkFault Word) {t u : List (Answered ν)} {rs : List (Request ν)}
      (ht : accesses t = accesses s ++ [⟨.call (.read Reg.coreFlags), x⟩]) (hu : Accesses t u rs)
      (hrs : rs ++ [.call (.write Reg.coreOff Reg.coreEnable)] = switchOff x) :
      (tryWrite Reg.coreOff Reg.coreEnable "core disable").Ensures (transcript ν)
        (fun _ t ↦ ∃ x, ∃ more : List (Answered ν),
          accesses t = accesses s ++ ⟨.call (.read Reg.coreFlags), x⟩ :: more ∧
            more.map Answered.request = switchOff x) u := by
    refine (accesses_tryWrite _ _ _ u).mono fun _ v hv ↦ ?_
    obtain ⟨more, hmore, hmap⟩ := hu.trans hv
    refine ⟨x, more, ?_, hmap.trans hrs⟩
    rw [hmore, ht, List.append_assoc]
    rfl
  refine (accesses_read Reg.coreFlags s).seq ?_
  rintro (fault | flags) t ht
  · exact (accesses_note _ t).seq fun _ u hu ↦ off (.error fault) ht hu rfl
  · have walks := accesses_forEach (fun word s ↦ accesses_tryWrite word Reg.coreFlags
      "ramped intensity" s) (Intensity.ramp flags) t
    exact walks.seq fun _ u hu ↦ off (.ok flags) ht hu rfl

/-! ## Holding the lock -/

/-- The lock was taken and not given back, and a condition holds of what was said since. -/
def Holds (C : List (Answered ν) → Prop) (talk : List (Answered ν)) : Prop :=
  ∃ before stretch, talk = before ++ ⟨.acquire, ()⟩ :: stretch ∧
    (∀ said ∈ stretch, said.request ≠ .release) ∧ C stretch

/-- The lock was taken and not given back. -/
abbrev Held (talk : List (Answered ν)) : Prop := Holds (fun _ ↦ True) talk

section Holding

variable {C C' : List (Answered ν) → Prop}

theorem Holds.mono (h : Holds C s) (hC : ∀ talk, C talk → C' talk) : Holds C' s := by
  obtain ⟨before, stretch, hs, hkept, hstretch⟩ := h
  exact ⟨before, stretch, hs, hkept, hC stretch hstretch⟩

theorem Holds.prepend (h : Holds C s) (earlier : List (Answered ν)) : Holds C (earlier ++ s) := by
  obtain ⟨before, stretch, rfl, hkept, hstretch⟩ := h
  exact ⟨earlier ++ before, stretch, (List.append_assoc ..).symm, hkept, hstretch⟩

theorem Holds.snoc (h : Holds C s) {said : Answered ν} (hsaid : said.request ≠ .release)
    (hC : ∀ stretch, C stretch → C' (stretch ++ [said])) : Holds C' (s ++ [said]) := by
  obtain ⟨before, stretch, rfl, hkept, hstretch⟩ := h
  refine ⟨before, stretch ++ [said], ?_, ?_, hC stretch hstretch⟩
  · rw [List.append_assoc, List.cons_append]
  · exact List.forall_mem_append.mpr ⟨hkept, List.forall_mem_singleton.mpr hsaid⟩

theorem ensures_acquire (s : List (Answered ν)) :
    acquire.Ensures (transcript ν) (fun _ ↦ Held) s := by
  refine (ensures_request .acquire s).mono ?_
  rintro - t rfl
  exact ⟨s, [], rfl, List.forall_mem_nil _, trivial⟩

/-- A routine that does not give the lock back keeps it, and what was said since. -/
theorem ensures_holds {p : Routine ν α} (h : p.Only (· ≠ .release))
    (grows : ∀ stretch said, C stretch → C (stretch ++ [said])) (hs : Holds C s) :
    p.Ensures (transcript ν) (fun _ ↦ Holds C) s :=
  h.keeps hs fun _ _ _ ht hr ↦ ht.snoc hr fun stretch ↦ grows stretch _

theorem ensures_held {p : Routine ν α} (h : p.Only (· ≠ .release)) (hs : Held s) :
    p.Ensures (transcript ν) (fun _ ↦ Held) s := ensures_holds h (fun _ _ _ ↦ trivial) hs

end Holding

theorem ne_release_of_isQuiet (r : Request ν) (h : r.isQuiet) : r ≠ .release := by
  rintro rfl
  cases h

/-! ## Deciding to end -/

/-- A part of a search that goes on under the lock, or fails and was told why. -/
def GoesOn : Except BoardError α → List (Answered ν) → Prop
  | .error e => Holds (DecidedOn (.error e))
  | .ok _ => Held

/-- A round of a search that leads to another one under the lock, or decides to end. -/
def LeadsOn : Round ⊕ Except BoardError SearchExit → List (Answered ν) → Prop
  | .inl _ => Held
  | .inr a => Holds (DecidedOn a)

section Deciding

variable (b : Board) (work : Work)

theorem ensures_escalate (what cause : String) (hs : Held s) :
    (b.escalate what cause).Ensures (transcript ν) GoesOn s := by
  rw [escalate]
  split
  · refine (ensures_request _ s).seq ?_
    rintro - t rfl
    exact hs.snoc (by simp) fun stretch _ ↦ ⟨stretch, what, cause, rfl, rfl⟩
  · exact hs

theorem ensures_programPacing (intensity : Intensity) (hs : Held s) :
    (b.programPacing intensity).Ensures (transcript ν) GoesOn s := by
  rw [programPacing]
  refine (ensures_held (only_request (by simp)) hs).seq fun _ t ht ↦ ?_
  refine (ensures_held (only_write ne_release_of_isQuiet (by simp)) ht).seq ?_
  rintro (fault | -) u hu
  · exact (ensures_held (only_request (by simp)) hu).seq fun _ v hv ↦ ensures_escalate b _ _ hv
  · exact hu

theorem ensures_programWork (hs : Held s) :
    (b.programWork work).Ensures (transcript ν) GoesOn s := by
  have job : (programJob work : Routine ν Unit).Only (· ≠ .release) :=
    only_programJob ne_release_of_isQuiet work (by simp) (by simp) (by simp)
  refine (ensures_held job hs).seq fun _ t ht ↦ ?_
  refine (ensures_held (only_pacing ne_release_of_isQuiet b) ht).seq fun intensity t ht ↦ ?_
  refine (ensures_programPacing b intensity ht).seq ?_
  rintro (e | _) u hu
  · exact hu
  · refine (ensures_held (only_tryWrite ne_release_of_isQuiet (by simp)) hu).seq fun _ v hv ↦ ?_
    exact (ensures_held (only_request (by simp)) hv).seq fun _ _ h ↦ h

/-- The lock is given away while nonces are waited for, and is there again afterwards. -/
theorem ensures_gatherNonces (s : List (Answered ν)) :
    b.gatherNonces.Ensures (transcript ν) GoesOn s := by
  rw [gatherNonces]
  cases b.settings.nonceReporting with
  | interrupt =>
    refine Ensures.after fun _ _ _ ↦ Ensures.after fun answer t _ ↦ ?_
    refine (ensures_acquire t).seq fun _ u hu ↦ ?_
    rcases answer with fault | nonce
    · refine (ensures_held (only_request (by simp)) hu).seq fun _ v hv ↦ ?_
      refine (ensures_escalate b _ _ hv).seq ?_
      rintro (e | _) w hw <;> exact hw
    · cases nonce <;> exact hu
  | polled =>
    have waits : (suspend b.settings.workDelay).Ensures (transcript ν) (fun _ ↦ Held) s :=
      Ensures.after fun _ _ _ ↦ Ensures.after fun _ t _ ↦ ensures_acquire t
    refine waits.seq fun _ t ht ↦ ?_
    have polls : (pollNonces : Routine ν _).Only (· ≠ .release) :=
      only_pollNonces ne_release_of_isQuiet (by simp) (by simp)
    exact (ensures_held polls ht).seq fun _ _ h ↦ h

theorem stallCountRead_snoc {talk : List (Answered ν)} (h : StallCountRead talk)
    (said : Answered ν) : StallCountRead (talk ++ [said]) := by
  obtain ⟨count, hcount⟩ := h
  exact ⟨count, List.mem_append_left _ hcount⟩

/-- A counter that was found where it stood was looked at. -/
theorem ensures_checkStall (last : Option Word) (hs : Held s) :
    (b.checkStall last).Ensures (transcript ν)
      (fun stall ↦ Holds fun talk ↦ stall.1 → StallCountRead talk) s := by
  rw [checkStall]
  split
  · exact hs.mono (by simp)
  · have looks : (call (.read Reg.stallCount)).Ensures (transcript ν)
        (fun _ ↦ Holds StallCountRead) s := by
      refine (ensures_request (.call (.read Reg.stallCount)) s).mono ?_
      rintro count t rfl
      exact hs.snoc (by simp) fun _ _ ↦ ⟨count, List.mem_append_right _ (.head _)⟩
    have notes (event : Event ν) {t : List (Answered ν)} (ht : Holds StallCountRead t) :
        (note event).Ensures (transcript ν) (fun _ ↦ Holds StallCountRead) t :=
      ensures_holds (only_request (by simp)) (fun _ said h ↦ stallCountRead_snoc h said) ht
    refine Ensures.bind (Ensures.bind (looks.seq fun answer t ht ↦ ?_))
    rcases answer with fault | count
    · exact (notes _ ht).seq fun _ u hu ↦ hu.mono fun _ h _ ↦ h
    · exact (notes _ ht).seq fun _ u hu ↦ hu.mono fun _ h _ ↦ h

variable [Quantity ν]

theorem ensures_finishRound (r : Round) (nonces : List UInt64) (hs : Held s) :
    (b.finishRound work r nonces).Ensures (transcript ν) LeadsOn s := by
  have room : RoomToFinish (ν := ν) (· ≠ .release) work :=
    ⟨⟨ne_release_of_isQuiet, by simp, by simp, by simp, by simp, by simp⟩, by simp, by simp,
      by simp, by simp, by simp⟩
  refine (ensures_checkStall b r.stall hs).seq fun stall t ht ↦ ?_
  -- what was looked at stays in the transcript while the round is finished
  have kept {β : Type} {p : Routine ν β} (h : p.Only (· ≠ .release)) {t : List (Answered ν)}
      (ht : Holds (fun talk ↦ stall.1 → StallCountRead talk) t) :=
    ensures_holds h (fun _ said hlooked hstalled ↦ stallCountRead_snoc (hlooked hstalled) said) ht
  refine (kept (only_countChecks ne_release_of_isQuiet r.checks room.checks) ht).seq
    fun checks t ht ↦ ?_
  refine (kept (only_forEach fun nonce _ ↦ only_report ne_release_of_isQuiet b work nonce
    (by simp)) ht).seq fun _ t ht ↦ ?_
  refine (kept (only_request (by simp)) ht).seq fun now t ht ↦ ?_
  refine (kept (only_keepAccount ne_release_of_isQuiet room.tunes room.averages _ _ _ _) ht).seq
    fun _ t ht ↦ ?_
  refine (kept (only_watchIfDue room.toRoomToWatch b r.watched now) ht).seq fun watched t ht ↦ ?_
  split
  · rename_i hstalled
    refine (ensures_request _ t).seq ?_
    rintro - u rfl
    exact ht.snoc (by simp) fun talk hlooked ↦ ⟨talk, rfl, hlooked hstalled⟩
  · exact ht.mono fun _ _ ↦ trivial

theorem ensures_searchRound (r : Round) (hs : Held s) :
    (b.searchRound work r).Ensures (transcript ν) LeadsOn s := by
  refine (ensures_request .memory s).seq ?_
  rintro m t rfl
  split
  · rename_i hwork
    exact hs.snoc (by simp) fun talk _ ↦ ⟨talk, m, rfl, hwork⟩
  · refine (ensures_request .isCancelled _).seq ?_
    rintro cancelled u rfl
    split
    · rename_i hcancelled
      subst hcancelled
      have hheld : Held (s ++ [⟨.memory, m⟩]) := hs.snoc (by simp) fun _ _ ↦ trivial
      exact hheld.snoc (by simp) fun talk _ ↦ ⟨talk, rfl⟩
    · refine (ensures_gatherNonces b _).seq ?_
      rintro (e | nonces) u hu
      · exact hu
      · exact ensures_finishRound b work r nonces hu

/-- Wherever a search decides to end, it holds the lock. -/
theorem ensures_runSearch (hs : Held s) :
    (b.runSearch work).Ensures (transcript ν) (fun a ↦ Holds (DecidedOn a)) s := by
  refine (ensures_programWork b work hs).seq ?_
  rintro (e | _) t ht
  · exact ht
  · refine (ensures_held (only_request (by simp)) ht).seq fun _ u hu ↦ ?_
    refine (ensures_held (only_request (by simp)) hu).seq fun now v hv ↦ ?_
    refine ensures_repeating (fun _ ↦ Held) hv ?_
    intro r w hw
    refine ⟨trivial, (ensures_searchRound b work r hw).mono ?_⟩
    rintro (r' | a) x hx <;> exact hx

end Deciding

/-! ## The whole search -/

section Whole

variable [Quantity ν] {b : Board} {work : Work} {talk : List (Answered ν)}
  {a : Except BoardError SearchExit}

/-- A search does not show as searching any more. -/
def ceased : Answered ν := ⟨.revise fun m ↦ m.withStatus fun s ↦ { s with searching := false }, ()⟩

/-- What a search does once the core is stopped. -/
def leave (event : Event ν) : List (Answered ν) := [⟨.release, ()⟩, ceased, ⟨.note event, ()⟩]

/-- A search programs its work and goes through its rounds, stops the core, and leaves. -/
theorem exists_of_run_search (h : Run (b.search work) talk a) :
    ∃ under stop event, talk = ⟨.acquire, ()⟩ :: under ++ stop ++ leave event ∧
      Run (b.runSearch work) under a ∧ Run stopCore stop () := by
  obtain ⟨_, _, rfl, hsearch⟩ := (run_ask_iff (r := .acquire)).mp h
  obtain ⟨under, result, _, rfl, hunder, hrest⟩ :=
    (run_bind_iff (p := b.runSearch work)).mp hsearch
  obtain ⟨stop, _, last, rfl, hstop, hleave⟩ := run_bind_iff.mp hrest
  obtain ⟨_, last, rfl, hrevise⟩ := (run_ask_iff (r := .release)).mp hleave
  obtain ⟨_, last, rfl, hnote⟩ := (run_ask_iff (r := .revise _)).mp hrevise
  cases result with
  | ok exit =>
    obtain ⟨_, last, rfl, hend⟩ := (run_ask_iff (r := .note _)).mp hnote
    obtain ⟨rfl, rfl⟩ := run_done_iff.mp hend
    exact ⟨under, stop, .searchEnded exit, congrArg (List.cons _) (List.append_assoc ..).symm,
      hunder, hstop⟩
  | error e =>
    obtain ⟨_, last, rfl, hend⟩ := (run_ask_iff (r := .note _)).mp hnote
    obtain ⟨rfl, rfl⟩ := run_done_iff.mp hend
    exact ⟨under, stop, .searchFailed e, congrArg (List.cons _) (List.append_assoc ..).symm,
      hunder, hstop⟩

/-- A search decides to end, stops the core, and leaves. -/
theorem run_search (h : Run (b.search work) talk a) :
    ∃ under stop event, talk = under ++ stop ++ leave event ∧ Holds (DecidedOn a) under ∧
      Run stopCore stop () := by
  obtain ⟨under, stop, event, rfl, hunder, hstop⟩ := exists_of_run_search h
  have held : Held [(⟨.acquire, ()⟩ : Answered ν)] :=
    ⟨[], [], rfl, List.forall_mem_nil _, trivial⟩
  exact ⟨_, stop, event, rfl, (ensures_runSearch b work held).of_run hunder, hstop⟩

theorem stopsCore_of_run (h : Run (b.search work) talk a) : StopsCore a talk := by
  obtain ⟨under, stop, event, rfl, ⟨earlier, decision, rfl, hkept, hdecided⟩, hstop⟩ := run_search h
  obtain ⟨flags, walk, haccesses, hwalk⟩ := (ensures_stopCore []).of_run hstop
  refine ⟨earlier, decision, stop, leave event, flags, walk, ?_, hdecided, ?_, haccesses, hwalk,
    rfl⟩
  · rw [List.append_assoc earlier, List.cons_append]
  · intro said hsaid
    rcases List.mem_append.mp hsaid with h | h
    · exact hkept said h
    · obtain ⟨q, hpath, -⟩ := hstop
      exact (only_stopCore ne_release_of_isQuiet (by simp) (by simp)).of_path hpath said h

end Whole

end Stop

/-- **A search never leaves the core running.** However a search ends, it decided to under the lock,
and did not give the lock back before its last access, which switches the core off after the
intensity was walked down. It does not show as searching afterwards. -/
theorem search_stops_core [Quantity ν] {b : Board} {memory : Memory ν} {feed : Feed}
    {es : List (Occurrence (b.errands (ν := ν)))} {work : Work} {a : Except BoardError SearchExit}
    {s : Scene (b.errands (ν := ν))}
    (run : Scene.Runs (.quiet memory feed) (es ++ [.ends (.search work) a]) s) :
    s.shared.memory.status.searching = false ∧
      ∃ before since : List (Occurrence (b.errands (ν := ν))),
        es = before ++ .begins (.search work) :: since ∧ (∀ e ∈ since, e.IsWithin) ∧
          StopsCore a (ownTalk since) := by
  obtain ⟨before, since, rfl, hwithin, hrun⟩ := run.run_of_ends rfl
  refine ⟨?_, before, since, rfl, hwithin, Stop.stopsCore_of_run hrun⟩
  obtain ⟨under, stop, event, htalk, -, -⟩ := Stop.run_search hrun
  -- what is remembered is followed from where the search says that it is over
  have hleave : ownTalk since =
      under ++ stop ++ [⟨.release, ()⟩] ++ Stop.ceased :: [⟨.note event, ()⟩] := by
    rw [htalk, Stop.leave, List.append_cons _ _ [_, _]]
  obtain ⟨pre, post, rfl, -, hpost⟩ := ownTalk_eq_append_cons hleave
  have hceased : before ++ .begins (.search work) :: (pre ++ .talks .owner Stop.ceased :: post) ++
      [.ends (.search work) a] = (before ++ .begins (.search work) :: pre ++
        [.talks .owner Stop.ceased]) ++ (post ++ [.ends (.search work) a]) := by
    simp
  rw [hceased] at run
  have follows := run.follows (Scene.orderly_quiet memory feed) ?_
  · rw [follows.status.searching, Shared.afterAll_snoc]
    rfl
  · intro e he
    rcases List.mem_append.mp he with he | he
    · refine Scene.spared_of_within (fun e he ↦ ?_) (fun said hsaid m ↦ ?_) e he
      · exact hwithin e (List.mem_append_right _ (.tail _ he))
      · rw [hpost] at hsaid
        rw [List.mem_singleton.mp hsaid]
        rfl
    · rw [List.mem_singleton.mp he]
      exact .inr fun _ ↦ rfl

/-! ### A search that is kicked -/

namespace Stop

/-- Some work. -/
def someWork : Work where
  header := .zero
  boundary := .zero
  startNonce := 0
  epoch := 1
  algorithm := "ethash"

/-- A search goes on for a while, and is kicked by a guest. -/
def kickedSearch : Rehearsal (plainBoard.errands (ν := Rat)) :=
  .rehearse (.start 0 false) {} {}
    [.begins (.search someWork), .goes .owner 21, .arrives 0 .kick, .goes (.guest 0) 10,
      .goes .owner 80]

/-- A search ends because there is other work. -/
def endsForNewWork : Occurrence (plainBoard.errands (ν := Rat)) → Bool
  | .ends (.search _) (.ok .newWork) => true
  | _ => false

end Stop

/-- The guarantee for a search that a guest kicks while it is going on. -/
theorem core_stopped_of_kick : ∃ es, ∃ work, ∃ s : Scene (plainBoard.errands (ν := Rat)),
    Scene.Runs (.quiet (.start 0 false) {}) (es ++ [.ends (.search work) (.ok .newWork)]) s ∧
      s.shared.memory.status.searching = false ∧
      ∃ since, StopsCore (.ok .newWork) (ownTalk (R := plainBoard.errands (ν := Rat)) since) := by
  have run : Scene.Runs (.quiet (.start 0 false) {}) Stop.kickedSearch.occurrences
      Stop.kickedSearch.scene := Rehearsal.rehearse_runs ..
  have ends : Stop.kickedSearch.lastPasses Stop.endsForNewWork := by decide +kernel
  obtain ⟨e, htest, hlast⟩ := Rehearsal.occurrences_of_lastPasses ends
  rw [hlast] at run
  unfold Stop.endsForNewWork at htest
  split at htest
  · obtain ⟨hsearching, -, since, -, -, hstops⟩ := search_stops_core run
    exact ⟨_, _, _, run, hsearching, since, hstops⟩
  · cases htest

end HashBoard
