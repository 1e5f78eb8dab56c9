import HashBoard.Proofs.Board.Answers
import HashBoard.Proofs.Scene.Upkeep

/-!
# Rehearsals

A scene played out by a list of cues, with a simulated board to answer what the parties ask of it.
A cue that cannot be followed is passed over, so that every rehearsal is a run (`rehearse_runs`);
what a concrete rehearsal comes to can be computed, and its board answered what was asked
(`rehearse_answers`). Statements about all runs are shown to say something by rehearsing one.
-/

namespace HashBoard

namespace Routine

variable {ν α : Type}

/-- How a routine goes on. -/
inductive Front (ν α : Type) : Type 1
  /-- It is at its end. -/
  | ended (answer : α)
  /-- It asks for something. -/
  | asks (r : Request ν) (next : Reply r → Routine ν α)
  /-- Its loops were unrolled as often as was allowed, and neither came up. -/
  | unclear

/-- How a routine goes on, by unrolling loops at most `n` times. -/
def front : (n : Nat) → Routine ν α → Front ν α
  | 0, _ => .unclear
  | _ + 1, .done a => .ended a
  | _ + 1, .ask r next => .asks r next
  | n + 1, .loop state step next => front n ((step state).bind (again step next))

theorem ends_of_front {n : Nat} {p : Routine ν α} {a : α} (h : p.front n = .ended a) :
    Ends p a := by
  induction n generalizing p with
  | zero => cases h
  | succ n ih =>
    cases p with
    | done b =>
      cases h
      exact .done _
    | ask => cases h
    | loop => exact .loop (ih h)

theorem steps_of_front {n : Nat} {p : Routine ν α} {r : Request ν} {next : Reply r → Routine ν α}
    (h : p.front n = .asks r next) (x : Reply r) : Steps p r x (next x) := by
  induction n generalizing p with
  | zero => cases h
  | succ n ih =>
    cases p with
    | done => cases h
    | ask r' next' =>
      cases h
      exact .ask _ _ x
    | loop => exact .loop (ih h)

end Routine

/-! ## Answers -/

variable {ν : Type} [Quantity ν]

/-- What a request is answered with: by the board, from what is shared, or in the plainest way.
There is no answer where the request has to wait. -/
def Shared.reply? (sh : Shared ν) (board : SimulatedBoard) :
    (r : Request ν) → Option (SimulatedBoard × Reply r)
  | .call c => some (board.perform c)
  | .acquire => if sh.holder = none then some (board, ()) else none
  | .memory => some (board, sh.memory)
  | .subscribe => some (board, sh.feed.version)
  | .latestWork => some (board, sh.feed.latest)
  | .nextChange seen =>
    if sh.feed.version ≠ seen then some (board, some sh.feed.version)
    else if sh.feed.isOpen then none
    else some (board, none)
  | .connect _ => some (board, .ok ())
  | .now => some (board, (0 : Nat))
  | .isCancelled => some (board, false)
  | .intensityOverride => some (board, none)
  | .errorRate => some (board, (Quantity.ofNat 0 : ν))
  | .tuningStage => some (board, (0 : UInt8))
  | .loadTune .. | .fileExists _ => some (board, false)
  | .epochContext epoch =>
    some (board, some { epoch, dagSize := 0, lightSize := 0, seed := .zero, lightCache := none })
  | .submit _ | .tick _ => some (board, true)
  | .nextSerial => some (board, (0 : UInt64))
  | .outlast _ => some (board, .idle)
  | .release | .revise _ | .sleep _ | .sleepUntil _ | .cancel | .wake | .park _ | .tune _
  | .startTune _ | .publish _ | .closeFeed | .startKicker _ | .stopKicker | .giveUp _ | .settle
  | .note _ | .outside _ => some (board, ())

theorem Shared.permits_of_reply? {sh : Shared ν} {board board' : SimulatedBoard} {r : Request ν}
    {x : Reply r} (h : sh.reply? board r = some (board', x)) : sh.Permits r x := by
  cases r with
  | acquire =>
    rw [reply?] at h
    split at h
    · assumption
    · cases h
  | memory | subscribe | latestWork =>
    cases h
    rfl
  | nextChange seen =>
    rw [reply?] at h
    split at h
    · rename_i hne
      cases h
      exact ⟨rfl, hne⟩
    · rename_i heq
      split at h
      · cases h
      · rename_i hclosed
        cases h
        exact ⟨not_not.mp heq, by simpa using hclosed⟩
  | _ => exact trivial

/-! ## What to rehearse with -/

/-- A board with a single mixer and otherwise default settings. -/
def plainBoard : Board where
  index := 0
  settings := { mixers := 1 }
  identity := { lo := 0, mid := 0, hi := 0, deviceType := 0, bitstream := 0 }

/-- A board that is given its light cache by the host. -/
def uploadBoard : Board where
  index := 0
  settings := { cacheStrategy := .upload }
  identity := { lo := 0, mid := 0, hi := 0, deviceType := 0, bitstream := 0 }

/-- An epoch with a small dataset. -/
def plainEpoch : EpochContext where
  epoch := 1
  dagSize := 4096
  lightSize := 1024
  seed := .zero
  lightCache := none

/-- Some work for that epoch. -/
def plainWork : Work where
  header := .zero
  boundary := .zero
  startNonce := 0
  epoch := 1
  algorithm := "ethash"

/-! ## Rehearsing -/

/-- What is to happen next. -/
inductive Cue (R : Repertoire ν)
  /-- The owner begins a job. -/
  | begins (job : R.Job)
  /-- A guest comes. -/
  | arrives (n : Nat) (purpose : Purpose)
  /-- A party goes on for some steps, or as far as it can. -/
  | goes (party : Party) (steps : Nat)

/-- A scene that is being rehearsed. -/
structure Rehearsal (R : Repertoire ν) where
  /-- The scene. -/
  scene : Scene R
  /-- The board that answers. -/
  board : SimulatedBoard
  /-- What occurred, the last first. -/
  occurred : List (Occurrence R) := []

namespace Rehearsal

variable {R : Repertoire ν}

/-- How far loops are unrolled to see how a party goes on. -/
def unrolled : Nat := 3

/-- One step of a party, if it can take one. -/
def step? (h : Rehearsal R) : Party → Option (Rehearsal R)
  | .owner =>
    match h.scene.owner with
    | none => none
    | some ⟨job, p⟩ =>
      match p.front unrolled with
      | .unclear => none
      | .ended a =>
        some { h with
          scene := { h.scene with owner := none }
          occurred := .ends job a :: h.occurred }
      | .asks r next =>
        (h.scene.shared.reply? h.board r).map fun (board, x) ↦
          { scene :=
              { h.scene with
                shared := h.scene.shared.after .owner r
                owner := some ⟨job, next x⟩
                kicker := Scene.kickerAfter h.scene.kicker r }
            board
            occurred := .talks .owner ⟨r, x⟩ :: h.occurred }
  | .kicker =>
    match h.scene.kicker.front unrolled with
    | .unclear | .ended _ => none
    | .asks r next =>
      (h.scene.shared.reply? h.board r).map fun (board, x) ↦
        { scene :=
            { h.scene with shared := h.scene.shared.after .kicker r, kicker := next x }
          board
          occurred := .talks .kicker ⟨r, x⟩ :: h.occurred }
  | .guest n =>
    match (h.scene.guests n).front unrolled with
    | .unclear | .ended _ => none
    | .asks r next =>
      (h.scene.shared.reply? h.board r).map fun (board, x) ↦
        { scene :=
            { h.scene with
              shared := h.scene.shared.after (.guest n) r
              guests := Function.update h.scene.guests n (next x) }
          board
          occurred := .talks (.guest n) ⟨r, x⟩ :: h.occurred }

/-- Some steps of a party. -/
def go (party : Party) : (steps : Nat) → Rehearsal R → Rehearsal R
  | 0, h => h
  | n + 1, h =>
    match h.step? party with
    | some h => go party n h
    | none => h

/-- The owner looks for a shutdown and is told of one, if that is what it is about to do. -/
def hearsShutdown (h : Rehearsal R) : Rehearsal R :=
  match h.scene.owner with
  | none => h
  | some ⟨job, p⟩ =>
    match p.front unrolled with
    | .asks .isCancelled next =>
      { h with
        scene := { h.scene with owner := some ⟨job, next true⟩ }
        occurred := .talks .owner ⟨.isCancelled, true⟩ :: h.occurred }
    | _ => h

/-- Follows a cue. -/
def follow (h : Rehearsal R) : Cue R → Rehearsal R
  | .begins job =>
    match h.scene.owner with
    | some _ => h
    | none =>
      { h with
        scene := { h.scene with owner := some ⟨job, R.routine job⟩ }
        occurred := .begins job :: h.occurred }
  | .arrives n purpose =>
    match (h.scene.guests n).front unrolled with
    | .ended _ =>
      { h with
        scene := { h.scene with guests := Function.update h.scene.guests n purpose.routine }
        occurred := .arrives n purpose :: h.occurred }
    | .asks .. | .unclear => h
  | .goes party steps => go party steps h

/-- Follows some cues from a quiet scene on. -/
def rehearse (memory : Memory ν) (feed : Feed) (board : SimulatedBoard) (cues : List (Cue R)) :
    Rehearsal R := cues.foldl follow { scene := .quiet memory feed, board }

/-- What occurs in a rehearsal, in order. -/
def occurrences (h : Rehearsal R) : List (Occurrence R) := h.occurred.reverse

/-- What occurred before the last occurrence. -/
def before (h : Rehearsal R) : List (Occurrence R) := h.occurred.tail.reverse

/-- Whether something occurred, and what occurred last passes a test. -/
def lastPasses (h : Rehearsal R) (test : Occurrence R → Bool) : Bool := h.occurred.head?.any test

omit [Quantity ν] in
theorem occurrences_of_lastPasses {h : Rehearsal R} {test : Occurrence R → Bool}
    (hlast : h.lastPasses test) : ∃ e, test e ∧ h.occurrences = h.before ++ [e] := by
  rw [lastPasses] at hlast
  cases hoccurred : h.occurred with
  | nil =>
    rw [hoccurred] at hlast
    cases hlast
  | cons e rest =>
    rw [hoccurred] at hlast
    refine ⟨e, hlast, ?_⟩
    rw [occurrences, before, hoccurred, List.reverse_cons, List.tail_cons]

/-- Whether a job is begun first and nothing is begun or ended after that. -/
def isSingleJob : List (Occurrence R) → Bool
  | .begins _ :: rest => rest.all fun
    | .begins _ | .ends .. => false
    | .arrives .. | .talks .. => true
  | _ => false

omit [Quantity ν] in
theorem eq_nil_of_isSingleJob {before since : List (Occurrence R)} {job : R.Job}
    (h : isSingleJob (before ++ .begins job :: since)) : before = [] := by
  cases before with
  | nil => rfl
  | cons e before =>
    cases e with
    | begins job' =>
      have hall := List.all_eq_true.mp h (.begins job) (List.mem_append_right _ (.head _))
      cases hall
    | _ => cases h

/-! ### Every rehearsal is a run -/

variable {s₀ : Scene R} {h h' : Rehearsal R}

theorem runs_snoc (hr : Scene.Runs s₀ h.occurrences h.scene) {e : Occurrence R}
    (hs : Scene.Step h.scene e h'.scene) (ho : h'.occurred = e :: h.occurred) :
    Scene.Runs s₀ h'.occurrences h'.scene := by
  rw [occurrences, ho, List.reverse_cons]
  exact .snoc hr hs

theorem runs_of_step? {party : Party} (hr : Scene.Runs s₀ h.occurrences h.scene)
    (hs : h.step? party = some h') : Scene.Runs s₀ h'.occurrences h'.scene := by
  cases party with
  | owner =>
    rw [step?] at hs
    split at hs
    · cases hs
    · rename_i job p howner
      split at hs
      · cases hs
      · rename_i a hfront
        cases hs
        exact runs_snoc hr (.ends howner (Routine.ends_of_front hfront)) rfl
      · rename_i r next hfront
        obtain ⟨⟨board, x⟩, hx, rfl⟩ := Option.map_eq_some_iff.mp hs
        exact runs_snoc hr (.owner howner (Routine.steps_of_front hfront x)
          (Shared.permits_of_reply? hx)) rfl
  | kicker =>
    rw [step?] at hs
    split at hs
    · cases hs
    · cases hs
    · rename_i r next hfront
      obtain ⟨⟨board, x⟩, hx, rfl⟩ := Option.map_eq_some_iff.mp hs
      exact runs_snoc hr
        (.kicker (Routine.steps_of_front hfront x) (Shared.permits_of_reply? hx)) rfl
  | guest n =>
    rw [step?] at hs
    split at hs
    · cases hs
    · cases hs
    · rename_i r next hfront
      obtain ⟨⟨board, x⟩, hx, rfl⟩ := Option.map_eq_some_iff.mp hs
      exact runs_snoc hr
        (.guest (Routine.steps_of_front hfront x) (Shared.permits_of_reply? hx)) rfl

theorem runs_go {party : Party} {n : Nat} (hr : Scene.Runs s₀ h.occurrences h.scene) :
    Scene.Runs s₀ (go party n h).occurrences (go party n h).scene := by
  induction n generalizing h with
  | zero => exact hr
  | succ n ih =>
    rw [go]
    split
    · rename_i h' hs
      exact ih (runs_of_step? hr hs)
    · exact hr

theorem runs_hearsShutdown (hr : Scene.Runs s₀ h.occurrences h.scene) :
    Scene.Runs s₀ h.hearsShutdown.occurrences h.hearsShutdown.scene := by
  rw [hearsShutdown]
  split
  · exact hr
  · rename_i job p howner
    split
    · rename_i next hfront
      exact runs_snoc hr (.owner howner (Routine.steps_of_front hfront true) trivial) rfl
    · exact hr

theorem runs_follow {cue : Cue R} (hr : Scene.Runs s₀ h.occurrences h.scene) :
    Scene.Runs s₀ (h.follow cue).occurrences (h.follow cue).scene := by
  cases cue with
  | begins job =>
    rw [follow]
    split
    · exact hr
    · rename_i hnone
      exact runs_snoc hr (.begins job hnone) rfl
  | arrives n purpose =>
    rw [follow]
    split
    · rename_i hfront
      exact runs_snoc hr (.arrives n purpose (Routine.ends_of_front hfront)) rfl
    · exact hr
    · exact hr
  | goes party steps => exact runs_go hr

theorem runs_foldl (cues : List (Cue R)) (hr : Scene.Runs s₀ h.occurrences h.scene) :
    Scene.Runs s₀ (cues.foldl follow h).occurrences (cues.foldl follow h).scene := by
  induction cues generalizing h with
  | nil => exact hr
  | cons cue cues ih => exact ih (runs_follow hr)

/-- A rehearsal is a run. -/
theorem rehearse_runs (memory : Memory ν) (feed : Feed) (board : SimulatedBoard)
    (cues : List (Cue R)) :
    Scene.Runs (.quiet memory feed) (rehearse memory feed board cues).occurrences
      (rehearse memory feed board cues).scene := runs_foldl cues (.nil _)

/-! ### The board answers -/

theorem answers_of_reply? {sh : Shared ν} {board board' : SimulatedBoard} {r : Request ν}
    {x : Reply r} (hx : sh.reply? board r = some (board', x)) : board.Answers [⟨r, x⟩] board' := by
  cases r with
  | call c =>
    have hperform : board.perform c = (board', x) := Option.some.inj hx
    obtain ⟨rfl, rfl⟩ := Prod.mk.inj hperform
    exact .made c (.nil _)
  | acquire =>
    rw [Shared.reply?] at hx
    split at hx
    · cases hx
      exact .aside nofun (.nil _)
    · cases hx
  | nextChange seen =>
    rw [Shared.reply?] at hx
    split at hx
    · cases hx
      exact .aside nofun (.nil _)
    · split at hx
      · cases hx
      · cases hx
        exact .aside nofun (.nil _)
  | _ =>
    cases hx
    exact .aside nofun (.nil _)

variable {board : SimulatedBoard}

omit [Quantity ν] in
theorem answers_snoc (ha : board.Answers (talkOf h.occurrences) h.board) {e : Occurrence R}
    (hs : h.board.Answers (talkOf [e]) h'.board) (ho : h'.occurred = e :: h.occurred) :
    board.Answers (talkOf h'.occurrences) h'.board := by
  rw [occurrences, ho, List.reverse_cons, talkOf_append]
  exact ha.append hs

theorem answers_of_step? {party : Party} (ha : board.Answers (talkOf h.occurrences) h.board)
    (hs : h.step? party = some h') : board.Answers (talkOf h'.occurrences) h'.board := by
  cases party with
  | owner =>
    rw [step?] at hs
    split at hs
    · cases hs
    · split at hs
      · cases hs
      · cases hs
        exact answers_snoc ha (.nil _) rfl
      · rename_i r _ _
        obtain ⟨⟨board, x⟩, hx, rfl⟩ := Option.map_eq_some_iff.mp hs
        exact answers_snoc (e := .talks .owner ⟨r, x⟩) ha (answers_of_reply? hx) rfl
  | kicker =>
    rw [step?] at hs
    split at hs
    · cases hs
    · cases hs
    · rename_i r _ _
      obtain ⟨⟨board, x⟩, hx, rfl⟩ := Option.map_eq_some_iff.mp hs
      exact answers_snoc (e := .talks .kicker ⟨r, x⟩) ha (answers_of_reply? hx) rfl
  | guest n =>
    rw [step?] at hs
    split at hs
    · cases hs
    · cases hs
    · rename_i r _ _
      obtain ⟨⟨board, x⟩, hx, rfl⟩ := Option.map_eq_some_iff.mp hs
      exact answers_snoc (e := .talks (.guest n) ⟨r, x⟩) ha (answers_of_reply? hx) rfl

theorem answers_go {party : Party} {n : Nat} (ha : board.Answers (talkOf h.occurrences) h.board) :
    board.Answers (talkOf (go party n h).occurrences) (go party n h).board := by
  induction n generalizing h with
  | zero => exact ha
  | succ n ih =>
    rw [go]
    split
    · rename_i h' hs
      exact ih (answers_of_step? ha hs)
    · exact ha

theorem answers_follow {cue : Cue R} (ha : board.Answers (talkOf h.occurrences) h.board) :
    board.Answers (talkOf (h.follow cue).occurrences) (h.follow cue).board := by
  cases cue with
  | begins job =>
    rw [follow]
    split
    · exact ha
    · exact answers_snoc ha (.nil _) rfl
  | arrives n purpose =>
    rw [follow]
    split
    · exact answers_snoc ha (.nil _) rfl
    · exact ha
    · exact ha
  | goes party steps => exact answers_go ha

theorem answers_foldl (cues : List (Cue R)) (ha : board.Answers (talkOf h.occurrences) h.board) :
    board.Answers (talkOf (cues.foldl follow h).occurrences) (cues.foldl follow h).board := by
  induction cues generalizing h with
  | nil => exact ha
  | cons cue cues ih => exact ih (answers_follow ha)

/-- The board of a rehearsal answered all that was asked. -/
theorem rehearse_answers (memory : Memory ν) (feed : Feed) (board : SimulatedBoard)
    (cues : List (Cue R)) :
    board.Answers (talkOf (rehearse memory feed board cues).occurrences)
      (rehearse memory feed board cues).board := answers_foldl cues (.nil board)

/-! ### Going on with another board -/

/-- Goes on from the scene of a rehearsal with another board. -/
def goOn (h : Rehearsal R) (board : SimulatedBoard) (cues : List (Cue R)) : Rehearsal R :=
  cues.foldl follow { scene := h.scene, board }

theorem goOn_runs (h : Rehearsal R) (board : SimulatedBoard) (cues : List (Cue R)) :
    Scene.Runs h.scene (h.goOn board cues).occurrences (h.goOn board cues).scene :=
  runs_foldl cues (.nil _)

theorem goOn_answers (h : Rehearsal R) (board : SimulatedBoard) (cues : List (Cue R)) :
    board.Answers (talkOf (h.goOn board cues).occurrences) (h.goOn board cues).board :=
  answers_foldl cues (.nil board)

/-! ### A single job -/

/-- Whether a job is begun first and only the owner is heard after that. -/
def isSoloJob : List (Occurrence R) → Bool
  | .begins _ :: rest => rest.all fun
    | .talks .owner _ => true
    | _ => false
  | _ => false

omit [Quantity ν] in
theorem isSingleJob_of_isSoloJob {es : List (Occurrence R)} (solo : isSoloJob es) :
    isSingleJob es := by
  cases es with
  | nil => cases solo
  | cons e rest =>
    cases e with
    | begins job =>
      refine List.all_eq_true.mpr fun e he ↦ ?_
      have hown := List.all_eq_true.mp solo e he
      cases e with
      | begins | ends => cases hown
      | arrives | talks => rfl
    | _ => cases solo

omit [Quantity ν] in
theorem ownTalk_of_isSoloJob {job : R.Job} {since : List (Occurrence R)}
    (solo : isSoloJob (.begins job :: since)) : ownTalk since = talkOf since := by
  induction since with
  | nil => rfl
  | cons e since ih =>
    obtain ⟨hown, hrest⟩ : _ ∧ _ := (Bool.and_eq_true _ _).mp solo
    have hsince : ownTalk since = talkOf since := ih hrest
    cases e with
    | begins | ends | arrives => cases hown
    | talks party said =>
      cases party with
      | kicker | guest => cases hown
      | owner => exact congrArg (said :: ·) hsince

/-- The run of a job that was all there was to a rehearsal, and what the board made of it. -/
theorem run_of_isSoloJob {memory : Memory ν} {feed : Feed} {board : SimulatedBoard}
    {cues : List (Cue R)} {job : R.Job} {a : R.Answer job} {before : List (Occurrence R)}
    (hlast : (rehearse memory feed board cues).occurrences = before ++ [.ends job a])
    (solo : isSoloJob before) :
    Routine.Run (R.routine job) (talkOf before) a ∧
      board.Answers (talkOf before) (rehearse memory feed board cues).board := by
  have run := rehearse_runs memory feed board cues
  have answers := rehearse_answers memory feed board cues
  rw [hlast] at run answers
  rw [talkOf_snoc_ends] at answers
  refine ⟨?_, answers⟩
  obtain ⟨earlier, since, rfl, -, hrun⟩ := run.run_of_ends rfl
  obtain rfl := eq_nil_of_isSingleJob (isSingleJob_of_isSoloJob solo)
  rw [ownTalk_of_isSoloJob solo] at hrun
  exact hrun

end Rehearsal

end HashBoard
