import HashBoard.Proofs.Epoch.Asks
import HashBoard.Proofs.Scene.Upkeep

/-!
# A worker inside a search

Where a worker is can be read off what it asked and what is left of it. It is inside a search if,
since it last looked at the feed, it made the two checks that come before a search and then went
some way into `Board.search`. This is not a rare place: a worker gets there from any board that is
prepared for the latest work (`exists_searching`), and stays there whatever others do.
-/

namespace HashBoard

open Routine

variable {ν : Type}

variable [Quantity ν]

/-- A worker is inside a search of some work that it took from the feed at a publication: since it
looked it only checked whether the board was halted or busy, and then got some way into the search;
what is left of it is what is left of that search, and what comes after. -/
def Searching (b : Board) (sh : Shared ν) (es : List (Occurrence (Worker.duty b (ν := ν))))
    (s : Scene (Worker.duty b (ν := ν))) (work : Work) (version : Nat) : Prop :=
  ∃ before since checks talk, ∃ q : Routine ν (Except BoardError SearchExit),
    ∃ rest : Except BoardError SearchExit → Routine ν (Except BoardError Unit),
      es = before ++ .talks .owner ⟨.latestWork, some work⟩ :: since ∧
      version = (sh.afterAll before).feed.version ∧
      ownTalk since = checks ++ talk ∧ (∀ said ∈ checks, said.request = .memory) ∧
      Path (b.search work) talk q ∧ s.owner = some ⟨(), q.bind rest⟩

/-- What others do does not bring a worker out of its search. -/
theorem Searching.beside {b : Board} {sh : Shared ν}
    {es : List (Occurrence (Worker.duty b (ν := ν)))} {s t : Scene (Worker.duty b (ν := ν))}
    {work : Work} {version : Nat} (h : Searching b sh es s work version)
    (others : List (Occurrence (Worker.duty b (ν := ν)))) (hown : ownTalk others = [])
    (howner : t.owner = s.owner) : Searching b sh (es ++ others) t work version := by
  obtain ⟨before, since, checks, talk, q, rest, rfl, hversion, htalk, hchecks, hpath, hs⟩ := h
  refine ⟨before, since ++ others, checks, talk, q, rest, ?_, hversion, ?_, hchecks, hpath, ?_⟩
  · rw [List.append_assoc, List.cons_append]
  · rw [ownTalk_append, hown, List.append_nil, htalk]
  · rw [howner, hs]

/-! ## Getting there -/

namespace Feed

variable {b : Board} {work : Work} {m : Memory ν} {ctx : EpochContext}

/-- What a worker hears in a turn before it turns to the latest work. -/
def lookTalk (work : Work) : List (Answered ν) :=
  [⟨.isCancelled, false⟩, ⟨.revise fun m ↦ { m with newWork := false }, ()⟩,
    ⟨.latestWork, some work⟩]

/-- What a worker hears in its first turn after that, if the board is prepared for the epoch. -/
def firstTalk (m : Memory ν) (ctx : EpochContext) : List (Answered ν) :=
  [⟨.memory, m⟩, ⟨.epochContext ctx.epoch, some ctx⟩, ⟨.memory, m⟩, ⟨.acquire, ()⟩, ⟨.memory, m⟩,
    ⟨.release, ()⟩]

/-- What a worker hears in its second turn, up to the search. -/
def secondTalk (m : Memory ν) : List (Answered ν) := [⟨.memory, m⟩, ⟨.memory, m⟩]

theorem path_turn {epoch : Option Word} {talk : List (Answered ν)} {q : Routine ν Worker.Turn}
    (h : Path (Worker.serve b epoch work) talk q) :
    Path (Worker.turn b epoch) (lookTalk work ++ talk) q :=
  .cons (.ask ..) (.cons (.ask ..) (.cons (.ask ..) h))

theorem path_prepare {epoch : Option Word} (halted : m.halted = false)
    (last : m.lastEpoch = some ctx.epoch) :
    Path (Worker.prepare b epoch ctx.epoch) (firstTalk m ctx).tail
      (.done (.inl (some ctx.epoch))) := by
  have hskipped : Path (b.prepareEpoch ctx : Routine ν _) (firstTalk m ctx).tail.tail
      (.done (.ok .skipped)) := by
    rw [Board.prepareEpoch_eq]
    refine .cons (.ask ..) ?_
    simp only [halted]
    refine .cons (.ask ..) (.cons (.ask ..) (.cons (.ask ..) ?_))
    simp only [last]
    exact .nil _
  exact .cons (.ask ..) (hskipped.bind _)

theorem path_first (hctx : ctx.epoch = work.epoch) (hwork : work.isSupported)
    (halted : m.halted = false) (last : m.lastEpoch = some ctx.epoch) :
    Path (Worker.serve b none work) (firstTalk m ctx) (.done (.inl (some work.epoch))) := by
  have hserve : (Worker.serve b none work : Routine ν _) = .ask .memory fun m ↦
      if m.halted then Worker.idleThen none else Worker.prepare b none work.epoch := by
    rw [Worker.serve, if_neg (by simp [hwork])]
    rfl
  rw [hserve]
  refine .cons (.ask ..) ?_
  simp only [halted, ← hctx]
  exact path_prepare halted last

/-- How a worker goes on after a search. -/
def afterSearch (epoch : Option Word) : Except BoardError SearchExit → Routine ν Worker.Turn
  | .ok _ => pure (.inl epoch)
  | .error e => pure (.inr (.error e))

theorem path_second (hwork : work.isSupported) (halted : m.halted = false)
    (busy : m.busy = false) : Path (Worker.serve b (some work.epoch) work) (secondTalk m)
      ((b.search work).bind (afterSearch (some work.epoch))) := by
  have hserve : (Worker.serve b (some work.epoch) work : Routine ν _) = .ask .memory fun m ↦
      if m.halted then Worker.idleThen (some work.epoch) else .ask .memory fun m ↦
        if m.busy then Worker.idleThen (some work.epoch)
        else (b.search work).bind (afterSearch (some work.epoch)) := by
    rw [Worker.serve, if_neg (by simp [hwork])]
    simp only [ne_eq, not_true_eq_false, if_false]
    rfl
  rw [hserve]
  refine .cons (.ask ..) ?_
  simp only [halted]
  refine .cons (.ask ..) ?_
  simp only [busy]
  exact .nil _

/-- What a worker hears from the beginning until its first search. -/
def wayTalk (work : Work) (m : Memory ν) (ctx : EpochContext) (seen : Nat) : List (Answered ν) :=
  [⟨.subscribe, seen⟩, ⟨.startKicker seen, ()⟩] ++
    (lookTalk work ++ firstTalk m ctx ++ (lookTalk work ++ secondTalk m))

theorem path_run (seen : Nat) (hctx : ctx.epoch = work.epoch) (hwork : work.isSupported)
    (halted : m.halted = false) (busy : m.busy = false) (last : m.lastEpoch = some ctx.epoch) :
    ∃ rest, Path (Worker.run b) (wayTalk work m ctx seen) ((b.search work).bind rest) := by
  have hsecond := path_second (b := b) hwork halted busy
  have rounds {α : Type} {next : Except BoardError Unit → Routine ν α} :
      Path (.loop none (Worker.turn b) next)
        (lookTalk work ++ firstTalk m ctx ++ (lookTalk work ++ secondTalk m))
        (((b.search work).bind (afterSearch _)).bind (again (Worker.turn b) next)) :=
    .append (path_turn (path_first hctx hwork halted last)).round (path_turn hsecond).round
  simp only [bind_assoc] at rounds
  exact ⟨_, .cons (.ask ..) (.cons (.ask ..) rounds)⟩

/-- What a source of work hands out for the epoch of some work. -/
def wayContext (work : Work) : EpochContext where
  epoch := work.epoch
  dagSize := 0
  lightSize := 0
  seed := .zero
  lightCache := none

/-- What occurs until a worker calls its first search. -/
def way (b : Board) (memory : Memory ν) (work : Work) (seen : Nat) :
    List (Occurrence (Worker.duty b (ν := ν))) :=
  .begins () :: (wayTalk work { memory with newWork := false } (wayContext work) seen).map
    (.talks .owner)

/-- A worker calls a search of the latest work if the board is prepared for it. -/
theorem runs_way (b : Board) (memory : Memory ν) (feed : Feed) {work : Work}
    (hlatest : feed.latest = some work) (hwork : work.isSupported)
    (halted : memory.halted = false) (busy : memory.busy = false)
    (last : memory.lastEpoch = some work.epoch) :
    ∃ rest, ∃ s : Scene (Worker.duty b (ν := ν)),
      Scene.Runs (.quiet memory feed) (way b memory work feed.version) s ∧
      s.owner = some ⟨(), (b.search work).bind rest⟩ ∧ ∀ n, Ends (s.guests n) () := by
  let m : Memory ν := { memory with newWork := false }
  have hctx : (wayContext work).epoch = work.epoch := rfl
  obtain ⟨rest, hpath⟩ := path_run (b := b) (m := m) feed.version hctx hwork halted busy last
  let start : Scene (Worker.duty b) := .quiet memory feed
  have begun : Scene.Runs start [.begins ()] { start with owner := some ⟨(), Worker.run b⟩ } :=
    .snoc (.nil start) (.begins (R := Worker.duty b) () rfl)
  have told : start.shared.Tells (wayTalk work m (wayContext work) feed.version) := by
    refine ⟨rfl, trivial, ?_⟩
    have hlatest : some work = feed.latest := hlatest.symm
    exact ⟨trivial, trivial, hlatest, rfl, trivial, rfl, rfl, rfl, trivial, trivial, trivial,
      hlatest, rfl, rfl, trivial⟩
  obtain ⟨s, run, howner, hguests⟩ := begun.of_path rfl hpath told
  refine ⟨rest, s, run, howner, fun n ↦ ?_⟩
  rw [hguests]
  exact .done ()

/-- A worker gets into a search of the latest work if the board is prepared for it. -/
theorem exists_searching (b : Board) (memory : Memory ν) (feed : Feed) {work : Work}
    (hlatest : feed.latest = some work) (hwork : work.isSupported)
    (halted : memory.halted = false) (busy : memory.busy = false)
    (last : memory.lastEpoch = some work.epoch) :
    ∃ es, ∃ s : Scene (Worker.duty b (ν := ν)), Scene.Runs (.quiet memory feed) es s ∧
      Searching b { memory, feed } es s work feed.version ∧ s.shared.feed = feed ∧
      ∀ n, Ends (s.guests n) () := by
  obtain ⟨rest, s, run, howner, hguests⟩ := runs_way b memory feed hlatest hwork halted busy last
  refine ⟨_, s, run, ?_, ?_, hguests⟩
  · let m : Memory ν := { memory with newWork := false }
    let before := [⟨.subscribe, feed.version⟩, ⟨.startKicker feed.version, ()⟩] ++
      (lookTalk work ++ firstTalk m (wayContext work) ++ (lookTalk work).take 2)
    refine ⟨.begins () :: before.map (.talks .owner), (secondTalk m).map (.talks .owner),
      secondTalk m, [], b.search work, rest, rfl, rfl, rfl, ?_, .nil _, howner⟩
    rintro said (_ | ⟨_, _ | ⟨_, ⟨⟩⟩⟩) <;> rfl
  · rw [run.shared_eq]
    rfl

/-- Somebody who is not there can come and publish. -/
theorem publishes {R : Repertoire ν} {s₀ s : Scene R} {es : List (Occurrence R)}
    (run : Scene.Runs s₀ es s) {n : Nat} (away : Ends (s.guests n) ()) (work : Option Work) :
    ∃ t, Scene.Runs s₀
        (es ++ [.arrives n (.publish work), .talks (.guest n) ⟨.publish work, ()⟩]) t ∧
      t.owner = s.owner ∧ t.shared = s.shared.after (.guest n) (.publish work) := by
  let purpose : Purpose := .publish work
  let t : Scene R := { s with guests := Function.update s.guests n purpose.routine }
  have comes : Scene.Step s (.arrives n purpose) t := .arrives n purpose away
  have hguest : t.guests n = request (.publish work) := Function.update_self ..
  have asks : Steps (t.guests n) (.publish work) () (.done ()) := by
    rw [hguest]
    exact .ask ..
  have run := (run.snoc comes).snoc (.guest asks trivial)
  rw [List.append_assoc] at run
  exact ⟨_, run, rfl, rfl⟩

end Feed

end HashBoard
