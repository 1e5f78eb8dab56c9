import HashBoard.Proofs.Fault.Worker
import HashBoard.Proofs.Feed.Pending
import HashBoard.Proofs.Ready.Worker
import HashBoard.Proofs.Routine.After

/-!
# A worker searches only what the board is prepared for

Whenever a worker calls a search, the work is the one it took from the feed last, the board can do
it and is prepared for its epoch, and the two checks that came in between found the board neither
halted nor busy. Work of another algorithm is not searched: the worker says so and leaves, without a
word to the board but that it disconnects.

That a worker calls a search is read off what is left of it, which is a search and whatever comes
after. Nothing is assumed about how it got there.
-/

namespace HashBoard

open Routine

variable {ν : Type}

/-- A worker that took some work found the board neither halted nor busy, and did nothing else. -/
def Cleared {R : Repertoire ν} (es : List (Occurrence R)) (work : Work) : Prop :=
  ∃ before since m m', es = before ++ .talks .owner ⟨.latestWork, some work⟩ :: since ∧
    ownTalk since = [⟨.memory, m⟩, ⟨.memory, m'⟩] ∧ m.halted = false ∧ m'.busy = false

namespace Ready

variable [Quantity ν] {b : Board} {memory : Memory ν} {feed : Feed}
  {es : List (Occurrence (Worker.duty b (ν := ν)))} {s : Scene (Worker.duty b (ν := ν))}

/-- The account of a run. -/
def accountOf (sh : Shared ν) (es : List (Occurrence (Worker.duty b (ν := ν)))) : Account ν where
  lastEpoch := (sh.afterAll es).memory.lastEpoch
  talk := ownTalk es

/-- What is left of a worker keeps to what a worker keeps to. -/
theorem standing_of_runs (run : Scene.Runs (.quiet memory feed) es s)
    (source : ∀ epoch ctx, .talks .owner ⟨.epochContext epoch, some ctx⟩ ∈ es → ctx.epoch = epoch) :
    s.Standing (watch ν) (fun _ ↦ True) (fun _ _ _ ↦ True) (accountOf { memory, feed } es) := by
  refine run.upkeep rfl trivial ?_ ?_ ?_ ?_ ?_ ?_
  · intro pre job _ _
    exact ensures_run b _
  · exact fun _ _ _ _ _ ↦ trivial
  · intro pre t u r x ht _ hpre hx
    have hshared : ({ memory, feed } : Shared ν).afterAll pre = t.shared := ht.shared_eq.symm
    refine ⟨?_, ownTalk_snoc_own pre ⟨r, x⟩, t.shared.memory, ?_, ?_⟩
    · rw [accountOf, hshared]
      cases r with
      | memory =>
        obtain rfl : x = t.shared.memory := hx
        rfl
      | epochContext epoch =>
        cases x with
        | none => trivial
        | some ctx => exact source epoch ctx (hpre.subset (List.mem_append_right _ (.head _)))
      | _ => trivial
    · rw [accountOf, hshared]
    · rw [accountOf, Shared.afterAll_snoc, hshared, Shared.upon, Shared.memory_after]
  · intro pre t u e ht hs _ he
    have hfollows := hs.follows (ht.orderly (Scene.orderly_quiet memory feed)) he
    rw [ht.shared_eq, hs.shared_eq, ht.shared_eq] at hfollows
    rw [accountOf, accountOf, ownTalk_snoc_others pre he, Shared.afterAll_snoc]
    exact congrArg (Account.mk · _) hfollows.lastEpoch
  · exact fun _ _ _ _ ↦ trivial
  · exact fun _ _ _ _ _ _ ↦ trivial

theorem cleared_of_poised {sh : Shared ν} {work : Work} (h : Poised (accountOf sh es) work) :
    Cleared es work := by
  obtain ⟨earlier, m, m', htalk, hchecks⟩ := h.checked
  obtain ⟨before, since, hes, -, hsince⟩ := ownTalk_eq_append_cons htalk
  exact ⟨before, since, m, m', hes, hsince, hchecks⟩

/-! ## Work of another algorithm -/

/-- What a worker says that was given work of another algorithm. -/
def refusal (algorithm : String) : List (Answered ν) :=
  ⟨.note (.unsupportedWork algorithm), ()⟩ :: Worker.farewell

omit [Quantity ν] in
theorem ne_latestWork_of_apart {r : Request ν} (h : Feed.Apart r) : r ≠ .latestWork := by
  rintro rfl
  exact h

/-- Only a turn takes work, and it turns to what it took. -/
theorem after_turn (b : Board) (epoch : Option Word) :
    (Worker.turn b epoch : Routine ν _).After .latestWork fun latest p ↦
      ∀ work, latest = some work → p = Worker.serve b epoch work := by
  refine .ask (by simp) fun cancelled ↦ ?_
  change After _ (if cancelled then _ else _) _
  split
  · trivial
  · refine .ask (by simp) fun _ ↦ ⟨?_, fun latest ↦ Only.after ?_⟩
    · rintro - latest work rfl
      rfl
    · cases latest with
      | none => exact (Feed.only_idleThen epoch).mono fun _ ↦ ne_latestWork_of_apart
      | some work => exact (Feed.only_serve b epoch work).mono fun _ ↦ ne_latestWork_of_apart

/-- What is left of a worker that was given work of another algorithm. -/
theorem after_latestWork (b : Board) : (Worker.run b : Routine ν _).After .latestWork fun latest p ↦
    ∀ work, latest = some work → work.isSupported = false →
      p = leaving ((refusal work.algorithm).map Answered.request)
        (.error (.unsupportedWork work.algorithm)) := by
  refine .ask (by simp) fun seen ↦ .ask (by simp) fun _ ↦ ⟨fun epoch ↦ ?_, fun x ↦ Only.after ?_⟩
  · refine (after_turn b epoch).mono ?_
    rintro latest p hp work rfl unsupported
    rw [hp work rfl, Worker.serve, if_pos (by simp [unsupported])]
    rfl
  · have leaves (x : Except BoardError Unit) : (do
        request .stopKicker
        Board.disconnect
        pure x : Routine ν _).Only (· ≠ .latestWork) :=
      ⟨by simp, fun _ ↦ ⟨by simp, fun _ ↦ ⟨by simp, fun _ ↦ trivial⟩⟩⟩
    cases x with
    | error e => exact leaves (.error e)
    | ok => exact ⟨by simp, fun _ ↦ ⟨by simp, fun _ ↦ leaves (.ok ())⟩⟩

/-- A worker that was given work of another algorithm at some point of a run, as it stands after
some more occurrences. -/
structure Refuses (sh : Shared ν) (before : List (Occurrence (Worker.duty b (ν := ν))))
    (work : Work) (since : List (Occurrence (Worker.duty b (ν := ν))))
    (s : Scene (Worker.duty b (ν := ν))) : Prop where
  /-- It said no more than that it refuses and leaves. -/
  spoken : (ownTalk since).map Answered.request <+:
    (refusal work.algorithm : List (Answered ν)).map Answered.request
  /-- It has accessed no register. -/
  silent : accesses (ownTalk since) = []
  /-- It can go on by itself and end with an error, accessing no register. -/
  ends : ∃ rest : List (Answered ν), ∃ t, accesses rest = [] ∧ Scene.Runs { shared := sh }
    (before ++ .talks .owner ⟨.latestWork, some work⟩ :: since ++ rest.map (.talks .owner) ++
      [.ends () (.error (.unsupportedWork work.algorithm))]) t
  /-- It ends in no other way. -/
  answer : ∀ a t, Scene.Step s (.ends () a) t → a = .error (.unsupportedWork work.algorithm)

omit [Quantity ν] in
theorem isAccess_of_mem_refusal {algorithm : String} {r : Request ν}
    (h : r ∈ (refusal algorithm).map Answered.request) : r.isAccess = false := by
  simp only [refusal, Worker.farewell, List.map_cons, List.map_nil, List.mem_cons,
    List.not_mem_nil, or_false] at h
  rcases h with rfl | rfl | rfl | rfl <;> rfl

omit [Quantity ν] in
theorem accesses_eq_nil {algorithm : String} {talk : List (Answered ν)}
    (h : ∀ said ∈ talk, said.request ∈ (refusal algorithm).map Answered.request) :
    accesses talk = [] := by
  refine List.filter_eq_nil_iff.mpr fun said hsaid ↦ ?_
  rw [isAccess_of_mem_refusal (h said hsaid)]
  nofun

omit [Quantity ν] in
theorem permits_of_mem_refusal {algorithm : String} {said : Answered ν}
    (h : said ∈ refusal algorithm) (sh : Shared ν) : sh.Permits said.request said.reply := by
  simp only [refusal, Worker.farewell, List.mem_cons, List.not_mem_nil, or_false] at h
  rcases h with rfl | rfl | rfl | rfl <;> trivial

theorem refuses_of_unsupported {before since : List (Occurrence (Worker.duty b (ν := ν)))}
    {work : Work}
    (run : Scene.Runs (.quiet memory feed)
      (before ++ .talks .owner ⟨.latestWork, some work⟩ :: since) s)
    (within : ∀ e ∈ since, e.IsWithin) (unsupported : work.isSupported = false) :
    Refuses { memory, feed } before work since s := by
  obtain ⟨⟨⟩, p, q, talk, howner, hq, hp⟩ := run.path_of_told rfl within
  obtain rfl := (after_latestWork b).of_path hq work rfl unsupported
  obtain ⟨rest, hrefusal, rfl⟩ := path_leaving hp
  constructor
  · exact ⟨rest, hrefusal.symm⟩
  · have told : ∀ said ∈ ownTalk since,
        said.request ∈ (refusal work.algorithm).map Answered.request := by
      intro said hsaid
      rw [hrefusal]
      exact List.mem_append_left _ (List.mem_map_of_mem hsaid)
    exact accesses_eq_nil told
  · let last : List (Answered ν) := (refusal work.algorithm).drop (ownTalk since).length
    have hlast : last.map Answered.request = rest := by
      rw [List.map_drop, hrefusal]
      exact List.drop_left' (List.length_map _)
    have hmem : ∀ said ∈ last, said ∈ refusal work.algorithm := fun _ ↦ List.mem_of_mem_drop
    have leaves : Run (leaving rest (.error (.unsupportedWork work.algorithm))) last
        (.error (.unsupportedWork work.algorithm) : Except BoardError Unit) := run_leaving hlast
    obtain ⟨q, hpath, hends⟩ := leaves
    obtain ⟨t, ht, howner', -⟩ := run.of_path howner hpath
      (Shared.tells_of_permits (fun said h ↦ permits_of_mem_refusal (hmem said h)) _)
    refine ⟨last, _, ?_, ht.snoc (.ends howner' hends)⟩
    exact accesses_eq_nil fun said h ↦ List.mem_map_of_mem (hmem said h)
  · intro a t hs
    cases hs with
    | ends howner' hends =>
      rw [howner] at howner'
      cases howner'
      exact eq_of_ends_leaving hends

end Ready

/-- **A worker searches only what its board is prepared for.** Given a source of work that hands out
the context of the epoch it is asked for, or none: whenever a worker calls a search, the work is the
one it took last, it found the board neither halted nor busy since, the algorithm is the one the
board can do, and the epoch the board was prepared for last is that of the work. Work of another
algorithm ends the worker before it accesses any register. -/
theorem searches_only_prepared [Quantity ν] (b : Board) {memory : Memory ν} {feed : Feed}
    {es : List (Occurrence (Worker.duty b (ν := ν)))} {s : Scene (Worker.duty b (ν := ν))}
    (run : Scene.Runs (.quiet memory feed) es s)
    (source : ∀ epoch ctx, .talks .owner ⟨.epochContext epoch, some ctx⟩ ∈ es →
      ctx.epoch = epoch) :
    (∀ work rest, s.owner = some ⟨(), (b.search work).bind rest⟩ →
      Cleared es work ∧ work.algorithm = supportedAlgorithm ∧
        s.shared.memory.lastEpoch = some work.epoch) ∧
    ∀ before work since, es = before ++ .talks .owner ⟨.latestWork, some work⟩ :: since →
      (∀ e ∈ since, e.IsWithin) → work.algorithm ≠ supportedAlgorithm →
      Ready.Refuses { memory, feed } before work since s := by
  constructor
  · intro work rest howner
    have stands := (Ready.standing_of_runs run source).2 () _ howner
    have hlast : s.shared.memory.lastEpoch = (Ready.accountOf { memory, feed } es).lastEpoch := by
      rw [run.shared_eq]
      rfl
    have poised := Ready.poised_of_ensures stands hlast
    refine ⟨Ready.cleared_of_poised poised, ?_, ?_⟩
    · simpa [Work.isSupported] using poised.supported
    · rw [run.shared_eq]
      exact poised.prepared
  · rintro before work since rfl within hother
    exact Ready.refuses_of_unsupported run within (by simpa [Work.isSupported] using hother)

/-! ### Work that is searched, and work that is not -/

namespace Ready

/-- A source of work hands out the context it was asked for. -/
def isHonest : Occurrence (Worker.duty plainBoard (ν := Rat)) → Bool
  | .talks .owner ⟨.epochContext epoch, some ctx⟩ => ctx.epoch = epoch
  | _ => true

theorem source_of_isHonest {es : List (Occurrence (Worker.duty plainBoard (ν := Rat)))}
    (h : es.all isHonest) (epoch : Word) (ctx : EpochContext)
    (hmem : .talks .owner ⟨.epochContext epoch, some ctx⟩ ∈ es) : ctx.epoch = epoch := by
  simpa [isHonest] using List.all_eq_true.mp h _ hmem

/-- A worker looks at the feed and finds work of another algorithm. -/
def foreignLook : Rehearsal (Worker.duty plainBoard (ν := Rat)) :=
  .rehearse (.start 0 false) { latest := some Fault.foreignWork } {} [.begins (), .goes .owner 5]

/-- A worker takes work that the board cannot do. -/
def takesForeign : Occurrence (Worker.duty plainBoard (ν := Rat)) → Bool
  | .talks .owner ⟨.latestWork, some work⟩ => work.algorithm ≠ supportedAlgorithm
  | _ => false

end Ready

/-- The guarantee where a worker calls a search of work that its board is prepared for, and where a
worker takes work of another algorithm. -/
theorem prepared_or_refused :
    (∃ es, ∃ s : Scene (Worker.duty plainBoard (ν := Rat)), ∃ work, ∃ rest,
      Scene.Runs (.quiet Feed.preparedMemory Feed.someFeed) es s ∧
        s.owner = some ⟨(), (plainBoard.search work).bind rest⟩ ∧ Cleared es work ∧
        work.algorithm = supportedAlgorithm ∧ s.shared.memory.lastEpoch = some work.epoch) ∧
    ∃ before, ∃ work, ∃ s : Scene (Worker.duty plainBoard (ν := Rat)),
      Scene.Runs (.quiet (.start 0 false) { latest := some Fault.foreignWork })
        (before ++ [.talks .owner ⟨.latestWork, some work⟩]) s ∧
        Ready.Refuses { memory := .start 0 false, feed := { latest := some Fault.foreignWork } }
          before work [] s := by
  constructor
  · obtain ⟨rest, s, run, howner, -⟩ := Feed.runs_way plainBoard Feed.preparedMemory Feed.someFeed
      rfl rfl rfl rfl rfl
    have honest : (Feed.way plainBoard Feed.preparedMemory Feed.someWork
        Feed.someFeed.version).all Ready.isHonest := by decide +kernel
    have source := Ready.source_of_isHonest honest
    have searched := (searches_only_prepared plainBoard run source).1 _ _ howner
    exact ⟨_, s, Feed.someWork, rest, run, howner, searched⟩
  · have run : Scene.Runs (.quiet (.start 0 false) { latest := some Fault.foreignWork })
        Ready.foreignLook.occurrences Ready.foreignLook.scene := Rehearsal.rehearse_runs ..
    have takes : Ready.foreignLook.lastPasses Ready.takesForeign := by decide +kernel
    have honest : Ready.foreignLook.occurrences.all Ready.isHonest := by decide +kernel
    have source := Ready.source_of_isHonest honest
    obtain ⟨e, htest, hlast⟩ := Rehearsal.occurrences_of_lastPasses takes
    rw [hlast] at run source
    unfold Ready.takesForeign at htest
    split at htest
    · rename_i work
      have refused := (searches_only_prepared plainBoard run source).2 _ work [] rfl
        (List.forall_mem_nil _) (by simpa using htest)
      exact ⟨_, work, _, run, refused⟩
    · cases htest

end HashBoard
