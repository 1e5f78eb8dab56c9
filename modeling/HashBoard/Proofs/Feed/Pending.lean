import Mathlib.Data.List.Induction
import HashBoard.Proofs.Feed.Searching
import HashBoard.Proofs.Feed.Worker
import HashBoard.Proofs.Scene.Rehearsal

/-!
# No published work is lost

While a worker searches, work that is newer than what it searches is announced by the flag, or the
kicker still has it pending. The proof keeps the ledger of the run sound, step by step and party by
party: a publication finds a kicker that has not seen it, the kicker sets the flag for what it saw,
and nobody but the worker takes the flag back, who looks at the feed after that.
-/

namespace HashBoard

open Routine Feed

variable {ν : Type}

/-- What is left of a kicker begins by setting the flag. -/
def SetsFlag (p : Routine ν Unit) : Prop :=
  ¬Ends p () ∧ ∀ (r : Request ν) (x : Reply r) (q : Routine ν Unit),
    Steps p r x q → ∃ f, r = .revise f ∧ ∀ m, (f m).newWork

/-- The kicker has the latest publication pending: it is there, it was not told that no more will
come, and either that publication is not the one it saw last and it has not ended, or setting the
flag is what it does next. -/
def KickPending {R : Repertoire ν} (es : List (Occurrence R)) (s : Scene R) : Prop :=
  (kicking es).started ∧ ¬(kicking es).ended ∧
    ((kicking es).seen ≠ s.shared.feed.version ∧ ¬Ends s.kicker () ∨ SetsFlag s.kicker)

namespace Feed

variable {sh : Shared ν} {l : Ledger} {r : Request ν} {x : Reply r}

/-! ## Keeping the ledger sound -/

theorem lowers_of_modest (h : Modest r) (sh : Shared ν) : Ledger.Lowers sh r = false := by
  cases h with
  | quiet h => exact (undisturbing_of_isQuiet h).2 sh
  | books h => exact lowers_books h sh
  | halt | newWork => exact lowers_of_keeps (fun _ _ ↦ rfl) sh
  | _ => rfl

/-- The worker keeps the ledger sound: it starts the kicker at what it was told, and looks only
while the kicker is there. -/
theorem sound_after_owner (h : l.Sound sh) (hx : sh.Permits r x)
    (allowed : (workerWatch ν).allows ⟨l.subscribed, l.kicking.started⟩ r) :
    (l.after sh ⟨r, x⟩).Sound (sh.after .owner r) := by
  cases r with
  | subscribe =>
    have hversion : x = sh.feed.version := hx
    refine ⟨fun n hn ↦ ?_, h.seen, h.ended, h.started, h.owed⟩
    cases hn
    exact Nat.le_of_eq hversion
  | startKicker seen =>
    have hseen : seen ≤ sh.feed.version := h.subscribed seen (allowed.1 seen rfl)
    exact ⟨h.subscribed, hseen, nofun, nofun, nofun⟩
  | stopKicker => exact ⟨h.subscribed, h.seen, h.ended, nofun, nofun⟩
  | latestWork =>
    refine ⟨h.subscribed, h.seen, h.ended, fun _ _ ↦ allowed.2 rfl, fun v hv hlt ↦ ?_⟩
    cases hv
    exact absurd hlt (Nat.lt_irrefl _)
  | revise f =>
    cases hlowers : Ledger.Lowers sh (.revise f) with
    | true =>
      -- from here to its next look the worker is owed nothing
      have hlooked : (l.after sh ⟨.revise f, x⟩).looked = none := if_pos hlowers
      exact ⟨h.subscribed, h.seen, h.ended, fun v hv ↦ by simp [hlooked] at hv,
        fun v hv ↦ by simp [hlooked] at hv⟩
    | false =>
      have hsame : l.after sh ⟨.revise f, x⟩ = l := by simp [Ledger.after, hlowers, Kicking.ordered]
      rw [hsame]
      exact h.grows (Ledger.grows_of_not_lowers hlowers)
  | _ => exact h.grows (Ledger.grows_of_not_lowers rfl)

/-- The kicker keeps the ledger sound: what it sees is pending until it sets the flag. -/
theorem sound_after_kicker (h : l.Sound sh) (hx : sh.Permits r x)
    (allowed : (kickerWatch ν).allows l.kicking r) :
    ({ l with kicking := l.kicking.after ⟨r, x⟩ } : Ledger).Sound (sh.after .kicker r) := by
  obtain ⟨hnext, hset, -, hended⟩ := allowed
  cases r with
  | nextChange seen =>
    obtain ⟨hseen, howes⟩ := hnext seen rfl
    cases x with
    | some n =>
      obtain ⟨hn, -⟩ : n = sh.feed.version ∧ n ≠ seen := hx
      refine ⟨h.subscribed, Nat.le_of_eq hn, h.ended, h.started, fun v hv _ ↦ .inr ?_⟩
      exact ⟨h.started v hv, by simp [Kicking.after, hended], .inr rfl⟩
    | none =>
      -- it is told the end only when it has seen the last publication
      obtain ⟨hversion, hclosed⟩ : sh.feed.version = seen ∧ sh.feed.isOpen = false := hx
      refine ⟨h.subscribed, h.seen, fun _ ↦ hclosed, h.started, fun v hv hlt ↦ .inl ?_⟩
      refine (h.owed v hv hlt).resolve_right fun hpending ↦ ?_
      rcases hpending.2.2 with hunseen | howing
      · exact hunseen (hseen.trans hversion.symm)
      · rw [howes] at howing
        cases howing
  | revise f =>
    exact ⟨h.subscribed, h.seen, h.ended, h.started, fun _ _ _ ↦ .inl (hset f rfl sh.memory)⟩
  | _ => exact h.grows (Ledger.grows_of_not_lowers rfl)

/-! ## Along a run -/

section Runs

variable [Quantity ν] {b : Board} {memory : Memory ν} {feed : Feed}
  {es : List (Occurrence (Worker.duty b (ν := ν)))} {s : Scene (Worker.duty b (ν := ν))}

/-- What a run comes to for the worker: the part of the ledger that is its own doing. -/
def view (sh : Shared ν) {R : Repertoire ν} (es : List (Occurrence R)) : Posture where
  subscribed := (ledger sh es).subscribed
  started := (ledger sh es).kicking.started

omit [Quantity ν] in
theorem started_after (k : Kicking) (said : Answered ν) : (k.after said).started = k.started := by
  unfold Kicking.after
  split <;> rfl

omit [Quantity ν] in
theorem view_snoc_owner {R : Repertoire ν} (sh : Shared ν) (es : List (Occurrence R))
    (r : Request ν) (x : Reply r) :
    view sh (es ++ [.talks .owner ⟨r, x⟩]) = (view sh es).after ⟨r, x⟩ := by
  simp only [view, ledger_snoc]
  cases r <;> rfl

omit [Quantity ν] in
theorem view_snoc_others {R : Repertoire ν} (sh : Shared ν) (es : List (Occurrence R))
    {e : Occurrence R} (he : e.IsOthers) : view sh (es ++ [e]) = view sh es := by
  simp only [view, ledger_snoc]
  cases e with
  | begins | ends => exact he.elim
  | arrives => rfl
  | talks party said =>
    cases party with
    | owner => exact absurd rfl he
    | guest => rfl
    | kicker => simp only [Ledger.upon, started_after]

theorem posture_of_runs (run : Scene.Runs (.quiet memory feed) es s) :
    s.Standing (workerWatch ν) (fun _ ↦ True) (fun _ _ _ ↦ True) (view { memory, feed } es) := by
  refine run.upkeep rfl trivial ?_ ?_ ?_ ?_ ?_ ?_
  · exact fun pre _ _ _ ↦ ensures_run b _
  · exact fun _ _ _ _ _ ↦ trivial
  · exact fun pre t u r x _ _ _ _ ↦ view_snoc_owner _ pre r x
  · exact fun pre t u e _ _ _ he ↦ view_snoc_others _ pre he
  · exact fun _ _ _ _ ↦ trivial
  · exact fun _ _ _ _ _ _ ↦ trivial

/-- What a run keeps: the kicker does its part, and the ledger is sound. -/
structure Kept (sh : Shared ν) (es : List (Occurrence (Worker.duty b (ν := ν))))
    (s : Scene (Worker.duty b (ν := ν))) : Prop where
  kicker : s.kicker.Ensures (kickerWatch ν) (fun _ ↦ Kicking.Over) (kicking es)
  sound : (ledger sh es).Sound s.shared

theorem kept_of_runs (run : Scene.Runs (.quiet memory feed) es s) :
    Kept { memory, feed } es s := by
  refine run.invariant (I := Kept { memory, feed }) ?_ ?_
  · exact ⟨⟨rfl, nofun⟩, ⟨nofun, Nat.zero_le _, nofun, nofun, nofun⟩⟩
  · -- one case for each kind of step; only the owner and the kicker write in the ledger
    intro pre t e u hr hs h
    have hshared : Shared.afterAll { memory, feed } pre = t.shared := hr.shared_eq.symm
    have horderly := hr.orderly (Scene.orderly_quiet memory feed)
    have hs' := hs
    cases hs with
    | begins | ends | arrives =>
      constructor
      · rw [kicking_snoc]
        exact h.kicker
      · rw [ledger_snoc]
        exact h.sound
    | @owner job p q r x howner hp hx =>
      constructor
      · rw [kicking_snoc]
        cases r with
        | startKicker seen => exact ensures_kicker ⟨rfl, rfl, rfl⟩
        | stopKicker => exact ⟨rfl, nofun⟩
        | _ => exact h.kicker
      · rw [ledger_snoc, hshared]
        have hstanding := (posture_of_runs hr).2 job p howner
        exact sound_after_owner h.sound hx (hstanding.allows_of_steps hp)
    | @kicker q r x hk hx =>
      have hallows := h.kicker.allows_of_steps hk
      constructor
      · rw [kicking_snoc]
        exact h.kicker.of_steps hk ⟨_, rfl, rfl⟩
      · rw [ledger_snoc]
        refine sound_after_kicker h.sound hx ?_
        rw [kicking_ledger]
        exact hallows
    | @guest n q r x hg hx =>
      constructor
      · rw [kicking_snoc]
        exact h.kicker
      · rw [ledger_snoc]
        have hmodest := (horderly.bystander_asks hs' nofun).1
        exact h.sound.grows (Ledger.grows_of_not_lowers (lowers_of_modest hmodest _))

/-- What is left of a kicker that was neither stopped nor told the end has not ended. -/
theorem Kept.not_ends {sh : Shared ν} (h : Kept sh es s) (hstarted : (kicking es).started)
    (hended : ¬(kicking es).ended) : ¬Ends s.kicker () :=
  fun he ↦ hended ((h.kicker.of_ends he).2 hstarted)

theorem Kept.setsFlag {sh : Shared ν} (h : Kept sh es s) (howes : (kicking es).owes) :
    SetsFlag s.kicker := by
  refine ⟨fun he ↦ ?_, fun r x q hs ↦ ?_⟩
  · rw [(h.kicker.of_ends he).1] at howes
    cases howes
  · obtain ⟨-, hset, hrevise, -⟩ := h.kicker.allows_of_steps hs
    obtain ⟨f, rfl⟩ := hrevise howes
    exact ⟨f, rfl, hset f rfl⟩

/-! ### Since the last look -/

omit [Quantity ν] in
theorem looked_after (l : Ledger) (sh : Shared ν) {r : Request ν} (h : Undisturbing r)
    (x : Reply r) : (l.after sh ⟨r, x⟩).looked = l.looked := by
  obtain ⟨hapart, hlowers⟩ := h
  cases r with
  | subscribe | startKicker | stopKicker | latestWork => exact hapart.elim
  | revise f => simp [Ledger.after, hlowers sh]
  | _ => rfl

omit [Quantity ν] in
theorem looked_since {R : Repertoire ν} {sh : Shared ν} {before since : List (Occurrence R)}
    (h : ∀ said ∈ ownTalk since, Undisturbing said.request) :
    (ledger sh (before ++ since)).looked = (ledger sh before).looked := by
  induction since using List.reverseRecOn with
  | nil => rw [List.append_nil]
  | append_singleton since e ih =>
    have hown : ownTalk (since ++ [e]) = ownTalk since ++ ownTalk [e] := List.filterMap_append
    rw [hown] at h
    have hlooked := ih fun said hsaid ↦ h said (List.mem_append_left _ hsaid)
    rw [← List.append_assoc, ledger_snoc, ← hlooked]
    cases e with
    | begins | ends | arrives => rfl
    | talks party said =>
      cases party with
      | kicker | guest => rfl
      | owner =>
        obtain ⟨r, x⟩ := said
        exact looked_after _ _ (h ⟨r, x⟩ (List.mem_append_right _ (.head _))) x

theorem looked_of_searching {sh : Shared ν} {work : Work} {version : Nat}
    (h : Searching b sh es s work version) : (ledger sh es).looked = some version := by
  obtain ⟨before, since, checks, talk, q, rest, rfl, rfl, htalk, hchecks, hpath, -⟩ := h
  have hundisturbed : ∀ said ∈ ownTalk since, Undisturbing said.request := by
    rw [htalk]
    intro said hsaid
    rcases List.mem_append.mp hsaid with hsaid | hsaid
    · exact undisturbing_of_isQuiet (by rw [hchecks said hsaid]; rfl)
    · exact (Board.only_search roomToSearch_undisturbing b).of_path hpath said hsaid
  rw [List.append_cons, looked_since hundisturbed, ledger_snoc]
  rfl

end Runs

end Feed

/-- **No published work is lost on a searching worker.** Wherever a run has got to while the worker
is inside a search of work that is older than the latest publication, the flag is set or the kicker
has that publication pending. -/
theorem newWork_or_pending_of_searching [Quantity ν] (b : Board) {memory : Memory ν} {feed : Feed}
    {es : List (Occurrence (Worker.duty b (ν := ν)))} {s : Scene (Worker.duty b (ν := ν))}
    (run : Scene.Runs (.quiet memory feed) es s) {work : Work} {version : Nat}
    (searching : Searching b { memory, feed } es s work version)
    (older : version < s.shared.feed.version) :
    s.shared.memory.newWork ∨ KickPending es s := by
  have kept := kept_of_runs run
  have owed := kept.sound.owed version (looked_of_searching searching) older
  rw [kicking_ledger] at owed
  refine owed.imp_right fun ⟨hstarted, hended, hpending⟩ ↦ ⟨hstarted, hended, ?_⟩
  exact hpending.imp (⟨·, kept.not_ends hstarted hended⟩) kept.setsFlag

/-! ### Work that comes during a search -/

namespace Feed

/-- Work of the epoch after the first. -/
def someWork : Work where
  header := .zero
  boundary := .zero
  startNonce := 0
  epoch := 1
  algorithm := supportedAlgorithm

/-- The memory of a board that is prepared for that epoch. -/
def preparedMemory : Memory Rat := { Memory.start 0 false with lastEpoch := some 1 }

/-- A feed with that work. -/
def someFeed : HashBoard.Feed := { latest := some someWork }

end Feed

/-- The guarantee at work that is published by a guest while the worker is inside its search. -/
theorem newWork_or_pending_of_lateWork :
    ∃ es, ∃ s : Scene (Worker.duty plainBoard (ν := Rat)),
      Scene.Runs (.quiet preparedMemory someFeed) es s ∧
      Searching plainBoard { memory := preparedMemory, feed := someFeed } es s someWork 0 ∧
      0 < s.shared.feed.version ∧ (s.shared.memory.newWork ∨ KickPending es s) := by
  obtain ⟨es, s, run, searching, hfeed, hguests⟩ :=
    exists_searching plainBoard preparedMemory someFeed rfl rfl rfl rfl rfl
  let late : Work := { someWork with startNonce := 1 }
  obtain ⟨t, run, howner, hshared⟩ := publishes run (hguests 0) (some late)
  have searching := searching.beside
    [.arrives 0 (.publish late), .talks (.guest 0) ⟨.publish late, ()⟩] rfl howner
  have older : 0 < t.shared.feed.version := by
    rw [hshared, Shared.after, hfeed]
    exact Nat.one_pos
  have owed := newWork_or_pending_of_searching plainBoard run searching older
  exact ⟨_, t, run, searching, older, owed⟩

end HashBoard
