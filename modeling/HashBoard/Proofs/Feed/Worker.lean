import HashBoard.Proofs.Feed.Account
import HashBoard.Proofs.Search.Asks

/-!
# What the worker and its kicker keep to

The kicker waits for a publication other than the one it saw last, and owes nothing while it waits;
when it has seen one, the first thing it does is to set the flag. The worker starts the kicker at
the publication it subscribed at, and looks at the feed only while the kicker is there. A search
does not look at the feed, does not touch the kicker and does not take the flag back.
-/

namespace HashBoard.Feed

open Routine Board

variable {ν α : Type}

/-! ## The kicker -/

/-- What the kicker keeps to. -/
def kickerWatch (ν : Type) : Watch ν Kicking where
  safe _ := True
  allows k r :=
    (∀ seen, r = .nextChange seen → k.seen = seen ∧ k.owes = false) ∧
      (∀ f, r = .revise f → ∀ m, (f m).newWork) ∧ (k.owes → ∃ f, r = .revise f) ∧ k.ended = false
  acts k r x t := t = k.after ⟨r, x⟩
  drifts k t := t = k
  refl _ := rfl
  trans h h' := h'.trans h
  safe_of_drifts _ h := h
  allows_of_drifts h hr := h ▸ hr

/-- The kicker waits for a publication other than one. -/
def Waits (seen : Nat) (k : Kicking) : Prop := k.seen = seen ∧ k.owes = false ∧ k.ended = false

theorem ensures_neutral {p : Routine ν α}
    (h : p.Only fun r ↦ (∀ seen, r ≠ .nextChange seen) ∧ ∀ f, r ≠ .revise f) {k : Kicking}
    {seen : Nat} (hk : Waits seen k) : p.Ensures (kickerWatch ν) (fun _ ↦ Waits seen) k := by
  refine h.ensures hk (fun _ _ ↦ trivial) (fun k r hk hr ↦ ?_) fun k r x t hk hr hm ↦ ?_
  · exact ⟨fun seen h ↦ absurd h (hr.1 seen), fun f h ↦ absurd h (hr.2 f),
      fun h ↦ by simp [hk.2.1] at h, hk.2.2⟩
  · obtain ⟨u, rfl, rfl⟩ := hm
    have hsame : u.after ⟨r, x⟩ = u := by
      cases r with
      | nextChange seen => exact absurd rfl (hr.1 seen)
      | revise f => exact absurd rfl (hr.2 f)
      | _ => rfl
    rw [hsame]
    exact hk

/-- A kick begins with the flag. -/
theorem ensures_kick {k : Kicking} (hended : k.ended = false) :
    (kick : Routine ν _).Ensures (kickerWatch ν) (fun _ ↦ Waits k.seen) k := by
  have set : (revise fun m ↦ { m with newWork := true } : Routine ν _).Ensures (kickerWatch ν)
      (fun _ ↦ Waits k.seen) k := by
    refine ⟨trivial, ⟨nofun, fun f h ↦ ?_, fun _ ↦ ⟨_, rfl⟩, hended⟩, fun x t hm ↦ ?_⟩
    · cases h
      exact fun _ ↦ rfl
    · obtain ⟨u, rfl, rfl⟩ := hm
      exact ⟨rfl, rfl, hended⟩
  refine set.seq fun _ t ht ↦ ensures_neutral ?_ ht
  refine (only_request (r := .memory) ⟨nofun, nofun⟩).bind fun m ↦ ?_
  have wake : (request .wake : Routine ν _).Only fun r ↦
      (∀ seen, r ≠ .nextChange seen) ∧ ∀ f, r ≠ .revise f := only_request ⟨nofun, nofun⟩
  dsimp only [done_bind, pure_eq]
  split
  · exact (only_request (r := .call .kick) ⟨nofun, nofun⟩).bind fun _ ↦ wake
  · exact wake

theorem ensures_kicker {k : Kicking} {seen : Nat} (hk : Waits seen k) :
    (Worker.kicker seen : Routine ν _).Ensures (kickerWatch ν) (fun _ ↦ Kicking.Over) k := by
  refine ensures_repeating Waits hk fun seen k hk ↦ ⟨trivial, ?_⟩
  refine ⟨trivial, ⟨fun seen' h ↦ ?_, nofun, fun h ↦ ?_, hk.2.2⟩, fun x t hm ↦ ?_⟩
  · cases h
    exact ⟨hk.1, hk.2.1⟩
  · rw [hk.2.1] at h
    cases h
  · obtain ⟨u, rfl, rfl⟩ := hm
    cases x with
    | none => exact ⟨hk.2.1, fun _ ↦ rfl⟩
    | some latest =>
      have hended : (u.after (⟨.nextChange seen, some latest⟩ : Answered ν)).ended = false := hk.2.2
      exact (ensures_kick hended).seq fun _ t ht ↦ ht

/-! ## The worker -/

/-- What a worker did about its kicker. -/
structure Posture where
  /-- The publication it was told of when it began. -/
  subscribed : Option Nat
  /-- Its kicker is there. -/
  started : Bool

/-- What a request of the worker makes of it. -/
def Posture.after (s : Posture) : Answered ν → Posture
  | ⟨.subscribe, n⟩ => { s with subscribed := some n }
  | ⟨.startKicker _, _⟩ => { s with started := true }
  | ⟨.stopKicker, _⟩ => { s with started := false }
  | _ => s

/-- What the worker keeps to. -/
def workerWatch (ν : Type) : Watch ν Posture where
  safe _ := True
  allows s r :=
    (∀ seen, r = .startKicker seen → s.subscribed = some seen) ∧ (r = .latestWork → s.started)
  acts s r x t := t = s.after ⟨r, x⟩
  drifts s t := t = s
  refl _ := rfl
  trans h h' := h'.trans h
  safe_of_drifts _ h := h
  allows_of_drifts h hr := h ▸ hr

/-- A request that has nothing to do with the kicker or the feed. -/
def Apart : Request ν → Prop
  | .subscribe | .startKicker _ | .stopKicker | .latestWork => False
  | _ => True

theorem ensures_apart {p : Routine ν α} (h : p.Only Apart) (s : Posture) :
    p.Ensures (workerWatch ν) (fun _ t ↦ t = s) s := by
  refine h.ensures (R := fun t ↦ t = s) rfl (fun _ _ ↦ trivial) (fun t r _ hr ↦ ?_) ?_
  · constructor
    · rintro seen rfl
      exact hr.elim
    · rintro rfl
      exact hr.elim
  · rintro t r x u rfl hr ⟨v, rfl, rfl⟩
    cases r with
    | subscribe | startKicker seen | stopKicker => exact hr.elim
    | _ => rfl

theorem apart_of_isQuiet {r : Request ν} (h : r.isQuiet) : Apart r := by
  cases r with
  | subscribe | startKicker | stopKicker | latestWork => cases h
  | _ => trivial

theorem roomToPrepare_apart : RoomToPrepare (Apart : Request ν → Prop) where
  quiet _ := apart_of_isQuiet
  preparing := trivial
  enter := trivial
  changing _ := trivial
  clocks _ _ := trivial
  clock _ := trivial
  books _ _ := trivial
  writes _ _ _ := trivial
  stop := trivial
  release := trivial
  build :=
    { quiet := fun _ ↦ apart_of_isQuiet
      phases := fun _ ↦ trivial
      overdue := fun _ ↦ trivial
      enters := fun _ ↦ trivial
      looks := trivial
      acquire := trivial
      release := trivial
      status := trivial
      writes := fun _ _ _ ↦ trivial
      seed := fun _ ↦ trivial
      uploads := fun _ _ ↦ trivial
      moves := fun _ _ _ ↦ trivial }
  resident := trivial
  busy _ := trivial
  epoch _ := trivial
  startTune _ := trivial
  ready _ := trivial

/-! ### A search -/

/-- A request that changes nothing about what the worker is owed. -/
def Undisturbing (r : Request ν) : Prop := Apart r ∧ ∀ sh, Ledger.Lowers sh r = false

theorem undisturbing_of_isQuiet {r : Request ν} (h : r.isQuiet) : Undisturbing r := by
  refine ⟨apart_of_isQuiet h, fun sh ↦ ?_⟩
  cases r with
  | revise f => cases h
  | _ => rfl

theorem lowers_of_keeps {f : Memory ν → Memory ν} (h : ∀ m, m.newWork → (f m).newWork)
    (sh : Shared ν) : Ledger.Lowers sh (.revise f) = false := by
  cases hflag : sh.memory.newWork with
  | false => simp [Ledger.Lowers, hflag]
  | true => simp [Ledger.Lowers, h sh.memory hflag]

theorem lowers_books {f : Memory ν → Memory ν} (h : Bookkeeping f) (sh : Shared ν) :
    Ledger.Lowers sh (.revise f) = false := lowers_of_keeps (fun m hm ↦ (h m).newWork ▸ hm) sh

theorem lowers_averages {f : Memory ν → Memory ν} (h : Averaging f) (sh : Shared ν) :
    Ledger.Lowers sh (.revise f) = false := lowers_of_keeps (fun m hm ↦ (h m).newWork ▸ hm) sh

theorem roomToSearch_undisturbing {work : Work} :
    RoomToSearch (Undisturbing : Request ν → Prop) work where
  quiet _ := undisturbing_of_isQuiet
  programmed _ _ _ := ⟨trivial, fun _ ↦ rfl⟩
  stall := ⟨trivial, fun _ ↦ rfl⟩
  slots _ _ := ⟨trivial, fun _ ↦ rfl⟩
  checks _ _ := ⟨trivial, fun _ ↦ rfl⟩
  interrupts _ _ := ⟨trivial, fun _ ↦ rfl⟩
  looks := ⟨trivial, fun _ ↦ rfl⟩
  tunes _ := ⟨trivial, fun _ ↦ rfl⟩
  averages _ h := ⟨trivial, lowers_averages h⟩
  books _ h := ⟨trivial, lowers_books h⟩
  searching _ := ⟨trivial, lowers_of_keeps fun _ h ↦ h⟩
  halt := ⟨trivial, lowers_of_keeps fun _ _ ↦ rfl⟩
  acquire := ⟨trivial, fun _ ↦ rfl⟩
  release := ⟨trivial, fun _ ↦ rfl⟩
  writes _ _ _ := ⟨trivial, fun _ ↦ rfl⟩
  header := ⟨trivial, fun _ ↦ rfl⟩
  target _ := ⟨trivial, fun _ ↦ rfl⟩
  submits _ _ := ⟨trivial, fun _ ↦ rfl⟩

/-! ### The whole worker -/

variable [Quantity ν]

theorem only_search_apart (b : Board) (work : Work) : (b.search work : Routine ν _).Only Apart :=
  (only_search roomToSearch_undisturbing b).mono fun _ h ↦ h.1

omit [Quantity ν] in
theorem only_idleThen (epoch : Option Word) : (Worker.idleThen epoch : Routine ν _).Only Apart :=
  (only_request trivial).bind fun _ ↦ trivial

theorem only_prepare (b : Board) (epoch : Option Word) (wanted : Word) :
    (Worker.prepare b epoch wanted : Routine ν _).Only Apart := by
  refine (only_request (r := .epochContext wanted) trivial).bind fun ctx ↦ ?_
  cases ctx with
  | none => exact (only_request (r := .note _) trivial).bind fun _ ↦ only_idleThen epoch
  | some ctx =>
    refine (only_prepareEpoch roomToPrepare_apart b ctx).bind fun x ↦ ?_
    rcases x with e | outcome
    · have rest (e : BoardError) : (if e.isTerminal then pure (.inr (.error e)) else do
          note (.epochNotPrepared wanted e)
          Worker.idleThen epoch : Routine ν Worker.Turn).Only Apart := by
        split
        · trivial
        · exact (only_request (r := .note _) trivial).bind fun _ ↦ only_idleThen epoch
      cases e with
      | cancelled => trivial
      | _ => exact rest _
    · trivial

theorem only_serve (b : Board) (epoch : Option Word) (work : Work) :
    (Worker.serve b epoch work : Routine ν _).Only Apart := by
  rw [Worker.serve]
  split
  · exact (only_request (r := .note _) trivial).bind fun _ ↦ trivial
  · refine (only_request (r := .memory) trivial).bind fun m ↦ ?_
    split
    · exact only_idleThen epoch
    · split
      · exact only_prepare b epoch work.epoch
      · refine (only_request (r := .memory) trivial).bind fun m ↦ ?_
        dsimp only [done_bind, pure_eq]
        split
        · exact only_idleThen epoch
        · refine (only_search_apart b work).bind fun x ↦ ?_
          cases x <;> trivial

/-- The worker looks at the feed once in a turn, and its kicker stays. -/
theorem ensures_turn (b : Board) (epoch : Option Word) {s : Posture} (hs : s.started) :
    (Worker.turn b epoch : Routine ν _).Ensures (workerWatch ν) (fun _ t ↦ t.started) s := by
  have keep {α : Type} {p : Routine ν α} (h : p.Only Apart) {s : Posture} (hs : s.started) :
      p.Ensures (workerWatch ν) (fun _ t ↦ t.started) s :=
    (ensures_apart h s).mono fun _ _ ht ↦ ht ▸ hs
  refine (keep (only_request (r := .isCancelled) trivial) hs).seq fun cancelled t ht ↦ ?_
  split
  · exact ht
  · -- the flag is taken back first, and the feed is looked at then
    refine (keep (only_request (r := .revise _) trivial) ht).seq fun _ t ht ↦ ?_
    refine ⟨trivial, ⟨nofun, fun _ ↦ ht⟩, fun work u hm ↦ ?_⟩
    obtain ⟨v, rfl, rfl⟩ := hm
    cases work with
    | none => exact keep (only_idleThen epoch) ht
    | some work => exact keep (only_serve b epoch work) ht

theorem ensures_run (b : Board) (s : Posture) :
    (Worker.run b : Routine ν _).Ensures (workerWatch ν) (fun _ _ ↦ True) s := by
  refine ⟨trivial, ⟨nofun, nofun⟩, fun seen t hm ↦ ?_⟩
  have hsubscribed : t.subscribed = some seen := by
    obtain ⟨u, rfl, rfl⟩ := hm
    rfl
  refine ⟨trivial, ⟨fun seen' h ↦ ?_, nofun⟩, fun _ u hm ↦ ?_⟩
  · cases h
    exact hsubscribed
  · have hstarted : u.started := by
      obtain ⟨v, rfl, rfl⟩ := hm
      rfl
    have loop : (Worker.workLoop b : Routine ν _).Ensures (workerWatch ν) (fun _ _ ↦ True) u := by
      have turns : (repeating none (Worker.turn b) : Routine ν _).Ensures (workerWatch ν)
          (fun _ _ ↦ True) u := by
        refine ensures_repeating (fun _ t ↦ t.started) hstarted fun epoch t ht ↦ ⟨trivial, ?_⟩
        refine (ensures_turn b epoch ht).mono ?_
        rintro (epoch | x) t ht
        · exact ht
        · trivial
      refine turns.seq fun x t _ ↦ ?_
      cases x with
      | error e => trivial
      | ok =>
        have rest : (do
            let s := (← memory).status
            note (.workerStopped s.solutions s.epoch s.hashRate)
            pure (.ok ()) : Routine ν (Except BoardError Unit)).Only Apart :=
          ⟨trivial, fun _ ↦ ⟨trivial, fun _ ↦ trivial⟩⟩
        exact (ensures_apart rest t).mono fun _ _ _ ↦ trivial
    refine loop.seq fun result t _ ↦ ⟨trivial, ⟨nofun, nofun⟩, fun _ v _ ↦ ?_⟩
    have leave : (disconnect : Routine ν _).Only Apart :=
      ⟨trivial, fun _ ↦ ⟨trivial, fun _ ↦ trivial⟩⟩
    exact (ensures_apart leave v).seq fun _ _ _ ↦ trivial

end HashBoard.Feed
