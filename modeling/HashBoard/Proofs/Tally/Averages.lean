import HashBoard.Proofs.Epoch.Asks
import HashBoard.Proofs.Scene.Memory
import HashBoard.Proofs.Tally.Search

/-!
# What the averages are made of

The averages are kept in what is remembered of a board, and outlive every search. Each delta that
the tuning is told is recorded there by the next requests of the same round, before the owner tells
another one or ends. So along every run the averages are what comes of recording the deltas that
were told, in order; at most the last one is owed.
-/

namespace HashBoard

variable {ν : Type}

/-- A delta with the time it was recorded at and the error rate there was. -/
structure Recorded (ν : Type) where
  /-- The delta. -/
  delta : UInt64
  /-- When it was recorded. -/
  time : Micros
  /-- The share of results that failed verification then. -/
  errorRate : ν

/-- The averages after some entries. -/
def Averager.recordAll [Quantity ν] (a : Averager ν) (entries : List (Recorded ν)) : Averager ν :=
  entries.foldl (fun a e ↦ (a.record e.delta e.time e.errorRate).1) a

theorem Averager.recordAll_snoc [Quantity ν] (a : Averager ν) (entries : List (Recorded ν))
    (e : Recorded ν) : a.recordAll (entries ++ [e]) =
      ((a.recordAll entries).record e.delta e.time e.errorRate).1 := List.foldl_concat ..

namespace Tally

open Routine Board

/-- The deltas that were told, and the averages. -/
structure Account (ν : Type) where
  /-- The deltas that the tuning was told. -/
  told : List UInt64
  /-- The averages that are remembered. -/
  averager : Averager ν

variable [Quantity ν] {α : Type} {start : Averager ν} {s t : Account ν} {r : Request ν}
  {x : Reply r} {p : Routine ν α}

/-- The averages are made of the deltas that were told, but for some that are owed. -/
def Owes (start : Averager ν) (owed : List UInt64) (s : Account ν) : Prop :=
  ∃ entries : List (Recorded ν), s.averager = start.recordAll entries ∧
    s.told = entries.map Recorded.delta ++ owed

/-- What an owner keeps to: it never owes more than one delta. -/
def watch (start : Averager ν) : Watch ν (Account ν) where
  safe s := Owes start [] s ∨ ∃ delta, Owes start [delta] s
  acts s r x t := t.told = s.told ++ deltas [⟨r, x⟩] ∧
    ∃ m : Memory ν, m.averager = s.averager ∧ Recalls m r x ∧
      t.averager = (remembered m r).averager
  drifts s t := t = s
  refl _ := rfl
  trans h h' := h'.trans h
  safe_of_drifts h hs := h ▸ hs

/-- A request that tells the tuning nothing and leaves the averages alone. -/
structure Spares (r : Request ν) : Prop where
  tune : ∀ delta, r ≠ .tune delta
  averager : ∀ m, (remembered m r).averager = m.averager

omit [Quantity ν] in
theorem spares_of_isQuiet (h : r.isQuiet) : Spares r :=
  ⟨(aside_of_isQuiet h).tune, fun m ↦ by rw [remembered_of_isQuiet h]⟩

omit [Quantity ν] in
theorem spares_revise {f : Memory ν → Memory ν} (h : ∀ m, (f m).averager = m.averager) :
    Spares (.revise f) := ⟨nofun, h⟩

theorem moves_spares (hm : (watch start).moves s r x t) (hr : Spares r) : t = s := by
  obtain ⟨u, rfl, htold, m, hm, -, haverager⟩ := hm
  rw [hr.averager, hm] at haverager
  rw [deltas_eq_nil hr.tune, List.append_nil] at htold
  cases t
  cases u
  cases htold
  cases haverager
  rfl

theorem ensures_spares (h : p.Only Spares) (safe : (watch start).safe s) :
    p.Ensures (watch start) (fun _ t ↦ t = s) s := by
  refine h.ensures rfl ?_ (fun _ _ _ _ ↦ trivial) ?_
  · rintro t rfl
    exact safe
  · rintro t r x u rfl hr hm
    exact moves_spares hm hr

/-- A routine that has nothing to do with counting leaves nothing owed. -/
theorem ensures_settled (h : p.Only Spares) (hs : Owes start [] s) :
    p.Ensures (watch start) (fun _ ↦ Owes start []) s :=
  (ensures_spares h (.inl hs)).mono fun _ _ ht ↦ ht ▸ hs

/-! ## A round -/

theorem owes_tune {delta : UInt64} {u : Reply (.tune delta : Request ν)} (hs : Owes start [] s)
    (hm : (watch start).moves s (.tune delta) u t) : Owes start [delta] t := by
  obtain ⟨entries, haverager, htold⟩ := hs
  obtain ⟨u, rfl, htold', m, hm, -, haverager'⟩ := hm
  refine ⟨entries, ?_, ?_⟩
  · rw [haverager', ← haverager, ← hm]
    rfl
  · rw [htold', htold, List.append_nil]
    rfl

theorem owes_record {delta : UInt64} (time : Micros) (rate : ν) {f : Memory ν → Memory ν}
    {u : Reply (.revise f)} (hs : Owes start [delta] s)
    (hf : ∀ m, (f m).averager = (s.averager.record delta time rate).1)
    (hm : (watch start).moves s (.revise f) u t) : Owes start [] t := by
  obtain ⟨entries, haverager, htold⟩ := hs
  obtain ⟨u, rfl, htold', m, hm, -, haverager'⟩ := hm
  refine ⟨entries ++ [⟨delta, time, rate⟩], ?_, ?_⟩
  · rw [Averager.recordAll_snoc, ← haverager, haverager']
    exact hf m
  · rw [htold', htold, List.map_append, List.append_nil]
    exact List.append_nil _

/-- The delta that the tuning is told is recorded. -/
theorem ensures_keepAccount (delta : UInt64) (found : Nat) (elapsed time : Micros)
    (hs : Owes start [] s) :
    (keepAccount delta found elapsed time).Ensures (watch start) (fun _ ↦ Owes start []) s := by
  have tunes : (request (.tune delta)).Ensures (watch start) (fun _ ↦ Owes start [delta]) s :=
    ⟨.inl hs, trivial, fun _ _ hm ↦ owes_tune hs hm⟩
  refine tunes.seq fun _ t ht ↦ ?_
  have safe : (watch start).safe t := .inr ⟨delta, ht⟩
  have asks : (request .errorRate : Routine ν ν).Only Spares :=
    only_request (spares_of_isQuiet rfl)
  refine (ensures_spares asks safe).seq fun rate u hu ↦ ?_
  have recalls : Routine.memory.Ensures (watch start)
      (fun m v ↦ v = t ∧ m.averager = t.averager) u := by
    refine ⟨hu ▸ safe, trivial, fun m v hm ↦ ⟨?_, ?_⟩⟩
    · exact (moves_spares hm (spares_of_isQuiet rfl)).trans hu
    · obtain ⟨_, rfl, -, m', hm', rfl, -⟩ := hm
      rw [hm', hu]
  refine recalls.seq fun m v ⟨hv, hm⟩ ↦ ?_
  refine ⟨hv ▸ safe, trivial, fun _ w hw ↦ owes_record time rate (hv ▸ ht) (fun _ ↦ ?_) hw⟩
  rw [hv, ← hm]
  rfl

theorem ensures_round (b : Board) (work : Work) (r : Round) (nonces : List UInt64)
    (hs : Owes start [] s) :
    (b.countRound work r nonces).Ensures (watch start) (fun _ ↦ Owes start []) s := by
  have quiet : ∀ r : Request ν, r.isQuiet → Spares r := fun _ ↦ spares_of_isQuiet
  have reports : (forEach (b.report work) nonces : Routine ν _).Only Spares :=
    only_forEach fun nonce _ ↦ only_report quiet b work nonce fun _ _ ↦ ⟨nofun, fun _ ↦ rfl⟩
  have reads : (countChecks r.checks : Routine ν _).Only Spares :=
    only_countChecks quiet r.checks fun _ _ ↦ ⟨nofun, fun _ ↦ rfl⟩
  refine (ensures_settled reads hs).seq fun checks t ht ↦ ?_
  refine (ensures_settled reports ht).seq fun _ t ht ↦ ?_
  refine (ensures_settled (only_request (quiet .now rfl)) ht).seq fun now t ht ↦ ?_
  exact (ensures_keepAccount _ _ _ _ ht).seq fun _ u hu ↦ hu

/-! ## The errands -/

omit [Quantity ν] in
theorem spares_books {f : Memory ν → Memory ν} (h : Bookkeeping f) : Spares (.revise f) :=
  spares_revise fun m ↦ (h m).averager

omit [Quantity ν] in
theorem spares_idle (hr : ∀ delta, r ≠ .tune delta) (hrevise : ∀ f, r ≠ .revise f) : Spares r := by
  refine ⟨hr, fun m ↦ ?_⟩
  cases r with
  | revise f => exact absurd rfl (hrevise f)
  | _ => rfl

omit [Quantity ν] in
theorem roomToSeek_spares {work : Work} : RoomToSeek (Spares : Request ν → Prop) work where
  quiet _ := spares_of_isQuiet
  programmed _ _ _ := spares_idle nofun nofun
  stall := spares_idle nofun nofun
  slots _ _ := spares_idle nofun nofun
  interrupts _ _ := spares_idle nofun nofun
  looks := spares_idle nofun nofun
  books _ := spares_books
  searching _ := spares_revise fun _ ↦ rfl
  halt := spares_revise fun _ ↦ rfl
  acquire := spares_idle nofun nofun
  release := spares_idle nofun nofun
  writes _ _ _ := spares_idle nofun nofun
  header := spares_idle nofun nofun
  target _ := spares_idle nofun nofun
  submits _ _ := spares_idle nofun nofun

omit [Quantity ν] in
theorem roomToPrepare_spares : RoomToPrepare (Spares : Request ν → Prop) where
  quiet _ := spares_of_isQuiet
  preparing := spares_idle nofun nofun
  enter := spares_revise fun _ ↦ rfl
  changing _ := spares_idle nofun nofun
  clocks _ _ := spares_idle nofun nofun
  clock _ := spares_revise fun _ ↦ rfl
  books _ := spares_books
  writes _ _ _ := spares_idle nofun nofun
  stop := spares_idle nofun nofun
  release := spares_idle nofun nofun
  build :=
    { quiet := fun _ ↦ spares_of_isQuiet
      phases := fun _ ↦ spares_idle nofun nofun
      overdue := fun _ ↦ spares_idle nofun nofun
      enters := fun _ ↦ spares_revise fun _ ↦ rfl
      looks := spares_idle nofun nofun
      acquire := spares_idle nofun nofun
      release := spares_idle nofun nofun
      status := spares_idle nofun nofun
      writes := fun _ _ _ ↦ spares_idle nofun nofun
      seed := fun _ ↦ spares_idle nofun nofun
      uploads := fun _ _ ↦ spares_idle nofun nofun
      moves := fun _ _ _ ↦ spares_idle nofun nofun }
  resident := spares_idle nofun nofun
  epoch _ := spares_revise fun _ ↦ rfl
  startTune _ := spares_idle nofun nofun
  busy _ := spares_revise fun _ ↦ rfl
  ready _ := spares_revise fun _ ↦ rfl

theorem ensures_errand (b : Board) (job : (b.errands (ν := ν)).Job) (hs : Owes start [] s) :
    (b.errands.routine job).Ensures (watch start) (fun _ ↦ Owes start []) s := by
  cases job with
  | prepare ctx => exact ensures_settled (only_prepareEpoch roomToPrepare_spares b ctx) hs
  | search work =>
    refine (ensures_search_by_count (J := fun _ ↦ Owes start []) ensures_settled roomToSeek_spares
      (fun r nonces _ ↦ ensures_round b work r nonces) (fun _ _ h ↦ .inl h) hs).mono ?_
    exact fun _ _ ⟨_, h⟩ ↦ h

/-! ## Along a run -/

omit [Quantity ν] in
theorem aside_of_modest (h : Modest r) : Aside r := by
  cases h with
  | quiet h => exact aside_of_isQuiet h
  | _ => exact ⟨nofun, nofun⟩

/-- The account of a run. -/
def view {R : Repertoire ν} (sh : Shared ν) (es : List (Occurrence R)) : Account ν where
  told := deltas (talkOf es)
  averager := (sh.afterAll es).memory.averager

/-- Along a run at most one delta is owed to the averages. -/
theorem safe_of_runs {b : Board} {memory : Memory ν} {feed : Feed}
    {es : List (Occurrence (b.errands (ν := ν)))} {s : Scene (b.errands (ν := ν))}
    (run : Scene.Runs (.quiet memory feed) es s) :
    (watch memory.averager).safe (view { memory, feed } es) := by
  have orderly := Scene.orderly_quiet (R := b.errands (ν := ν)) memory feed
  have standing : s.Standing (watch memory.averager) (Owes memory.averager [])
      (fun _ _ ↦ Owes memory.averager []) (view { memory, feed } es) := by
    refine run.upkeep rfl ⟨[], rfl, rfl⟩ ?_ ?_ ?_ ?_ ?_ ?_
    · intro pre job _ hidle
      have hview : view { memory, feed } (pre ++ [.begins job]) = view { memory, feed } pre := by
        simp [view, Shared.upon]
      rw [hview]
      exact ensures_errand b job hidle
    · intro pre job a _ hpost
      have hview : view { memory, feed } (pre ++ [.ends job a]) = view { memory, feed } pre := by
        simp [view, Shared.upon]
      rw [hview]
      exact hpost
    · intro pre t u r x hpre _ _ hx
      refine ⟨?_, (Shared.afterAll { memory, feed } pre).memory, rfl, ?_, ?_⟩
      · rw [view, talkOf_snoc_talks, deltas_append]
        rfl
      · rw [hpre.shared_eq] at hx
        exact Shared.recalls_of_permits hx
      · rw [view, Shared.afterAll_snoc, Shared.upon, Shared.memory_after]
    · intro pre t u e hpre hs _ he
      have hfollows := hs.follows (hpre.orderly orderly) he
      rw [hs.shared_eq, hpre.shared_eq] at hfollows
      have htold : deltas (talkOf (pre ++ [e])) = deltas (talkOf pre) := by
        cases e with
        | begins | ends => exact he.elim
        | arrives => rw [talkOf_snoc_arrives]
        | talks party said =>
          have hmodest := ((hpre.orderly orderly).bystander_asks (r := said.request) hs he).1
          rw [talkOf_snoc_talks, deltas_append, deltas_eq_nil (aside_of_modest hmodest).tune,
            List.append_nil]
      have haverager := hfollows.averager
      simp only [Scene.quiet] at haverager
      simp only [watch, view, htold, Shared.afterAll_snoc, haverager]
    · intro a a' hd ha
      rw [show a' = a from hd]
      exact ha
    · intro job x a a' hd ha
      rw [show a' = a from hd]
      exact ha
  cases howner : s.owner with
  | none => exact .inl (standing.1 howner)
  | some job =>
    refine (standing.2 job.1 job.2 howner).safe fun a ha ↦ .inl ha

end Tally

end HashBoard
