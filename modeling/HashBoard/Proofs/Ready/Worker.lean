import HashBoard.Proofs.Ready.Account
import HashBoard.Proofs.Search.Submit

/-!
# What a worker does between two looks at the feed
-/

namespace HashBoard.Ready

open Routine Board

variable {ν : Type} {s t : Account ν} {work : Work} {lastEpoch : Option Word}

/-! ## Searching -/

theorem Poised.taken_eq (h : Poised s work) : taken s.talk = some work := by
  obtain ⟨earlier, m, m', htalk, -, -⟩ := h.checked
  rw [htalk, List.append_cons, taken_append _ (by simp), taken_latestWork]

theorem roomToRounds_within : RoomToRounds (Within (some work) : Request ν → Prop) work where
  quiet _ h := .inl (plain_of_isQuiet h)
  books f h := .inl (plain_of_bookkeeping f h)
  halt := .inl ⟨⟨fun _ ↦ rfl, nofun⟩, nofun, nofun⟩
  coreFlags _ := .inl (plain_write _ _)
  coreOff := .inl (plain_write _ _)
  powerOff := .inl (plain_write _ _)
  stall := .inl ⟨⟨fun _ ↦ rfl, nofun⟩, nofun, nofun⟩
  slots _ _ := .inl ⟨⟨fun _ ↦ rfl, nofun⟩, nofun, nofun⟩
  checks _ _ := .inl ⟨⟨fun _ ↦ rfl, nofun⟩, nofun, nofun⟩
  interrupts _ _ := .inl ⟨⟨fun _ ↦ rfl, nofun⟩, nofun, nofun⟩
  looks := .inl ⟨⟨fun _ ↦ rfl, nofun⟩, nofun, nofun⟩
  tunes _ := .inl ⟨⟨fun _ ↦ rfl, nofun⟩, nofun, nofun⟩
  averages f h := .inl (plain_of_averaging f h)
  acquire := .inl plain_acquire
  release := .inl plain_release
  clears := .inl (plain_write _ _)
  submits solution h := .inr ⟨solution, by rw [h], rfl⟩

/-- The header is the first thing that is programmed, and programmed once. -/
theorem ensures_programJob (h : Poised s work) :
    (programJob work).Ensures (watch ν) (fun _ ↦ Stands s.lastEpoch (some work))
      (s.after ⟨.acquire, ()⟩) := by
  have quiet : ∀ r : Request ν, r.isQuiet → Plain r := fun _ ↦ plain_of_isQuiet
  have stands : Stands s.lastEpoch (some work) (s.after ⟨.acquire, ()⟩) :=
    Stands.after (r := .acquire) ⟨rfl, h.taken_eq⟩ () nofun
  rw [programJob_eq]
  generalize Hash.effective work.boundary = boundary
  have rest : (programBoundary work boundary : Routine ν Unit).Only Plain :=
    only_programBoundary quiet work boundary (fun _ _ _ ↦ plain_write _ _)
      fun _ ↦ plain_writeBulk (by decide)
  refine ⟨trivial, ⟨fun _ _ _ ↦ ⟨work, s, h, rfl⟩, nofun⟩, fun x t hm ↦ ?_⟩
  obtain ⟨rfl, -⟩ := eq_of_moves (fun _ ↦ rfl) hm
  have ht := stands.after (r := .call (.writeBulk work.header.bytes Reg.header true)) x nofun
  cases x with
  | ok => exact ensures_plain rest ht
  | error fault => exact ensures_plain ⟨quiet _ rfl, fun _ ↦ rest⟩ ht

section Search

variable [Quantity ν]

theorem ensures_search (b : Board) (h : Poised s work) :
    (b.search work).Ensures (watch ν) (fun _ ↦ Stands s.lastEpoch (some work)) s := by
  have room : RoomToRounds (Within (some work) : Request ν → Prop) work := roomToRounds_within
  refine (ensures_plain_request plain_acquire s).seq ?_
  rintro - t ⟨rfl, -⟩
  have after {t : Account ν} (ht : Stands s.lastEpoch (some work) t) {β : Type} {p : Routine ν β}
      (hp : p.Only (Within (some work))) := ensures_within hp ht
  have programs : (b.programWork work).Ensures (watch ν)
      (fun _ ↦ Stands s.lastEpoch (some work)) (s.after ⟨.acquire, ()⟩) := by
    refine (ensures_programJob h).seq fun _ t ht ↦ ?_
    refine (after ht (only_pacing room.quiet b)).seq fun intensity t ht ↦ ?_
    refine (after ht (only_programPacing room.quiet b intensity room.books room.coreFlags)).seq ?_
    rintro (e | -) t ht
    · exact ht
    · refine (after ht (only_tryWrite room.quiet (.inl (plain_write _ _)))).seq fun _ t ht ↦ ?_
      exact (after ht (only_request (.inl (plain_note _)))).seq fun _ _ h ↦ h
  have runs : (b.runSearch work).Ensures (watch ν)
      (fun _ ↦ Stands s.lastEpoch (some work)) (s.after ⟨.acquire, ()⟩) := by
    refine programs.seq ?_
    rintro (e | -) t ht
    · exact ht
    · refine (after ht (only_request (.inl (plain_reviseStatus _)))).seq fun _ t ht ↦ ?_
      refine (after ht (only_request (room.quiet .now rfl))).seq fun now t ht ↦ ?_
      exact after ht (only_repeating fun r ↦ only_searchRound room b r)
  refine runs.seq fun result t ht ↦ ?_
  refine (after ht (only_stopCore room.quiet room.coreFlags room.coreOff)).seq fun _ t ht ↦ ?_
  refine (after ht (only_request room.release)).seq fun _ t ht ↦ ?_
  refine (after ht (only_request (.inl (plain_reviseStatus _)))).seq fun _ t ht ↦ ?_
  cases result with
  | ok exit => exact (after ht (only_note room.quiet rfl)).seq fun _ _ h ↦ h
  | error e => exact (after ht (only_note room.quiet rfl)).seq fun _ _ h ↦ h

end Search

/-! ## A turn -/

open Worker

/-- The worker's epoch, if it has one, is the one that is remembered. -/
def Agrees (epoch : Option Word) (s : Account ν) : Prop :=
  ∀ e, epoch = some e → s.lastEpoch = some e

/-- A turn that leads to another one leaves the two epochs in agreement. -/
def LeadsOn : Turn → Account ν → Prop
  | .inl epoch => Agrees epoch
  | .inr _ => fun _ ↦ True

variable {epoch : Option Word}

theorem ensures_idleThen (h : Agrees epoch s) :
    (idleThen epoch).Ensures (watch ν) LeadsOn s := by
  refine (ensures_plain_request (plain_of_isQuiet (r := .park idlePark) rfl) s).seq ?_
  rintro - t ⟨rfl, -⟩
  exact h

theorem ensures_note_idleThen (event : Event ν) (h : Agrees epoch s) : (do
    note event
    idleThen epoch).Ensures (watch ν) LeadsOn s := by
  refine (ensures_plain_request (plain_note event) s).seq ?_
  rintro - t ⟨rfl, -⟩
  exact ensures_idleThen h

section Turn

variable [Quantity ν] (b : Board)

theorem ensures_prepare (wanted : Word) (h : Agrees epoch s) :
    (prepare b epoch wanted).Ensures (watch ν) LeadsOn s := by
  refine (ensures_plain_request (plain_of_isQuiet (r := .epochContext wanted) rfl) s).seq ?_
  rintro (- | ctx) t ⟨rfl, hright⟩
  · exact ensures_note_idleThen _ h
  · refine (ensures_prepareEpoch b ctx _).seq ?_
    rintro (e | outcome) t ht
    · have unprepared : Agrees epoch t := fun wanted hw ↦ ht.trans (h wanted hw)
      have rest : (if e.isTerminal then pure (.inr (.error e)) else do
          note (.epochNotPrepared wanted e)
          idleThen epoch : Routine ν Turn).Ensures (watch ν) LeadsOn t := by
        split
        · trivial
        · exact ensures_note_idleThen _ unprepared
      cases e with
      | cancelled => trivial
      | _ => exact rest
    · rintro _ ⟨⟩
      rw [← hright]
      exact ht

/-- What the worker does about the work that it just took. -/
theorem ensures_serve (h : Agrees epoch s) {earlier : List (Answered ν)}
    (htalk : s.talk = earlier ++ [⟨.latestWork, some work⟩]) :
    (serve b epoch work).Ensures (watch ν) LeadsOn s := by
  have memory (s : Account ν) := ensures_plain_request (plain_of_isQuiet (r := .memory) rfl) s
  rw [serve]
  split
  · exact (ensures_plain_request (plain_note _) s).seq fun _ _ _ ↦ trivial
  · rename_i supported
    refine (memory s).seq ?_
    rintro m t ⟨rfl, -⟩
    split
    · exact ensures_idleThen h
    · rename_i halted
      split
      · exact ensures_prepare b work.epoch h
      · rename_i same
        refine Ensures.bind ((memory _).seq ?_)
        rintro m' t ⟨rfl, -⟩
        change Ensures _ (if m'.busy then _ else _) _ _
        split
        · exact ensures_idleThen h
        · rename_i busy
          have poised : Poised ((s.after ⟨.memory, m⟩).after ⟨.memory, m'⟩) work := by
            refine ⟨⟨earlier, m, m', ?_, ?_, ?_⟩, ?_, ?_⟩
            · simp [Account.after, htalk]
            · simpa using halted
            · simpa using busy
            · simpa using supported
            · exact h work.epoch (by simpa using same)
          refine (ensures_search b poised).seq ?_
          rintro (e | exit) t ht
          · trivial
          · exact fun e he ↦ ht.1.trans (h e he)

theorem ensures_turn (h : Agrees epoch s) : (turn b epoch).Ensures (watch ν) LeadsOn s := by
  refine (ensures_plain_request (r := .isCancelled) ⟨⟨fun _ ↦ rfl, nofun⟩, nofun, nofun⟩ s).seq ?_
  rintro cancelled t ⟨rfl, -⟩
  split
  · trivial
  · refine (ensures_plain_request (r := .revise fun m ↦ { m with newWork := false })
      ⟨⟨fun _ ↦ rfl, nofun⟩, nofun, nofun⟩ _).seq ?_
    rintro - t ⟨rfl, -⟩
    refine ⟨trivial, ⟨nofun, nofun⟩, fun latest t hm ↦ ?_⟩
    obtain ⟨rfl, -⟩ := eq_of_moves (fun _ ↦ rfl) hm
    cases latest with
    | none => exact ensures_idleThen h
    | some work => exact ensures_serve b h rfl

/-- A worker keeps to the watch from wherever it begins. -/
theorem ensures_run (s : Account ν) :
    (Worker.run b).Ensures (watch ν) (fun _ _ ↦ True) s := by
  have apart {α : Type} {p : Routine ν α} (h : p.Only Plain) (s : Account ν) :
      p.Ensures (watch ν) (fun _ _ ↦ True) s :=
    (ensures_plain h ⟨rfl, rfl⟩).mono fun _ _ _ ↦ trivial
  have loops (s : Account ν) : (workLoop b).Ensures (watch ν) (fun _ _ ↦ True) s := by
    have turns : (repeating none (turn b)).Ensures (watch ν) (fun _ _ ↦ True) s := by
      refine ensures_repeating Agrees nofun ?_
      intro epoch s h
      refine ⟨trivial, (ensures_turn b h).mono ?_⟩
      rintro (epoch' | x) t ht
      · exact ht
      · trivial
    refine turns.seq ?_
    rintro (e | -) t -
    · trivial
    · have stops : (do
          let s := (← memory).status
          note (.workerStopped s.solutions s.epoch s.hashRate)
          pure (.ok ()) : Routine ν (Except BoardError Unit)).Only Plain :=
        ⟨plain_of_isQuiet rfl, fun _ ↦ ⟨plain_note _, fun _ ↦ trivial⟩⟩
      exact apart stops t
  have subscribes : Plain (.subscribe : Request ν) := ⟨⟨fun _ ↦ rfl, nofun⟩, nofun, nofun⟩
  have starts (seen : Nat) : Plain (.startKicker seen : Request ν) :=
    ⟨⟨fun _ ↦ rfl, nofun⟩, nofun, nofun⟩
  refine (apart (only_request subscribes) s).seq fun seen t _ ↦ ?_
  refine (apart (only_request (starts seen)) t).seq fun _ t _ ↦ ?_
  refine (loops t).seq fun result t _ ↦ ?_
  have leaves : (do
      request .stopKicker
      disconnect
      pure result : Routine ν _).Only Plain := by
    refine ⟨⟨⟨fun _ ↦ rfl, nofun⟩, nofun, nofun⟩, fun _ ↦ ?_⟩
    exact ⟨⟨⟨fun _ ↦ rfl, nofun⟩, nofun, nofun⟩, fun _ ↦ ⟨plain_note _, fun _ ↦ trivial⟩⟩
  exact apart leaves t

end Turn

/-! ## Where a search is called -/

section Called

theorem moves_of_alone {m : Memory ν} {r : Request ν} {x : Reply r}
    (hlast : m.lastEpoch = s.lastEpoch) (hr : Spares r) (hx : Alone m r x) :
    (watch ν).moves s r x (s.after ⟨r, x⟩) := by
  refine Watch.moves_of_acts ⟨?_, rfl, m, hlast, ?_⟩
  · cases r with
    | memory =>
      obtain rfl : x = m := hx
      exact hlast
    | epochContext epoch =>
      obtain rfl : x = none := hx
      trivial
    | _ => trivial
  · rw [hr.epoch, hlast]
    rfl

/-- A routine that keeps to the watch and is told the truth asks only what it may. -/
theorem allows_of_path {α : Type} {p q : Routine ν α} {Q : α → Account ν → Prop} {m : Memory ν}
    {r : Request ν} {x : Reply r} {talk : List (Answered ν)} (h : p.Ensures (watch ν) Q s)
    (hlast : m.lastEpoch = s.lastEpoch) (hp : Path p (talk ++ [⟨r, x⟩]) q)
    (alone : ∀ said ∈ talk, Alone m said.request said.reply)
    (spares : ∀ said ∈ talk, Spares said.request) :
    Allows { s with talk := s.talk ++ talk } r := by
  induction talk generalizing p s with
  | nil =>
    rw [List.append_nil]
    cases hp with
    | cons hs _ => exact h.allows_of_steps hs
  | cons said talk ih =>
    cases hp with
    | @cons _ p' _ _ _ _ hs hq =>
      have hmoves := moves_of_alone hlast (spares _ (.head _)) (alone _ (.head _))
      rw [List.append_cons]
      exact ih (h.of_steps hs hmoves) hlast hq (fun said h ↦ alone said (.tail _ h)) fun said h ↦
        spares said (.tail _ h)

theorem roomToSearch_spares : RoomToSearch (Spares : Request ν → Prop) work where
  quiet _ := spares_of_isQuiet
  programmed _ _ _ := ⟨fun _ ↦ rfl, nofun⟩
  stall := ⟨fun _ ↦ rfl, nofun⟩
  slots _ _ := ⟨fun _ ↦ rfl, nofun⟩
  checks _ _ := ⟨fun _ ↦ rfl, nofun⟩
  interrupts _ _ := ⟨fun _ ↦ rfl, nofun⟩
  looks := ⟨fun _ ↦ rfl, nofun⟩
  tunes _ := ⟨fun _ ↦ rfl, nofun⟩
  averages := spares_of_averaging
  books := spares_of_bookkeeping
  searching _ := ⟨fun _ ↦ rfl, nofun⟩
  halt := ⟨fun _ ↦ rfl, nofun⟩
  acquire := ⟨fun _ ↦ rfl, nofun⟩
  release := ⟨fun _ ↦ rfl, nofun⟩
  writes _ _ _ := ⟨fun _ ↦ rfl, nofun⟩
  header := ⟨fun _ ↦ rfl, nofun⟩
  target _ := ⟨fun _ ↦ rfl, nofun⟩
  submits _ _ := ⟨fun _ ↦ rfl, nofun⟩

variable [Quantity ν]

/-- The header is the first thing a search asks of the board. -/
theorem path_header (b : Board) (work : Work) : ∃ q, Path (b.search work : Routine ν _)
    ([⟨.acquire, ()⟩] ++ [⟨.call (.writeBulk work.header.bytes Reg.header true), .ok ()⟩]) q := by
  have programs : ∃ q, Steps (programJob work : Routine ν Unit)
      (.call (.writeBulk work.header.bytes Reg.header true)) (.ok ()) q := by
    rw [programJob_eq]
    exact ⟨_, .ask ..⟩
  obtain ⟨q, hq⟩ := programs
  exact ⟨_, .cons (.ask ..) (.cons (((hq.bind _).bind _).bind _) (.nil _))⟩

/-- A worker that is about to search stands before a search of that work: of some work because it is
about to program a header, and of that work because it may come to hand over a nonce for it. -/
theorem poised_of_ensures {b : Board} {m : Memory ν} {Q : Except BoardError Unit → Account ν → Prop}
    {rest : Except BoardError SearchExit → Routine ν (Except BoardError Unit)}
    (h : ((b.search work).bind rest).Ensures (watch ν) Q s) (hlast : m.lastEpoch = s.lastEpoch) :
    Poised s work := by
  have stands : ∃ work', Poised s work' := by
    obtain ⟨q, hq⟩ := path_header (ν := ν) b work
    have allows := allows_of_path h hlast (hq.bind rest) (by simp [Alone])
      (by simpa using plain_acquire.toSpares)
    obtain ⟨work', t, poised, hst⟩ := allows.header _ _ rfl
    obtain ⟨hepoch, htalk⟩ := Account.mk.inj hst
    obtain ⟨earlier, m, m', hlooked, hchecks⟩ := poised.checked
    refine ⟨work', ⟨earlier, m, m', ?_, hchecks⟩, poised.supported, hepoch.trans poised.prepared⟩
    rw [List.append_cancel_right htalk, hlooked]
  obtain ⟨work', poised⟩ := stands
  let alone : Memory ν := { m with newWork := false }
  obtain ⟨solution, rfl, talk, x, q, hpath, halone⟩ := mayAsk_search b work (m := alone) rfl
  have spares : ∀ said ∈ talk, Spares said.request := by
    intro said hsaid
    exact (only_search roomToSearch_spares b).of_path hpath said (List.mem_append_left _ hsaid)
  have allows := allows_of_path h (m := alone) hlast (hpath.bind rest) halone spares
  have htaken : taken s.talk = some solution.work := by
    rw [← taken_append s.talk fun said hsaid ↦ (spares said hsaid).look]
    exact allows.submits solution rfl
  obtain rfl : work' = solution.work := Option.some.inj (poised.taken_eq.symm.trans htaken)
  exact poised

end Called

end HashBoard.Ready
