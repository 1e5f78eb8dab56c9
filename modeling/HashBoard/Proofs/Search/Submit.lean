import HashBoard.Proofs.Search.Asks

/-!
# A search can hand over a nonce

What a routine may come to is shown by giving it replies that lead there. The replies are free here,
except for those that tell whether a routine is alone with its board.

On every board a search may come to hand over a nonce, and the nonce is for the work that is
searched. So what is searched can be told from the routine alone.
-/

namespace HashBoard

namespace Routine

variable {ν α β σ : Type} {m : Memory ν}

/-- What a routine is told that is alone with its board: what is remembered stays as it is, and
there is no source of work. -/
def Alone (m : Memory ν) : (r : Request ν) → Reply r → Prop
  | .memory, m' => m' = m
  | .epochContext _, ctx => ctx = none
  | _, _ => True

/-- A routine that is alone with its board may end with an answer. -/
def MayEnd (m : Memory ν) (p : Routine ν α) (a : α) : Prop :=
  ∃ talk, Run p talk a ∧ ∀ said ∈ talk, Alone m said.request said.reply

/-- A routine that is alone with its board may come to ask for something. -/
def MayAsk (m : Memory ν) (p : Routine ν α) (r : Request ν) : Prop :=
  ∃ talk x q, Path p (talk ++ [⟨r, x⟩]) q ∧ ∀ said ∈ talk, Alone m said.request said.reply

theorem mayEnd_done (a : α) : MayEnd m (.done a : Routine ν α) a :=
  ⟨[], run_done_iff.mpr ⟨rfl, rfl⟩, List.forall_mem_nil _⟩

theorem MayEnd.ask {r : Request ν} {next : Reply r → Routine ν α} {a : α} (x : Reply r)
    (hx : Alone m r x) (h : MayEnd m (next x) a) : MayEnd m (.ask r next) a := by
  obtain ⟨talk, hrun, htalk⟩ := h
  exact ⟨⟨r, x⟩ :: talk, run_ask_iff.mpr ⟨x, talk, rfl, hrun⟩, List.forall_mem_cons.mpr ⟨hx, htalk⟩⟩

theorem MayEnd.seq {p : Routine ν α} {f : α → Routine ν β} {a : α} {b : β} (h : MayEnd m p a)
    (h' : MayEnd m (f a) b) : MayEnd m (p.bind f) b := by
  obtain ⟨first, hfirst, hfirst'⟩ := h
  obtain ⟨second, hsecond, hsecond'⟩ := h'
  refine ⟨first ++ second, run_bind_iff.mpr ⟨first, a, second, rfl, hfirst, hsecond⟩, ?_⟩
  exact List.forall_mem_append.mpr ⟨hfirst', hsecond'⟩

theorem mayAsk_ask {r : Request ν} {next : Reply r → Routine ν α} (x : Reply r) :
    MayAsk m (.ask r next) r :=
  ⟨[], x, next x, .cons (.ask r next x) (.nil _), List.forall_mem_nil _⟩

theorem MayAsk.ask {r r' : Request ν} {next : Reply r' → Routine ν α} (x : Reply r')
    (hx : Alone m r' x) (h : MayAsk m (next x) r) : MayAsk m (.ask r' next) r := by
  obtain ⟨talk, y, q, hpath, htalk⟩ := h
  refine ⟨⟨r', x⟩ :: talk, y, q, .cons (.ask r' next x) hpath, ?_⟩
  exact List.forall_mem_cons.mpr ⟨hx, htalk⟩

theorem MayAsk.bind {p : Routine ν α} {r : Request ν} (h : MayAsk m p r) (f : α → Routine ν β) :
    MayAsk m (p.bind f) r := by
  obtain ⟨talk, x, q, hpath, htalk⟩ := h
  exact ⟨talk, x, q.bind f, hpath.bind f, htalk⟩

theorem MayEnd.mayAsk {p : Routine ν α} {f : α → Routine ν β} {a : α} {r : Request ν}
    (h : MayEnd m p a) (h' : MayAsk m (f a) r) : MayAsk m (p.bind f) r := by
  obtain ⟨first, hrun, hfirst⟩ := h
  obtain ⟨second, x, q, hpath, hsecond⟩ := h'
  refine ⟨first ++ second, x, q, ?_, List.forall_mem_append.mpr ⟨hfirst, hsecond⟩⟩
  rw [List.append_assoc]
  cases second with
  | nil => exact hrun.path hpath
  | cons => exact hrun.path hpath

theorem MayAsk.loop {state : σ} {step : σ → Routine ν (σ ⊕ β)} {next : β → Routine ν α}
    {r : Request ν} (h : MayAsk m (step state) r) : MayAsk m (.loop state step next) r := by
  obtain ⟨talk, x, q, hpath, htalk⟩ := h
  refine ⟨talk, x, q.bind (again step next), ?_, htalk⟩
  cases talk with
  | nil => exact hpath.round
  | cons => exact hpath.round

/-! ## Register access -/

variable {addr : Word}

theorem mayEnd_note (event : Event ν) : MayEnd m (note event) () :=
  .ask () trivial (mayEnd_done _)

theorem mayEnd_read (value : Word) : MayEnd m (Routine.read addr) (.ok value) :=
  .ask (.ok value) trivial (.ask () trivial (mayEnd_done _))

theorem mayEnd_readOr {default : Word} {what : String} (value : Word) :
    MayEnd m (readOr addr default what) value :=
  (mayEnd_read value).seq (mayEnd_done _)

theorem mayEnd_write {value : Word} : MayEnd m (Routine.write value addr) (.ok ()) :=
  (mayEnd_note _).seq (.ask (.ok ()) trivial (mayEnd_done _))

theorem mayEnd_tryWrite {value : Word} {what : String} : MayEnd m (tryWrite value addr what) () :=
  mayEnd_write.seq (mayEnd_done _)

end Routine

namespace Board

open Routine

variable {ν : Type} {m : Memory ν} (b : Board) (work : Work)

theorem mayEnd_programJob : MayEnd m (programJob work) () := by
  rw [programJob_eq]
  generalize Hash.effective work.boundary = boundary
  have target : MayEnd m (programTarget work boundary) () :=
    .ask (.ok ()) trivial (mayEnd_tryWrite.seq mayEnd_tryWrite)
  have rest : MayEnd m (programBoundary work boundary) () := by
    rw [programBoundary]
    dsimp only
    split
    · exact .ask () trivial target
    · exact target
  exact .ask (.ok ()) trivial rest

theorem mayEnd_programWork : MayEnd m (b.programWork work) (.ok ()) := by
  refine (mayEnd_programJob work).seq (.ask none trivial ?_)
  have paces (intensity : Intensity) : MayEnd m (b.programPacing intensity) (.ok ()) :=
    .ask () trivial (mayEnd_write.seq (mayEnd_done _))
  exact (paces _).seq (mayEnd_tryWrite.seq (.ask () trivial (mayEnd_done _)))

/-! ## One round -/

theorem mayEnd_readSlots (flags : Word) (n : Nat) (i : Word) :
    ∃ nonces, MayEnd m (readSlots flags n i) nonces := by
  induction n generalizing i with
  | zero => exact ⟨[], mayEnd_done _⟩
  | succ n ih =>
    obtain ⟨rest, hrest⟩ := ih (i + 1)
    rw [readSlots]
    split
    · exact ⟨rest, hrest⟩
    · exact ⟨_, (mayEnd_readOr 0).seq ((mayEnd_readOr 0).seq (hrest.seq (mayEnd_done _)))⟩

/-- There may be a nonce. -/
theorem mayEnd_gatherNonces : ∃ nonce rest, MayEnd m b.gatherNonces (.ok (nonce :: rest)) := by
  rw [gatherNonces]
  cases b.settings.nonceReporting with
  | interrupt =>
    exact ⟨0, [], .ask () trivial (.ask (.ok (some 0)) trivial (.ask () trivial (mayEnd_done _)))⟩
  | polled =>
    obtain ⟨rest, hrest⟩ := mayEnd_readSlots (m := m) (Reg.polledReady 0) 3 1
    have slots : MayEnd m (readSlots (Reg.polledReady 0) Reg.polledSlots 0)
        (CheckCounter.compose 0 0 :: rest) :=
      (mayEnd_readOr 0).seq ((mayEnd_readOr 0).seq (hrest.seq (mayEnd_done _)))
    have polls : MayEnd m pollNonces (CheckCounter.compose 0 0 :: rest) :=
      (mayEnd_readOr (Reg.polledReady 0)).seq (slots.seq (mayEnd_tryWrite.seq (mayEnd_done _)))
    have waits : MayEnd m (suspend b.settings.workDelay) () :=
      .ask () trivial (.ask () trivial (.ask () trivial (mayEnd_done _)))
    exact ⟨_, rest, waits.seq (polls.seq (mayEnd_done _))⟩

theorem mayEnd_checkStall (last : Option Word) : ∃ stall, MayEnd m (b.checkStall last) stall := by
  rw [checkStall]
  split
  · exact ⟨_, mayEnd_done _⟩
  · exact ⟨_, MayEnd.seq (MayEnd.seq (mayEnd_read 0) (mayEnd_done _)) (mayEnd_done _)⟩

theorem mayAsk_report (nonce : UInt64) :
    ∃ solution, solution.work = work ∧ MayAsk m (b.report work nonce) (.submit solution) :=
  ⟨{ nonce, work, foundAt := (0 : Nat), board := b.index }, rfl,
    (mayEnd_note _).mayAsk (.ask (0 : Nat) trivial (mayAsk_ask true))⟩

theorem mayAsk_finishRound [Quantity ν] (r : Round) (nonce : UInt64) (rest : List UInt64) :
    ∃ solution, solution.work = work ∧
      MayAsk m (b.finishRound work r (nonce :: rest)) (.submit solution) := by
  obtain ⟨stall, hstall⟩ := mayEnd_checkStall (m := m) b r.stall
  obtain ⟨solution, hwork, hreport⟩ := mayAsk_report (m := m) b work nonce
  have counts : MayEnd m (countChecks r.checks) (r.checks.advance 0 0) :=
    (mayEnd_readOr 0).seq ((mayEnd_readOr 0).seq (mayEnd_done _))
  exact ⟨solution, hwork, hstall.mayAsk (counts.mayAsk ((hreport.bind _).bind _))⟩

/-! ## The whole search -/

/-- A search may come to hand over a nonce for its work, unless there is other work already. -/
theorem mayAsk_search [Quantity ν] (hwork : m.newWork = false) :
    ∃ solution, solution.work = work ∧ MayAsk m (b.search work) (.submit solution) := by
  obtain ⟨nonce, rest, hgather⟩ := mayEnd_gatherNonces (m := m) b
  have rounds (r : Round) : ∃ solution, solution.work = work ∧
      MayAsk m (b.searchRound work r) (.submit solution) := by
    obtain ⟨solution, hsame, hfinish⟩ := mayAsk_finishRound (m := m) b work r nonce rest
    refine ⟨solution, hsame, .ask m rfl ?_⟩
    change MayAsk m (if m.newWork then _ else _) _
    rw [if_neg (by simp [hwork])]
    exact .ask false trivial (hgather.mayAsk hfinish)
  obtain ⟨solution, hsame, hround⟩ := rounds { sampled := (0 : Nat), watched := (0 : Nat) }
  have runs : MayAsk m (b.runSearch work) (.submit solution) := by
    refine (mayEnd_programWork b work).mayAsk ?_
    exact .ask () trivial (.ask (0 : Nat) trivial hround.loop)
  exact ⟨solution, hsame, .ask () trivial (runs.bind _)⟩

end Board

end HashBoard
