import HashBoard.Proofs.Finds.Rounds
import HashBoard.Proofs.Stall.Samples
import HashBoard.Proofs.Tally.Search

/-!
# How a search ends

The last round of a search ends at its head, because its nonces could not be gathered, or because
the core stands still. In the last case it did everything else first: it handed over what was found,
told tuning and averages, and sampled telemetry if it was time to (`last_round`).
-/

namespace HashBoard

open Routine Board

variable {ν : Type}

/-- A failure is a fault that the settings of a board make fatal. -/
def OnlyEscalates (b : Board) {α : Type} (x : Except BoardError α) : Prop :=
  ∀ e, x = .error e → b.settings.dieOnError ∧ ∃ cause, e = .escalated cause

/-- A round that ends a search before it samples the stall counter. -/
inductive EndsEarly (b : Board) : List (Answered ν) → Except BoardError SearchExit → Prop
  /-- There was a reason to look for other work at its head. -/
  | newWork {m : Memory ν} : m.newWork → EndsEarly b [⟨.memory, m⟩] (.ok .newWork)
  /-- Shutdown was requested there. -/
  | shutdown {m : Memory ν} : m.newWork = false →
    EndsEarly b [⟨.memory, m⟩, ⟨.isCancelled, true⟩] (.ok .shutdown)
  /-- A wait failed, and the settings made that fatal. -/
  | escalated {m : Memory ν} {gathering : List (Answered ν)} {cause : String} :
    b.settings.dieOnError → Run b.gatherNonces gathering (.error (.escalated cause)) →
    EndsEarly b (⟨.memory, m⟩ :: ⟨.isCancelled, false⟩ :: gathering) (.error (.escalated cause))

/-- A round did everything there is to do in one, at some time. -/
structure Finishes [Quantity ν] (b : Board) (work : Work) (r : Round) (t : Micros)
    (round : List (Answered ν)) : Prop where
  now : ⟨.now, t⟩ ∈ round
  /-- It handed over the nonces that were found in it. -/
  hands : HandsOver b work round
  /-- It told tuning and averages what the check counter made of the words read in it. -/
  tells : ∃ delta errorRate m f,
    delta = (r.checks.advance (wordRead Reg.checksLo round) (wordRead Reg.checksHi round)).2 ∧
    [⟨.tune delta, ()⟩, ⟨.errorRate, errorRate⟩, ⟨.memory, m⟩, ⟨.revise f, ()⟩] <:+: round ∧
    ∀ m' : Memory ν, (f m').averager = (m.averager.record delta t errorRate).1
  /-- It sampled telemetry if it was time to. -/
  watches : b.settings.telemetryInterval ≤ t - r.watched →
    ∃ watching x, watching <:+: round ∧ Run b.checkTelemetry watching x

namespace Stall

variable {talk : List (Answered ν)} {b : Board} {work : Work}

/-! ## Failures -/

/-- A routine without loops fails only as its last part does. -/
theorem settles_seq {α β : Type} {p : Routine ν α} {f : α → Routine ν (Except BoardError β)}
    (hp : p.Brief) (hf : ∀ a, (f a).Settles (fun _ ↦ True) (OnlyEscalates b)) :
    (p.bind f).Settles (fun _ ↦ True) (OnlyEscalates b) :=
  (hp.settles (only_any p)).bind fun a _ ↦ hf a

theorem settles_ok {α : Type} (a : α) :
    (Routine.done (.ok a) : Routine ν (Except BoardError α)).Settles (fun _ ↦ True)
      (OnlyEscalates b) := fun _ h ↦ by cases h

theorem settles_error {α : Type} {x : Except BoardError α} {e : BoardError}
    (hx : OnlyEscalates b x) (he : x = .error e) {β : Type} :
    (Routine.done (.error e) : Routine ν (Except BoardError β)).Settles (fun _ ↦ True)
      (OnlyEscalates b) := fun _ h ↦ by cases h; exact hx e he

theorem settles_escalate (what cause : String) :
    (b.escalate what cause : Routine ν _).Settles (fun _ ↦ True) (OnlyEscalates b) := by
  rw [escalate]
  split
  · rename_i hdie
    exact settles_seq (brief_note _) fun _ _ h ↦ by cases h; exact ⟨hdie, _, rfl⟩
  · exact settles_ok ()

theorem settles_opening :
    (b.opening work : Routine ν _).Settles (fun _ ↦ True) (OnlyEscalates b) := by
  have pacing (intensity : Intensity) :
      (b.programPacing intensity : Routine ν _).Settles (fun _ ↦ True) (OnlyEscalates b) := by
    refine settles_seq (brief_request _) fun _ ↦ settles_seq (brief_write _ _) fun x ↦ ?_
    cases x with
    | ok => exact settles_ok ()
    | error fault => exact settles_seq (brief_note _) fun _ ↦ settles_escalate _ _
  have program : (b.programWork work : Routine ν _).Settles (fun _ ↦ True) (OnlyEscalates b) := by
    refine settles_seq brief_programJob fun _ ↦ ?_
    refine settles_seq (p := b.pacing) (fun _ ↦ trivial) fun intensity ↦ ?_
    refine (pacing intensity).bind fun x hx ↦ ?_
    cases x with
    | error e => exact settles_error hx rfl
    | ok =>
      exact settles_seq (brief_tryWrite _ _ _) fun _ ↦
        settles_seq (brief_note _) fun _ ↦ settles_ok ()
  refine settles_seq (brief_request _) fun _ ↦ program.bind fun x hx ↦ ?_
  cases x with
  | error e => exact settles_error hx rfl
  | ok =>
    exact settles_seq (brief_request (.revise _)) fun _ ↦
      settles_seq (brief_request _) fun t ↦ settles_ok t

theorem settles_gatherNonces :
    (b.gatherNonces : Routine ν _).Settles (fun _ ↦ True) (OnlyEscalates b) := by
  rw [gatherNonces]
  cases b.settings.nonceReporting with
  | polled =>
    refine settles_seq (p := suspend _) (fun _ _ _ ↦ trivial) fun _ ↦ ?_
    exact settles_seq brief_pollNonces fun nonces ↦ settles_ok nonces
  | interrupt =>
    refine settles_seq (brief_request _) fun _ ↦ settles_seq (brief_request _) fun answer ↦ ?_
    refine settles_seq (brief_request _) fun _ ↦ ?_
    rcases answer with fault | nonce
    · refine settles_seq (brief_note _) fun _ ↦ (settles_escalate _ _).bind fun x hx ↦ ?_
      cases x with
      | error e => exact settles_error hx rfl
      | ok => exact settles_ok _
    · cases nonce <;> exact settles_ok _

/-! ## A round that is finished -/

theorem checks_of_run_countChecks {c : CheckCounter} {count : CheckCounter × UInt64}
    (run : Run (countChecks c) talk count) (more : List (Answered ν)) :
    count = c.advance (wordRead Reg.checksLo (talk ++ more))
      (wordRead Reg.checksHi (talk ++ more)) := by
  obtain ⟨reading, lo, _, rfl, hlo, hrest⟩ := run_bind_iff.mp run
  obtain ⟨reading', hi, _, rfl, hhi, hdone⟩ := run_bind_iff.mp hrest
  obtain ⟨rfl, rfl⟩ := run_done_iff.mp hdone
  rw [List.append_nil, List.append_assoc, wordRead_of_run hlo,
    wordRead_of_run_ne hlo (by decide), wordRead_of_run hhi]

variable [Quantity ν] {r : Round} {nonces : List UInt64}

theorem watches_of_run_watchIfDue {watched t watched' : Micros}
    (run : Run (b.watchIfDue watched t) talk watched')
    (due : b.settings.telemetryInterval ≤ t - watched) :
    ∃ x, Run (b.checkTelemetry (ν := ν)) talk x := by
  rw [watchIfDue, if_pos due] at run
  obtain ⟨watching, x, _, rfl, hwatching, hend⟩ := run_bind_iff.mp run
  obtain ⟨rfl, -⟩ := run_done_iff.mp hend
  rw [List.append_nil]
  exact ⟨x, hwatching⟩

/-- What was said in a round once the check counter was sampled. -/
def later (f : Finish (ν := ν) b work r nonces) : List (Answered ν) :=
  f.handing ++ ⟨.now, f.t⟩ :: (f.telling ++ (f.watching ++
    if f.stall.1 then [⟨.note .coreStalled, ()⟩] else []))

/-- The check counter is not read before it is sampled. -/
theorem aside_of_gathering {m : Memory ν} {gathering : List (Answered ν)}
    (hgather : Run b.gatherNonces gathering (.ok nonces)) (f : Finish b work r nonces) :
    ∀ said ∈ ⟨.memory, m⟩ :: ⟨.isCancelled, false⟩ :: (gathering ++ f.sampling),
      Tally.Aside said.request := by
  have room : RoomToSeek (Tally.Aside : Request ν → Prop) work := Tally.roomToSeek_aside
  have hsampling := (only_checkStall room.quiet room.stall b r.stall).of_run f.run_sampling
  simp only [List.forall_mem_cons, List.forall_mem_append]
  exact ⟨room.quiet .memory rfl, room.looks,
    (only_gatherNonces room.toGather b).of_run hgather, hsampling⟩

/-- A round that has its nonces does everything there is to do. -/
theorem finishes_of_finish {m : Memory ν} {gathering : List (Answered ν)}
    (hgather : Run b.gatherNonces gathering (.ok nonces)) (f : Finish b work r nonces)
    (run : Run (b.searchRound work r)
      (⟨.memory, m⟩ :: ⟨.isCancelled, false⟩ :: (gathering ++ f.said)) f.outcome) :
    Finishes b work r f.t (⟨.memory, m⟩ :: ⟨.isCancelled, false⟩ :: (gathering ++ f.said)) := by
  have aside := aside_of_gathering (m := m) hgather f
  have reads {addr : Word} (haddr : addr ∈ Reg.checks) :
      wordRead addr (⟨.memory, m⟩ :: ⟨.isCancelled, false⟩ :: (gathering ++ f.said)) =
        wordRead addr (f.checking ++ later f) := by
    have before := wordRead_append (fun said hs ↦ (aside said hs).read addr haddr)
      (f.checking ++ later f)
    rw [← before, Finish.said, later, List.cons_append, List.cons_append, List.append_assoc]
  obtain ⟨errorRate, m', g, htelling, hkept⟩ := exists_of_run_keepAccount f.run_telling
  have hcount := checks_of_run_countChecks f.run_checking (later f)
  refine ⟨?_, (Finds.handsOver_of_run run).1, ⟨f.count.2, errorRate, m', g, ?_, ?_,
    fun m ↦ (hkept m).1⟩, fun due ↦ ?_⟩
  · simp [Finish.said]
  · rw [reads (by decide), reads (by decide), ← hcount]
  · rw [← htelling]
    refine ⟨⟨.memory, m⟩ :: ⟨.isCancelled, false⟩ :: (gathering ++ (f.sampling ++ (f.checking ++
      (f.handing ++ [⟨.now, f.t⟩])))), f.watching ++
        if f.stall.1 then [⟨.note .coreStalled, ()⟩] else [], ?_⟩
    simp [Finish.said]
  · obtain ⟨x, hwatching⟩ := watches_of_run_watchIfDue f.run_watching due
    refine ⟨f.watching, x, ?_, hwatching⟩
    refine ⟨⟨.memory, m⟩ :: ⟨.isCancelled, false⟩ :: (gathering ++ (f.sampling ++ (f.checking ++
      (f.handing ++ (⟨.now, f.t⟩ :: f.telling))))),
        if f.stall.1 then [⟨.note .coreStalled, ()⟩] else [], ?_⟩
    simp [Finish.said]

/-! ## The last round -/

/-- The last round of a search ends before it samples the stall counter, or finds it where it stood
and did everything else. -/
theorem last_round (enabled : b.settings.skipStallDetection = false) {last : List (Answered ν)}
    {a : Except BoardError SearchExit} (run : Run (b.searchRound work r) last (.inr a)) :
    (stallSamples last = [] ∧ EndsEarly b last a) ∨
      ∃ w, stallSamples last = [w] ∧ r.stall = some w ∧ a = .ok .stalled ∧
        ∃ t, Finishes b work r t last := by
  have course := roundCourse_of_run run
  generalize hx : (.inr a : Round ⊕ Except BoardError SearchExit) = x at run course
  cases course with
  | newWork hwork =>
    cases hx
    exact .inl ⟨rfl, .newWork hwork⟩
  | shutdown hwork =>
    cases hx
    exact .inl ⟨rfl, .shutdown hwork⟩
  | @failed m gathering e hwork hgather =>
    cases hx
    obtain ⟨hdie, cause, rfl⟩ := (settles_gatherNonces.of_run hgather).2 e rfl
    exact .inl ⟨stallSamples_eq_nil (unsampled_of_gathering hgather), .escalated hdie hgather⟩
  | @finished m gathering nonces _ f hwork hgather hout =>
    obtain ⟨w, hw, hstall⟩ := samples_of_finish enabled f
    subst hout
    have hfinishes := finishes_of_finish hgather f run
    rw [Finish.outcome, hstall] at hx
    split at hx
    · rename_i hstood
      cases hx
      refine .inr ⟨w, ?_, of_decide_eq_true hstood, rfl, f.t, hfinishes⟩
      rw [← hw]
      exact stallSamples_append_left (unsampled_of_gathering hgather) f.said
    · cases hx

end Stall

/-! ## A reason to end, seen at the head of a round -/

/-- Whether a request may keep a routine waiting. -/
def Request.waits : Request ν → Bool
  | .call (.awaitInterrupt ..) | .acquire | .sleep _ | .sleepUntil _ | .park _ | .nextChange _
  | .tick _ | .outlast _ | .settle => true
  | _ => false

/-- A request that neither waits nor samples the stall counter. -/
def Direct (r : Request ν) : Prop := r.waits = false ∧ Stall.Unsampled r

namespace Stall

theorem direct_stopCore : (stopCore : Routine ν _).Only Direct := by
  have notes (event : Event ν) : (note event).Only Direct := only_request ⟨rfl, nofun⟩
  have writes (value addr : Word) (what : String) :
      (tryWrite value addr what : Routine ν _).Only Direct := by
    have plain : (write value addr : Routine ν _).Only Direct :=
      (notes _).bind fun _ ↦ ⟨⟨rfl, nofun⟩, fun _ ↦ trivial⟩
    refine plain.bind fun x ↦ ?_
    cases x with
    | ok => trivial
    | error fault => exact notes _
  have reads : (read Reg.coreFlags : Routine ν _).Only Direct := by
    refine ⟨⟨rfl, nofun⟩, fun x ↦ ?_⟩
    cases x with
    | ok value => exact (notes _).bind fun _ ↦ trivial
    | error fault => trivial
  refine reads.bind fun x ↦ ?_
  cases x with
  | ok flags => exact (only_forEach fun _ _ ↦ writes _ _ _).bind fun _ ↦ writes _ _ _
  | error fault => exact (notes _).bind fun _ ↦ writes _ _ _

/-- What is left of a search after its rounds comes to its end at once, with what it ended for. -/
theorem settles_closing (result : Except BoardError SearchExit) :
    (closing result : Routine ν _).Settles Direct (· = result) := by
  have notes (event : Event ν) : (note event).Settles Direct fun _ ↦ True :=
    settles_request (r := .note event) ⟨rfl, nofun⟩
  refine (brief_stopCore.settles direct_stopCore).bind fun _ _ ↦ ?_
  refine ⟨⟨rfl, nofun⟩, fun _ ↦ ⟨⟨rfl, nofun⟩, fun _ ↦ ?_⟩⟩
  cases result with
  | ok exit => exact (notes _).bind fun _ _ ↦ rfl
  | error e => exact (notes _).bind fun _ _ ↦ rfl

variable [Quantity ν] {b : Board} {work : Work} {r : Round} {opening : List (Answered ν)}
  {laps : List (List (Answered ν))} {m : Memory ν} {q : Routine ν (Except BoardError SearchExit)}

/-- A search that sees a reason to look for other work ends for it at once. -/
theorem settles_of_newWork (h : Underway b work opening laps r) (hwork : m.newWork)
    (path : Path (b.search work) (opening ++ (laps.flatten ++ [⟨.memory, m⟩])) q) :
    q.Settles Direct (· = .ok .newWork) := by
  have head : Path (b.searchRound work r) [⟨.memory, m⟩] (.done (.inr (.ok .newWork))) := by
    refine .cons (.ask ..) ?_
    rw [done_bind, if_pos hwork]
    exact .nil _
  obtain rfl := path.unique (h.path head)
  exact settles_closing _

/-- A search that sees no such reason, but a request to shut down, ends for that at once. -/
theorem settles_of_shutdown (h : Underway b work opening laps r) (hwork : m.newWork = false)
    (path : Path (b.search work)
      (opening ++ (laps.flatten ++ [⟨.memory, m⟩, ⟨.isCancelled, true⟩])) q) :
    q.Settles Direct (· = .ok .shutdown) := by
  have head : Path (b.searchRound work r) [⟨.memory, m⟩, ⟨.isCancelled, true⟩]
      (.done (.inr (.ok .shutdown))) := by
    refine .cons (.ask ..) ?_
    rw [done_bind, if_neg (by rw [hwork]; exact Bool.false_ne_true)]
    exact .cons (.ask ..) (.nil _)
  obtain rfl := path.unique (h.path head)
  exact settles_closing _

end Stall

end HashBoard
