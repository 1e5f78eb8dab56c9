import HashBoard.Proofs.Finds.Handing
import HashBoard.Proofs.Finds.Header
import HashBoard.Proofs.Scene.Rehearsal

/-!
# What solutions are for

A solution is for the work that is searched when its nonce is taken from the board. The nonce may
have been queued before: a search may end while there are nonces in the queue, and nothing empties
it, so that the next search takes them and hands them over as its own.

Solutions are handed over in the order in which their nonces were queued. So it can be told of each
of them whether it is for the work that was searched when the board queued its nonce: it is, exactly
if all that was queued before the search began has been handed over before (`found_under_iff`).
-/

namespace HashBoard

open Routine

variable {ν : Type} [Quantity ν] {b : Board}

/-! ## Finds -/

/-- A nonce that was queued, and how things stood then. -/
structure Find where
  /-- The nonce. -/
  nonce : UInt64
  /-- The work whose search was under way. -/
  under : Option Work
  /-- What the header registers held. -/
  header : List Word

/-- The work that is searched after an occurrence. -/
def searchedAfter (work : Option Work) : Occurrence (b.errands (ν := ν)) → Option Work
  | .begins (.search work) => some work
  | .begins (.prepare _) | .ends .. => none
  | .arrives .. | .talks .. => work

/-- The work whose search is under way after some occurrences. -/
def underWay (es : List (Occurrence (b.errands (ν := ν)))) : Option Work :=
  es.foldl searchedAfter none

/-- The work of the searches that were begun. -/
def searched (es : List (Occurrence (b.errands (ν := ν)))) : List Work :=
  es.filterMap fun
    | .begins (.search work) => some work
    | _ => none

/-- What is found in some moments after some occurrences. -/
def foundAfter (es : List (Occurrence (b.errands (ν := ν)))) :
    List (Moment (b.errands (ν := ν))) → List Find
  | [] => []
  | .occurs e :: ms => foundAfter (es ++ [e]) ms
  | .queues nonce :: ms =>
    { nonce, under := underWay es, header := headerIn (talkOf es) } :: foundAfter es ms

/-- What is found in some moments, in order. -/
def found (ms : List (Moment (b.errands (ν := ν)))) : List Find := foundAfter [] ms

namespace Finds

variable {es : List (Occurrence (b.errands (ν := ν)))}
  {ms before since : List (Moment (b.errands (ν := ν)))} {work : Work}

theorem foundAfter_append (ms ms' : List (Moment (b.errands (ν := ν)))) :
    foundAfter es (ms ++ ms') = foundAfter es ms ++ foundAfter (es ++ occurrencesOf ms) ms' := by
  induction ms generalizing es with
  | nil => simp [foundAfter]
  | cons m ms ih =>
    cases m with
    | occurs e => simp [foundAfter, ih]
    | queues nonce => simp [foundAfter, ih]

theorem length_foundAfter : (foundAfter es ms).length = (queued ms).length := by
  induction ms generalizing es with
  | nil => rfl
  | cons m ms ih =>
    cases m with
    | occurs e => exact ih
    | queues nonce => exact congrArg (· + 1) ih

/-- What is found where a nonce is queued. -/
theorem getElem?_found (earlier later : List (Moment (b.errands (ν := ν)))) (nonce : UInt64) :
    (found (earlier ++ .queues nonce :: later))[(queued earlier).length]? =
      some { nonce, under := underWay (occurrencesOf earlier)
             header := headerIn (talkOf (occurrencesOf earlier)) } := by
  rw [found, foundAfter_append, List.getElem?_append_right (Nat.le_of_eq length_foundAfter),
    length_foundAfter, Nat.sub_self]
  rfl

/-! ## The search under way -/

theorem underWay_snoc (es : List (Occurrence (b.errands (ν := ν))))
    (e : Occurrence (b.errands (ν := ν))) :
    underWay (es ++ [e]) = searchedAfter (underWay es) e := by
  rw [underWay, List.foldl_append]
  rfl

/-- A search that is under way was begun. -/
theorem mem_searched (h : underWay es = some work) : work ∈ searched es := by
  induction es using List.reverseRecOn with
  | nil => cases h
  | append_singleton es e ih =>
    rw [searched, List.filterMap_append]
    rw [underWay_snoc] at h
    cases e with
    | begins job =>
      cases job with
      | prepare ctx => cases h
      | search work' =>
        cases h
        exact List.mem_append_right _ (.head _)
    | ends => cases h
    | arrives | talks => exact List.mem_append_left _ (ih h)

/-- A search is under way until it ends. -/
theorem underWay_of_within {before since : List (Occurrence (b.errands (ν := ν)))}
    (within : ∀ e ∈ since, e.IsWithin) :
    underWay (before ++ .begins (.search work) :: since) = some work := by
  rw [underWay, List.foldl_append, List.foldl_cons]
  refine foldl_of_within (fun under e hwithin ↦ ?_) within _
  cases e with
  | begins | ends => exact hwithin.elim
  | arrives | talks => rfl

end Finds

/-! ## Where a solution comes from -/

/-- A solution that is handed over after some moments: the find that it comes from, and the moments
before and since its search was begun. -/
structure Origin (ms : List (Moment (b.errands (ν := ν)))) (solution : Solution) (find : Find)
    (before since : List (Moment (b.errands (ν := ν)))) : Prop where
  /-- It is handed over by a search of its work. -/
  begun : ms = before ++ .occurs (.begins (.search solution.work)) :: since
  /-- That search has not ended. -/
  within : ∀ e ∈ occurrencesOf since, e.IsWithin
  /-- It comes from the find whose turn it is. -/
  turn : (found ms)[(handedOver (talkOf (occurrencesOf ms))).length]? = some find
  /-- It has the nonce that was found. -/
  nonce : find.nonce = solution.nonce
  /-- If its work was never searched before, it was found under this work exactly if all that was
  queued before the search began has been handed over. -/
  under_iff : solution.work ∉ searched (occurrencesOf before) →
    (find.under = some solution.work ↔
      (queued before).length ≤ (handedOver (talkOf (occurrencesOf ms))).length)
  /-- If all that was queued before the search wrote its header has been handed over, that header
  was in its registers. -/
  header : ∀ arming mining,
    since = arming ++ .occurs (.talks .owner solution.work.headerWritten) :: mining →
    (queued (before ++ .occurs (.begins (.search solution.work)) :: arming)).length ≤
      (handedOver (talkOf (occurrencesOf ms))).length →
    find.header = solution.work.headerWords

namespace Finds

variable {memory : Memory ν} {feed : Feed} {board board' : SimulatedBoard}
  {ms : List (Moment (b.errands (ν := ν)))} {party : Party} {solution : Solution} {x : Bool}
  {s : Scene (b.errands (ν := ν))}

/-- Whoever hands over a solution searches its work. -/
theorem begun_of_submit {es : List (Occurrence (b.errands (ν := ν)))}
    (run : Scene.Runs (.quiet memory feed) (es ++ [.talks party ⟨.submit solution, x⟩]) s) :
    ∃ before since, es = before ++ .begins (.search solution.work) :: since ∧
      ∀ e ∈ since, e.IsWithin := by
  have hmodest : ¬Modest (.submit solution : Request ν) :=
    fun h ↦ (aside_of_modest h).submit solution rfl
  obtain ⟨-, job, before, since, rfl, within, p, q, hpath, hs⟩ :=
    run.begun_of_asked (Scene.orderly_quiet memory feed) rfl hmodest
  cases job with
  | prepare ctx =>
    have aside : (b.prepareEpoch ctx : Routine ν _).Only Aside :=
      Board.only_prepareEpoch roomToPrepare_aside b ctx
    exact absurd rfl ((aside.asks_of_path hpath hs).submit solution)
  | search work =>
    have keeps : (b.search work : Routine ν _).Only (KeepsTo work) :=
      Board.only_search roomToSearch_keepsTo b
    rw [(keeps.asks_of_path hpath hs).submit solution rfl]
    exact ⟨before, since, rfl, within⟩

/-- The nonces that were queued are those of the solutions that were handed over, then the one that
is handed over now, then the rest. -/
theorem queued_eq (interrupts : b.settings.nonceReporting = .interrupt)
    (empty : board.nonces = [])
    (mines : board.Mines (ms ++ [.occurs (.talks party ⟨.submit solution, x⟩)]) board')
    (run : Scene.Runs (.quiet memory feed)
      (occurrencesOf ms ++ [.talks party ⟨.submit solution, x⟩]) s) :
    ∃ rest, queued ms =
      (handedOver (talkOf (occurrencesOf ms))).map (·.nonce) ++ solution.nonce :: rest := by
  obtain ⟨rest, howes⟩ := owes_of_runs interrupts run
  have hqueue := mines.queue_eq
  have hsilent : takenNonces [(⟨.submit solution, x⟩ : Answered ν)] = [] := rfl
  rw [empty, List.nil_append, queued_append, queued_occurs, queued_nil, List.append_nil,
    occurrencesOf_append, occurrencesOf_occurs, occurrencesOf_nil, talkOf_snoc_talks,
    takenNonces_append, hsilent, List.append_nil, howes, List.append_assoc] at hqueue
  exact ⟨rest ++ board'.nonces, hqueue⟩

/-! ## How things stood when a nonce was queued -/

section Split

variable {before since earlier later : List (Moment (b.errands (ν := ν)))} {nonce : UInt64}
  {work : Work}
  (split : before ++ .occurs (.begins (.search work)) :: since = earlier ++ .queues nonce :: later)
  (within : ∀ e ∈ occurrencesOf since, e.IsWithin)
include split within

/-- A nonce was queued under the last search, if its work is new, exactly if it was queued after
that search began. -/
theorem underWay_iff (new : work ∉ searched (occurrencesOf before)) :
    underWay (occurrencesOf earlier) = some work ↔
      (queued before).length ≤ (queued earlier).length := by
  rw [queued_le_iff split]
  constructor
  · intro hunder
    refine (queues_before_or_after split).resolve_left ?_
    rintro ⟨more, rfl⟩
    rw [occurrencesOf_append, searched, List.filterMap_append] at new
    exact new (List.mem_append_left _ (mem_searched hunder))
  · rintro ⟨more, rfl, rfl⟩
    rw [occurrencesOf_append, occurrencesOf_occurs]
    rw [occurrencesOf_append] at within
    exact underWay_of_within fun e he ↦ within e (List.mem_append_left _ he)

/-- A nonce that was queued after the search wrote its header was found for this header. -/
theorem headerIn_of_armed
    (run : Scene.Runs (.quiet memory feed)
      (occurrencesOf (before ++ .occurs (.begins (.search work)) :: since)) s)
    {arming mining : List (Moment (b.errands (ν := ν)))}
    (armed : since = arming ++ .occurs (.talks .owner work.headerWritten) :: mining)
    (hle : (queued (before ++ .occurs (.begins (.search work)) :: arming)).length ≤
      (queued earlier).length) :
    headerIn (talkOf (occurrencesOf earlier)) = work.headerWords := by
  have split' : (before ++ .occurs (.begins (.search work)) :: arming) ++
      .occurs (.talks .owner work.headerWritten) :: mining =
        earlier ++ .queues nonce :: later := by
    rw [← split, armed, List.append_assoc, List.cons_append]
  obtain ⟨more, rfl, rfl⟩ := (queued_le_iff split').mp hle
  rw [occurrencesOf_append, occurrencesOf_occurs] at run
  have hmore : more <:+: since := by
    refine ⟨arming ++ [.occurs (.talks .owner work.headerWritten)], .queues nonce :: later, ?_⟩
    rw [armed, List.append_assoc, List.append_assoc, List.singleton_append]
  have hsaid : talkOf (occurrencesOf more) ⊆ talkOf (occurrencesOf since) :=
    ((hmore.sublist.filterMap _).filterMap _).subset
  rw [occurrencesOf_append, occurrencesOf_occurs, talkOf_append]
  exact headerIn_of_keepsTo fun said h ↦ keepsTo_of_within run within said (hsaid h)

end Split

end Finds

/-- **What a solution was found under.** Whatever errands and guests do, and whatever nonces are
queued when: a solution that is handed over comes from the find whose turn it is, and it is for the
work that is searched. If that work is new, it was searched when the nonce was queued exactly if all
nonces from before the search had been handed over; and from the moment at which the header is
written the nonces that are queued are found for this header. -/
theorem found_under_iff {b : Board} (interrupts : b.settings.nonceReporting = .interrupt)
    {memory : Memory ν} {feed : Feed} {board board' : SimulatedBoard} (empty : board.nonces = [])
    {ms : List (Moment (b.errands (ν := ν)))} {party : Party} {solution : Solution} {x : Bool}
    (mines : board.Mines (ms ++ [.occurs (.talks party ⟨.submit solution, x⟩)]) board')
    {s : Scene (b.errands (ν := ν))}
    (run : Scene.Runs (.quiet memory feed)
      (occurrencesOf (ms ++ [.occurs (.talks party ⟨.submit solution, x⟩)])) s) :
    ∃ find before since, Origin ms solution find before since := by
  rw [occurrencesOf_append] at run
  obtain ⟨rest, hqueued⟩ := Finds.queued_eq interrupts empty mines run
  obtain ⟨earlier, later, hearlier, hcount, -⟩ := queued_eq_append_cons hqueued
  have hturn : (handedOver (talkOf (occurrencesOf ms))).length = (queued earlier).length := by
    rw [hcount, List.length_map]
  obtain ⟨before', since', hbegun, within⟩ := Finds.begun_of_submit run
  obtain ⟨before, since, hms, rfl, rfl⟩ := occurrencesOf_eq_append_cons hbegun
  obtain ⟨t, upTo, -⟩ := run.of_snoc
  have split := hms.symm.trans hearlier
  have found := Finds.getElem?_found earlier later solution.nonce
  rw [← hearlier, ← hturn] at found
  refine ⟨_, before, since, hms, within, found, rfl, fun new ↦ ?_, fun arming mining armed hle ↦ ?_⟩
  · rw [hturn]
    exact Finds.underWay_iff split within new
  · rw [hms] at upTo
    exact Finds.headerIn_of_armed split within upTo armed (hturn ▸ hle)

/-! ### What is left over from a search -/

namespace Finds

/-- Some other work. -/
def otherWork : Work := { plainWork with header := .ofBytes [1] }

/-- A board whose core does not move. -/
def stillBoard : SimulatedBoard := { SimulatedBoard.healthy with steps := [] }

/-- A search, up to where the core is started. -/
def started : Rehearsal (plainBoard.errands (ν := Rat)) :=
  .rehearse (.start 0 false) {} stillBoard [.begins (.search plainWork), .goes .owner 15]

/-- Three nonces are queued meanwhile. -/
def ladenBoard : SimulatedBoard := ((started.board.pushNonce 1).pushNonce 2).pushNonce 3

/-- The search hands two of them over and ends because the core does not move. Then another one is
begun, and it hands over the third. -/
def resumed : Rehearsal (plainBoard.errands (ν := Rat)) :=
  started.goOn ladenBoard [.goes .owner 300, .begins (.search otherWork), .goes .owner 31]

/-- All that happens before the third nonce is handed over. -/
def leftOver : List (Moment (plainBoard.errands (ν := Rat))) :=
  started.occurrences.map .occurs ++
    .queues 1 :: .queues 2 :: .queues 3 :: resumed.before.map .occurs

/-- The preparation of an epoch begins. -/
def prepares : Occurrence (plainBoard.errands (ν := Rat)) → Bool
  | .begins (.prepare _) => true
  | _ => false

/-- The third nonce is handed over for the other work. -/
def isThird : Occurrence (plainBoard.errands (ν := Rat)) → Bool
  | .talks .owner ⟨.submit solution, _⟩ => solution.nonce = 3 ∧ solution.work = otherWork
  | _ => false

theorem third_of_isThird {e : Occurrence (plainBoard.errands (ν := Rat))} (h : isThird e) :
    ∃ solution x, e = .talks .owner ⟨.submit solution, x⟩ ∧ solution.work = otherWork := by
  unfold isThird at h
  split at h
  · exact ⟨_, _, rfl, (of_decide_eq_true h).2⟩
  · cases h

/-- What is left over is handed over for the other work. -/
theorem handed_of_leftOver :
    ∃ solution x, solution.work = otherWork ∧
      stillBoard.Mines (leftOver ++ [.occurs (.talks .owner ⟨.submit solution, x⟩)])
        resumed.board ∧
      Scene.Runs (.quiet (.start 0 false) {})
        (occurrencesOf (leftOver ++ [.occurs (.talks .owner ⟨.submit solution, x⟩)]))
        resumed.scene := by
  have passes : resumed.lastPasses isThird := by decide +kernel
  obtain ⟨e, he, hlast⟩ := Rehearsal.occurrences_of_lastPasses passes
  obtain ⟨solution, x, rfl, hwork⟩ := third_of_isThird he
  have runs : Scene.Runs (.quiet (.start 0 false) {}) started.occurrences started.scene :=
    Rehearsal.rehearse_runs ..
  have resumes : Scene.Runs started.scene resumed.occurrences resumed.scene :=
    Rehearsal.goOn_runs ..
  have first : stillBoard.Mines (started.occurrences.map .occurs) started.board :=
    .of_answers rfl (Rehearsal.rehearse_answers ..)
  have second : ladenBoard.Mines (resumed.occurrences.map .occurs) resumed.board :=
    .of_answers (by decide +kernel) (Rehearsal.goOn_answers ..)
  have mines := first.append (.queues 1 (.queues 2 (.queues 3 second)))
  have run := runs.append resumes
  rw [hlast] at mines run
  refine ⟨solution, x, hwork, ?_, ?_⟩
  · rw [leftOver, List.append_assoc]
    rw [List.map_append] at mines
    exact mines
  · simp only [leftOver, occurrencesOf_append, occurrencesOf_map_occurs, occurrencesOf_queues,
      occurrencesOf_occurs, occurrencesOf_nil, List.append_assoc]
    exact run

end Finds

/-- The third nonce was found for the first work, and comes from there: it is handed over for the
other work. -/
theorem origin_of_leftOver :
    ∃ solution find before since, Origin Finds.leftOver solution find before since ∧
      solution.work = Finds.otherWork ∧ find.under = some plainWork ∧
      find.header = plainWork.headerWords := by
  obtain ⟨solution, x, hwork, mines, run⟩ := Finds.handed_of_leftOver
  obtain ⟨find, before, since, origin⟩ := found_under_iff rfl rfl mines run
  have third :
      (found Finds.leftOver)[(handedOver (talkOf (occurrencesOf Finds.leftOver))).length]?.all
        fun find ↦ find.under = some plainWork ∧ find.header = plainWork.headerWords := by
    decide +kernel
  rw [origin.turn] at third
  obtain ⟨hunder, hheader⟩ := of_decide_eq_true third
  exact ⟨solution, find, before, since, origin, hwork, hunder, hheader⟩

/-- Searches of different packages on a board with an empty queue, which queues nonces only while it
mines for the search that is under way: a solution may be for other work than its nonce was found
for. -/
theorem not_found_under :
    ¬∀ (b : Board) (memory : Memory Rat) (feed : Feed) (board board' : SimulatedBoard)
      (ms : List (Moment (b.errands (ν := Rat)))) (party : Party) (solution : Solution) (x : Bool)
      (s : Scene (b.errands (ν := Rat))),
      b.settings.nonceReporting = .interrupt → board.nonces = [] →
      board.Mines (ms ++ [.occurs (.talks party ⟨.submit solution, x⟩)]) board' →
      Scene.Runs (.quiet memory feed)
        (occurrencesOf (ms ++ [.occurs (.talks party ⟨.submit solution, x⟩)])) s →
      (∀ ctx, .begins (.prepare ctx) ∉ occurrencesOf ms) → (searched (occurrencesOf ms)).Nodup →
      (∀ find ∈ found ms, ∃ work, find.under = some work ∧ find.header = work.headerWords) →
      ∃ find, (found ms)[(handedOver (talkOf (occurrencesOf ms))).length]? = some find ∧
        find.under = some solution.work := by
  intro claim
  obtain ⟨solution, x, hwork, mines, run⟩ := Finds.handed_of_leftOver
  obtain ⟨searches, different, mined⟩ :
      (occurrencesOf Finds.leftOver).all (!Finds.prepares ·) ∧
      (searched (occurrencesOf Finds.leftOver)).Nodup ∧
      (found Finds.leftOver).all fun find ↦
        find.under = some plainWork ∧ find.header = plainWork.headerWords := by
    decide +kernel
  have unprepared (ctx : EpochContext) : .begins (.prepare ctx) ∉ occurrencesOf Finds.leftOver :=
    fun h ↦ absurd (List.all_eq_true.mp searches _ h) Bool.false_ne_true
  have each (find : Find) (h : find ∈ found Finds.leftOver) :
      find.under = some plainWork ∧ find.header = plainWork.headerWords :=
    of_decide_eq_true (List.all_eq_true.mp mined find h)
  obtain ⟨find, hturn, hunder⟩ := claim _ _ _ _ _ _ _ _ _ _ rfl rfl mines run unprepared
    different fun find h ↦ ⟨plainWork, each find h⟩
  have hfirst := (each find (List.mem_of_getElem? hturn)).1
  rw [hunder, hwork] at hfirst
  exact absurd hfirst (by decide)

end HashBoard
