import HashBoard.Proofs.Finds.Yields
import HashBoard.Proofs.Scene.Rehearsal

/-!
# Each nonce once

A round of a search hands over what it found, once and in order, and adds the number of it to the
number of solutions that onlookers are told. Outside the rounds nothing is handed over, and nobody
but the owner hands over anything. So every nonce that a search finds becomes one solution
(`handed_over_once`).
-/

namespace HashBoard

open Routine

variable {ν : Type}

/-! ## Rounds -/

section Rounds

variable [Quantity ν] {b : Board} {work : Work} {r : Board.Round} {round : List (Answered ν)}

/-- The nonces that were found in a round of a search. -/
def Board.foundIn (b : Board) (round : List (Answered ν)) : List UInt64 :=
  match b.settings.nonceReporting with
  | .interrupt => takenNonces round
  | .polled => slotNonces round

/-- A round hands over what it found. -/
structure HandsOver (b : Board) (work : Work) (round : List (Answered ν)) : Prop where
  nonces : (handedOver round).map (·.nonce) = b.foundIn round
  origin : Finds.From b work (handedOver round)
  clears : b.settings.nonceReporting = .polled →
    clears round = if b.foundIn round = [] then 0 else 1

namespace Finds

omit [Quantity ν] in
/-- A round that yields the solutions for some nonces found just these. -/
theorem handsOver_of_yields {taken nonces : List UInt64} {solutions : List Solution} {n : Nat}
    (yields : Yields taken solutions n round) (hnonces : solutions.map (·.nonce) = nonces)
    (hfrom : From b work solutions)
    (interrupts : b.settings.nonceReporting = .interrupt → taken = nonces)
    (polls : b.settings.nonceReporting = .polled →
      slotNonces round = nonces ∧ clears round = if nonces = [] then 0 else 1) :
    HandsOver b work round := by
  have hfound : b.foundIn round = nonces := by
    rw [Board.foundIn]
    split
    · rename_i hinterrupt
      rw [yields.taken, interrupts hinterrupt]
    · rename_i hpolled
      exact (polls hpolled).1
  refine ⟨?_, yields.handed ▸ hfrom, fun hpolled ↦ ?_⟩
  · rw [yields.handed, hnonces, hfound]
  · rw [hfound]
    exact (polls hpolled).2

/-- What is asked at the head of a round. -/
def AtHead (r : Request ν) : Prop := r = .memory ∨ r = .isCancelled

omit [Quantity ν] in
/-- The head of a round yields nothing, and has to do with no slots. -/
theorem yields_head {head : List (Answered ν)} (h : ∀ said ∈ head, AtHead said.request) :
    Yields [] [] 0 head ∧ (∀ said ∈ head, ∀ addr, said.request ≠ .call (.read addr)) ∧
      clears head = 0 := by
  refine ⟨yields_nothing fun said hs ↦ ?_, fun said hs addr ↦ ?_, clears_eq_zero fun said hs ↦ ?_⟩
  · rcases h said hs with heq | heq <;> rw [heq]
    · exact still_of_isQuiet rfl
    · exact still_isCancelled
  · rcases h said hs with heq | heq <;> rw [heq] <;> nofun
  · rcases h said hs with heq | heq <;> rw [heq] <;> nofun

omit [Quantity ν] in
/-- A round that ends at its head finds nothing and hands nothing over. -/
theorem handsOver_of_head (h : ∀ said ∈ round, AtHead said.request) :
    HandsOver b work round ∧ AddsUp round (handedOver round).length := by
  obtain ⟨yields, blind, hclears⟩ := yields_head h
  refine ⟨handsOver_of_yields yields rfl (List.forall_mem_nil _) (fun _ ↦ rfl) fun _ ↦
    ⟨slotNonces_eq_nil blind, hclears⟩, ?_⟩
  rw [yields.handed]
  exact yields.adds

/-- A round that gathers nonces and finishes with them hands them over. -/
theorem handsOver_of_finish {head gathering : List (Answered ν)} {nonces : List UInt64}
    (h : ∀ said ∈ head, AtHead said.request) (hgather : Run b.gatherNonces gathering (.ok nonces))
    (f : Board.Finish b work r nonces) :
    HandsOver b work (head ++ (gathering ++ f.said)) ∧
      AddsUp (head ++ (gathering ++ f.said))
        (handedOver (head ++ (gathering ++ f.said))).length := by
  obtain ⟨hhead, blind, hclears⟩ := yields_head h
  obtain ⟨hhanded, hadds⟩ := handedOver_of_run_gatherNonces hgather
  obtain ⟨solutions, hfinish, hnonces, hfrom⟩ := yields_finish f
  have yields := hhead.append ((⟨rfl, hhanded, hadds⟩ : Yields _ [] 0 gathering).append hfinish)
  simp only [List.nil_append, List.append_nil, Nat.zero_add] at yields
  refine ⟨handsOver_of_yields yields hnonces hfrom (fun interrupts ↦ ?_) fun polls ↦ ?_, ?_⟩
  · exact takenNonces_of_run_gatherNonces interrupts hgather
  · obtain ⟨nonces', hok, hslots, hempties⟩ :=
      slotNonces_of_run_gatherNonces polls hgather f.said
    obtain rfl := Except.ok.inj hok
    have room : Board.RoomToFinish
        (fun r : Request ν ↦ r ≠ .call (.write Reg.coreClearNonces Reg.coreEnable)) work :=
      { quiet := fun r hr heq ↦ by rw [heq] at hr; cases hr
        books := fun _ _ ↦ nofun
        halt := nofun
        coreFlags := fun _ heq ↦ by cases heq
        coreOff := fun heq ↦ by cases heq
        powerOff := nofun
        stall := nofun
        checks := fun _ _ ↦ nofun
        tunes := fun _ ↦ nofun
        averages := fun _ _ ↦ nofun
        submits := fun _ _ ↦ nofun }
    rw [slotNonces_append blind, ← hslots, clears_append, clears_append, hclears, hempties,
      clears_eq_zero (f.forall room), Nat.zero_add, Nat.add_zero]
    exact ⟨rfl, rfl⟩
  · rw [yields.handed, ← List.length_map (·.nonce), hnonces]
    exact yields.adds

/-- Every round hands over what it found, and adds the number of it. -/
theorem handsOver_of_run {x : Board.Round ⊕ Except BoardError SearchExit}
    (run : Run (b.searchRound work r) round x) :
    HandsOver b work round ∧ AddsUp round (handedOver round).length := by
  cases Board.roundCourse_of_run run with
  | newWork => exact handsOver_of_head (by simp [AtHead])
  | shutdown => exact handsOver_of_head (by simp [AtHead])
  | @failed m gathering e hwork hgather =>
    have head : ∀ said ∈ [(⟨.memory, m⟩ : Answered ν), ⟨.isCancelled, false⟩],
        AtHead said.request := by simp [AtHead]
    have hhead := (yields_head head).1
    obtain ⟨hhanded, hadds⟩ := handedOver_of_run_gatherNonces hgather
    have yields := hhead.append (⟨rfl, hhanded, hadds⟩ : Yields _ [] 0 gathering)
    refine ⟨handsOver_of_yields yields rfl (List.forall_mem_nil _) (fun interrupts ↦ ?_)
      fun polls ↦ ?_, ?_⟩
    · exact takenNonces_of_run_gatherNonces interrupts hgather
    · obtain ⟨_, hok, -⟩ := slotNonces_of_run_gatherNonces polls hgather []
      cases hok
    · exact yields.handed ▸ yields.adds
  | @finished m gathering nonces x f hwork hgather hx =>
    have head : ∀ said ∈ [(⟨.memory, m⟩ : Answered ν), ⟨.isCancelled, false⟩],
        AtHead said.request := by simp [AtHead]
    exact handsOver_of_finish head hgather f

end Finds

end Rounds

/-! ## The whole search -/

section Search

variable [Quantity ν] {b : Board} {work : Work}

omit [Quantity ν] in
/-- Some rounds hand over what they found, and add the number of it. -/
theorem Finds.addsUp_flatten {rounds : List (List (Answered ν))}
    (h : ∀ round ∈ rounds, AddsUp round (handedOver round).length) :
    AddsUp rounds.flatten (handedOver rounds.flatten).length := by
  induction rounds with
  | nil => exact .nil
  | cons round rounds ih =>
    obtain ⟨hround, hrounds⟩ := List.forall_mem_cons.mp h
    rw [List.flatten_cons, handedOver_append, List.length_append]
    exact addsUp_append hround (ih hrounds)

/-- The number of solutions grows by what the owner adds, whatever others do. -/
theorem Scene.Runs.solutions_eq {R : Repertoire ν} {s₀ s : Scene R}
    {before since : List (Occurrence R)} {n : Nat} (run : Scene.Runs s₀ (before ++ since) s)
    (orderly : s₀.Orderly) (within : ∀ e ∈ since, e.IsWithin) (adds : AddsUp (ownTalk since) n) :
    s.shared.memory.status.solutions =
      (s₀.shared.afterAll before).memory.status.solutions + n := by
  induction since using List.reverseRecOn generalizing s n with
  | nil =>
    cases adds
    rw [List.append_nil] at run
    rw [run.shared_eq]
    rfl
  | append_singleton since e ih =>
    rw [← List.append_assoc] at run
    obtain ⟨t, upTo, last⟩ := run.of_snoc
    have earlier {n : Nat} := ih (n := n) upTo fun e' h ↦ within e' (List.mem_append_left _ h)
    have hwithin := within e (List.mem_append_right _ (.head _))
    by_cases he : e.IsOthers
    · rw [ownTalk_snoc_others since he] at adds
      exact (last.follows (upTo.orderly orderly) he).status.solutions.trans (earlier adds)
    · cases e with
      | begins | ends => exact hwithin.elim
      | arrives => exact absurd trivial he
      | talks party said =>
        obtain rfl : party = .owner := not_not.mp he
        rw [ownTalk_snoc_own] at adds
        obtain ⟨i, j, hsince, hsaid, rfl⟩ := Finds.addsUp_snoc adds
        rw [last.shared_eq, Shared.upon, Shared.memory_after, hsaid, earlier hsince,
          Nat.add_assoc]

/-- What comes of a search that ended: what was found in each of its rounds is handed over there,
and nothing else is. -/
structure Harvest (b : Board) (work : Work) (since : List (Occurrence (b.errands (ν := ν))))
    (rounds : List (List (Answered ν))) (a : Except BoardError SearchExit) : Prop where
  course : ∃ opening closing, ownTalk since = opening ++ (rounds.flatten ++ closing) ∧
    Board.Course b work opening rounds closing a
  hands : ∀ round ∈ rounds, HandsOver b work round
  all : handedOver (talkOf since) = (rounds.map handedOver).flatten
  taken : b.settings.nonceReporting = .interrupt →
    (handedOver (talkOf since)).map (·.nonce) = takenNonces (talkOf since)

/-- **Every nonce becomes one solution.** Whatever guests do meanwhile, a search that ended handed
over what was found in each of its rounds, in order, and the number of solutions that onlookers are
told grew by the number of them. -/
theorem handed_over_once {memory : Memory ν} {feed : Feed}
    {es : List (Occurrence (b.errands (ν := ν)))} {a : Except BoardError SearchExit}
    {s : Scene (b.errands (ν := ν))}
    (run : Scene.Runs (.quiet memory feed) (es ++ [.ends (.search work) a]) s) :
    ∃ before since rounds, es = before ++ .begins (.search work) :: since ∧
      (∀ e ∈ since, e.IsWithin) ∧ Harvest b work since rounds a ∧
      s.shared.memory.status.solutions =
        (Shared.afterAll { memory, feed } before).memory.status.solutions +
          (handedOver (talkOf since)).length := by
  have orderly := Scene.orderly_quiet (R := b.errands) memory feed
  obtain ⟨t, upTo, last⟩ := run.of_snoc
  obtain ⟨before, since, rfl, within, hrun⟩ := run.run_of_ends rfl
  rw [List.append_cons] at upTo
  obtain ⟨opening, rounds, closing, htalk, course⟩ := Board.exists_course hrun
  obtain ⟨hopening, hclosing⟩ := course.outside Finds.roomToRun_still
  have hrounds : ∀ round ∈ rounds,
      HandsOver b work round ∧ AddsUp round (handedOver round).length := by
    intro round hround
    obtain ⟨r, x, hx⟩ := course.exists_round round hround
    exact Finds.handsOver_of_run hx
  -- outside its rounds the search yields nothing, and bystanders yield nothing at all
  have yields : Finds.Yields (takenNonces rounds.flatten) (handedOver rounds.flatten)
      (handedOver rounds.flatten).length (ownTalk since) := by
    have hall := (Finds.yields_nothing hopening).append
      ((⟨rfl, rfl, Finds.addsUp_flatten fun round h ↦ (hrounds round h).2⟩ :
        Finds.Yields _ _ _ rounds.flatten).append (Finds.yields_nothing hclosing))
    simp only [List.nil_append, List.append_nil, Nat.zero_add, Nat.add_zero] at hall
    exact htalk ▸ hall
  have hhanded : handedOver (talkOf since) = handedOver rounds.flatten :=
    (upTo.filterMap_talkOf orderly fun _ h ↦ (Finds.aside_of_modest h).handed?_eq).trans
      yields.handed
  have htaken : takenNonces (talkOf since) = takenNonces rounds.flatten :=
    (upTo.filterMap_talkOf orderly fun _ h ↦ (Finds.aside_of_modest h).taken?_eq).trans
      yields.taken
  have hflatten : handedOver rounds.flatten = (rounds.map handedOver).flatten :=
    List.filterMap_flatten
  refine ⟨before, since, rounds, rfl, within, ⟨⟨opening, closing, htalk, course⟩,
    fun round h ↦ (hrounds round h).1, hhanded.trans hflatten, fun interrupts ↦ ?_⟩, ?_⟩
  · have each : ∀ round ∈ rounds,
        ((fun solutions ↦ solutions.map (·.nonce)) ∘ handedOver) round = takenNonces round := by
      intro round h
      have hnonces := (hrounds round h).1.nonces
      rw [Board.foundIn, interrupts] at hnonces
      exact hnonces
    rw [hhanded, htaken, hflatten, List.map_flatten, List.map_map, List.map_congr_left each]
    exact List.filterMap_flatten.symm
  · have hcount := upTo.solutions_eq orderly within yields.adds
    have hsame : s.shared = t.shared := last.shared_eq
    rw [hsame, hcount, hhanded, Shared.afterAll_snoc]
    rfl

end Search

/-! ### A board that keeps nonces in slots -/

namespace Finds

/-- A board that is asked for its nonces. -/
def polledBoard : Board := { plainBoard with settings := { nonceReporting := .polled } }

/-- A board whose core does not move, with nonces in its first and its third slot. -/
def slottedBoard : SimulatedBoard :=
  { SimulatedBoard.healthy with
    registers :=
      (Reg.polledNonceHi 0, 1) :: (Reg.polledNonceLo 0, 2) :: (Reg.polledNonceLo 2, 7) ::
        SimulatedBoard.healthy.registers
    scripts := [(Reg.coreEnable, [Reg.polledReady 0 ||| Reg.polledReady 2])]
    steps := [] }

/-- It is searched until it is found standing still. -/
def polledSearch : Rehearsal (polledBoard.errands (ν := Rat)) :=
  .rehearse (.start 0 false) {} slottedBoard [.begins (.search plainWork), .goes .owner 300]

def endsStalled : Occurrence (polledBoard.errands (ν := Rat)) → Bool
  | .ends (.search work) (.ok .stalled) => work = plainWork
  | _ => false

theorem stalled_of_endsStalled {e : Occurrence (polledBoard.errands (ν := Rat))}
    (h : endsStalled e) : e = .ends (.search plainWork) (.ok .stalled) := by
  unfold endsStalled at h
  split at h
  · rw [of_decide_eq_true h]
  · cases h

end Finds

/-- Both nonces become solutions, although the search ends because the core stands still. -/
theorem handed_over_of_slots :
    ∃ (since : List (Occurrence (Finds.polledBoard.errands (ν := Rat))))
      (rounds : List (List (Answered Rat))),
      Harvest Finds.polledBoard plainWork since rounds (.ok .stalled) ∧
        (handedOver (talkOf since)).map (·.nonce) = [0x1_0000_0002, 7] ∧
        Finds.polledSearch.scene.shared.memory.status.solutions = 2 := by
  have ends : Finds.polledSearch.lastPasses Finds.endsStalled := by decide +kernel
  have single : Rehearsal.isSingleJob Finds.polledSearch.before := by decide +kernel
  have nonces : (handedOver (talkOf Finds.polledSearch.before)).map (·.nonce) =
      [0x1_0000_0002, 7] := by decide +kernel
  obtain ⟨e, htest, hlast⟩ := Rehearsal.occurrences_of_lastPasses ends
  obtain rfl := Finds.stalled_of_endsStalled htest
  have run : Scene.Runs (.quiet (.start 0 false) {}) Finds.polledSearch.occurrences
      Finds.polledSearch.scene := Rehearsal.rehearse_runs ..
  rw [hlast] at run
  obtain ⟨before, since, rounds, hes, -, harvest, hcount⟩ := handed_over_once run
  rw [hes] at single nonces
  obtain rfl := Rehearsal.eq_nil_of_isSingleJob single
  have hsolutions : (handedOver (talkOf since)).length = 2 := by
    rw [← List.length_map (·.nonce)]
    exact congrArg List.length nonces
  rw [hsolutions] at hcount
  exact ⟨since, rounds, harvest, nonces, hcount⟩

end HashBoard
