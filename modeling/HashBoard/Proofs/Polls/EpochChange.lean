import HashBoard.Proofs.Epoch.Brief
import HashBoard.Proofs.Polls.Wait
import HashBoard.Proofs.Scene.Rehearsal
import HashBoard.Proofs.Stall.Detection

/-!
# The waits of an epoch change

An epoch change waits twice: until the light cache is derived, and until the dataset is generated.
The second wait begins with a look right after the start and is left out where the settings say so.
Both stop at the first look that shows the end and always stop (`stopsPolling`), with one exception
to the first: where faults are fatal, a look that fails ends the wait before.
-/

namespace HashBoard

namespace Polls

open Board Routine

variable {ν : Type} {b : Board} {ctx : EpochContext}

/-- The range of the first mixer, which the progress is measured against. -/
def firstRange (b : Board) (ctx : EpochContext) : ℕ :=
  match b.mixerRanges ctx with
  | (start, stop) :: _ => stop - start
  | [] => 0

/-- The account of a wait with at most `limit` looks, each after some pause: the outcomes of its
looks, what was asked and answered, and what it ended with. -/
structure Stops (b : Board) (a : Awaited ν) (pause : Micros) (range limit : ℕ)
    (polls : List Outcome) (talk : List (Answered ν)) (result : Except BoardError Unit) :
    Prop where
  /-- Every look comes after a pause, and after every fifth the progress is read. -/
  paced : ∃ (made : ℕ → Outcome) (last : List (Answered ν)),
    talk = (polls.mapIdx fun i x ↦ lap b a pause range (i + 1) x (made i)).flatten ++ last ∧
    (last = [] ∨ ∃ seen, last = [⟨.isCancelled, seen⟩])
  bounded : polls.length ≤ limit
  /-- Where faults are absorbed, the first look that shows the end is the last one, and the wait
  ends well even without one. -/
  absorbs : b.settings.dieOnError = false → ⟨.isCancelled, true⟩ ∉ talk →
    result = .ok () ∧ ∀ outcomes, Follows polls outcomes →
      (polls.length : ℕ∞) = min (first (Shows a) outcomes) limit
  /-- Where faults are fatal, so is a look that fails. -/
  fatal : b.settings.dieOnError = true → ⟨.isCancelled, true⟩ ∉ talk →
    Fate a polls result ∧ ∀ outcomes, Follows polls outcomes →
      (polls.length : ℕ∞) = min (first (fun x ↦ Shows a x ∨ Fails x) outcomes) limit
  /-- A shutdown that is seen ends the wait there. -/
  cancels : ⟨.isCancelled, true⟩ ∈ talk →
    result = .error .cancelled ∧ talk.getLast? = some ⟨.isCancelled, true⟩

theorem Waited.stops {a : Awaited ν} {range limit : ℕ} {polls : List Outcome}
    {talk : List (Answered ν)} {result : Except BoardError Unit}
    (h : Waited b a range 0 limit polls talk result) :
    Stops b a a.pause range limit polls talk result where
  paced := by
    obtain ⟨made, last, htalk, hlast⟩ := h.paced
    simp only [Nat.zero_add] at htalk
    exact ⟨made, last, htalk, hlast⟩
  bounded := h.length_le
  absorbs habsorbs unseen := by
    refine ⟨h.absorbs habsorbs unseen, fun outcomes follows ↦ ?_⟩
    simpa [habsorbs] using h.length_eq unseen follows
  fatal hfatal unseen := by
    refine ⟨h.fate hfatal unseen, fun outcomes follows ↦ ?_⟩
    simpa [hfatal] using h.length_eq unseen follows
  cancels := h.cancels

/-- The outcomes are what the register was read to be. -/
theorem Stops.mem_of_mem_polls {a : Awaited ν} {pause : Micros} {range limit : ℕ}
    {polls : List Outcome} {talk : List (Answered ν)} {result : Except BoardError Unit}
    (h : Stops b a pause range limit polls talk result) {x : Outcome} (hx : x ∈ polls) :
    ⟨.call (.read a.addr), x⟩ ∈ talk := by
  obtain ⟨made, last, rfl, -⟩ := h.paced
  obtain ⟨i, hi, rfl⟩ := List.mem_iff_getElem.mp hx
  refine List.mem_append_left _ (List.mem_flatten.mpr ⟨_, List.mem_mapIdx.mpr ⟨i, hi, rfl⟩, ?_⟩)
  refine List.mem_append_left _ ?_
  simp [poll]

/-- What holds of the two waits of an epoch change. Whoever answers, both come to an end. -/
structure StopsPolling (ν : Type) (b : Board) (ctx : EpochContext) (parents : Word) : Prop where
  cacheEnds : ∀ reply : Answering ν, ∃ talk result,
    Run (b.deriveCache ctx parents) talk result ∧ reply.Gives [] talk
  dagEnds : ∀ reply : Answering ν, ∃ talk result,
    Run (b.generate ctx) talk result ∧ reply.Gives [] talk
  /-- The light cache is looked for at most 600 times, a tenth of a second apart. -/
  cache : ∀ (talk : List (Answered ν)) (result : Except BoardError Unit),
    Run (b.deriveCache ctx parents) talk result →
    ∃ polls, Stops b cacheAwaited 100_000 0 600 polls (waits talk) result
  /-- The generator is looked at once right after the start, and waited for with at most 1800 more
  looks, a second apart, unless that one shows the end or the settings say not to. -/
  dag : ∀ (talk : List (Answered ν)) (result : Except BoardError Unit),
    Run (b.generate ctx) talk result →
    ∃ x rest, waits talk = ⟨.call (.read Reg.dagControl), x⟩ :: rest ∧
      if b.settings.skipDagWait ∨ Shows (dagAwaited : Awaited ν) x then rest = [] ∧ result = .ok ()
      else ∃ polls, Stops b dagAwaited 1_000_000 (firstRange b ctx) 1800 polls rest result

/-! ## The parts of an epoch change that wait -/

theorem only_tryWrite_waiting (value addr : Word) (what : String) :
    (tryWrite value addr what).Only fun r : Request ν ↦ r.isWaiting = false := by
  refine ⟨rfl, fun _ ↦ ⟨rfl, fun x ↦ ?_⟩⟩
  cases x with
  | ok => trivial
  | error fault => exact only_request rfl

theorem ensures_awaitCache (started : Micros) :
    (awaitCache b started).Ensures (sifting (ν := ν) Request.isWaiting) (fun result t ↦
      ∃ polls, Waited b cacheAwaited 0 0 cachePolls polls t result) [] := by
  refine ensures_aside (only_tryWrite_waiting _ _ _) fun _ ↦ ?_
  have unwatched (k n : ℕ) (s : List (Answered ν)) (_ : k + 1 + n = cachePolls) :
      (Routine.done ()).Ensures (sifting Request.isWaiting)
        (fun _ t ↦ ∃ made, t = s ++ progress 0 (k + 1) made) s := by
    refine ⟨.ok 0, ?_⟩
    rw [progress, if_neg fun h ↦ h.2.false, List.append_nil]
  refine (ensures_await unwatched (Nat.zero_add _) UInt32.zero_and []).seq ?_
  rintro result _ ⟨polls, talk, rfl, waited⟩
  cases result with
  | error e => exact ⟨polls, waited⟩
  | ok status =>
    refine ensures_beside rfl fun _ ↦ ensures_beside rfl fun _ ↦ ?_
    exact ⟨polls, waited⟩

theorem ensures_deriveCache (parents : Word) :
    (b.deriveCache ctx parents).Ensures (sifting (ν := ν) Request.isWaiting) (fun result t ↦
      ∃ polls, Waited b cacheAwaited 0 0 cachePolls polls t result) [] := by
  refine ensures_beside rfl fun _ ↦ ensures_beside rfl fun started ↦ ?_
  refine ensures_aside (only_tryWrite_waiting _ _ _) fun _ ↦ ?_
  refine ensures_aside (only_tryWrite_waiting _ _ _) fun _ ↦ ?_
  refine ensures_beside rfl fun x ↦ ?_
  cases x with
  | ok => exact ensures_awaitCache started
  | error fault => exact ensures_beside rfl fun _ ↦ ensures_awaitCache started

/-- The progress is read after every fifth look, if there is something to measure it against. -/
theorem ensures_mentionProgress {range k n : ℕ} (hk : k + 1 + n = dagPolls)
    (s : List (Answered ν)) :
    (mentionProgress range n).Ensures (sifting Request.isWaiting)
      (fun _ t ↦ ∃ made, t = s ++ progress range (k + 1) made) s := by
  have hcount : dagPolls - n = k + 1 := by omega
  rw [mentionProgress, hcount]
  have hfifth : looksPerMention = 5 := rfl
  rw [hfifth]
  by_cases hdue : (k + 1) % 5 = 0 ∧ 0 < range
  · rw [if_pos hdue]
    simp only [progress, if_pos hdue]
    refine ensures_look rfl fun made ↦ ?_
    cases made with
    | ok made =>
      refine ensures_aside ⟨rfl, fun _ ↦ trivial⟩ fun _ ↦ ?_
      exact ensures_last ⟨rfl, fun _ ↦ trivial⟩ fun _ ↦ ⟨.ok made, rfl⟩
    | error fault =>
      refine ensures_aside ⟨rfl, fun _ ↦ trivial⟩ fun _ ↦ ?_
      exact ensures_last ⟨rfl, fun _ ↦ trivial⟩ fun _ ↦ ⟨.error fault, rfl⟩
  · rw [if_neg hdue]
    simp only [progress, if_neg hdue]
    exact ⟨.ok 0, (List.append_nil s).symm⟩

/-- The generator is looked at right after its start; a look that fails does not show the end. -/
theorem ensures_firstStatus (s : List (Answered ν)) :
    firstStatus.Ensures (sifting Request.isWaiting) (fun status t ↦
      ∃ x : Outcome, t = s ++ [⟨.call (.read Reg.dagControl), x⟩] ∧
        (Shows (dagAwaited : Awaited ν) x ↔ status &&& Reg.dagDone ≠ 0)) s := by
  refine ensures_look_read rfl (fun _ ↦ rfl) fun x ↦ ?_
  cases x with
  | ok v =>
    refine ⟨.ok v, rfl, ?_, fun hready ↦ ⟨v, rfl, hready⟩⟩
    rintro ⟨_, h, hready⟩
    rwa [Except.ok.inj h]
  | error fault =>
    refine ensures_aside ⟨rfl, fun _ ↦ trivial⟩ fun _ ↦ ⟨.error fault, rfl, ?_, fun hready ↦ ?_⟩
    · rintro ⟨_, h, -⟩
      cases h
    · exact absurd UInt32.zero_and hready

/-- The generator is waited for unless its status shows the end or the settings say not to. -/
theorem ensures_awaitDag (range : ℕ) (status : Word) (s : List (Answered ν)) :
    (b.awaitDag range status).Ensures (sifting Request.isWaiting) (fun result t ↦
      ∃ rest, t = s ++ rest ∧
        if b.settings.skipDagWait ∨ status &&& Reg.dagDone ≠ 0 then
          rest = [] ∧ result.map (fun _ ↦ ()) = .ok ()
        else ∃ polls,
          Waited b dagAwaited range 0 dagPolls polls rest (result.map fun _ ↦ ())) s := by
  rw [awaitDag]
  by_cases hskip : b.settings.skipDagWait
  · rw [if_pos hskip]
    refine ensures_beside rfl fun _ ↦ ?_
    exact ⟨[], (List.append_nil s).symm, (if_pos (.inl hskip)).mpr ⟨rfl, rfl⟩⟩
  · rw [if_neg hskip]
    by_cases hready : status &&& Reg.dagDone = 0
    · have hwaits : ¬(b.settings.skipDagWait = true ∨ status &&& Reg.dagDone ≠ 0) :=
        fun h ↦ h.elim hskip (not_not_intro hready)
      simp only [if_neg hwaits]
      refine (ensures_await (fun _ _ s hk ↦ ensures_mentionProgress hk s) (Nat.zero_add _)
        hready s).mono ?_
      rintro result _ ⟨polls, rest, rfl, waited⟩
      exact ⟨rest, rfl, polls, waited⟩
    · rw [await_of_ready hready]
      exact ⟨[], (List.append_nil s).symm, (if_pos (.inr hready)).mpr ⟨rfl, rfl⟩⟩

theorem ensures_generate :
    (b.generate ctx).Ensures (sifting (ν := ν) Request.isWaiting) (fun result t ↦
      ∃ x rest, t = ⟨.call (.read Reg.dagControl), x⟩ :: rest ∧
        if b.settings.skipDagWait ∨ Shows (dagAwaited : Awaited ν) x then
          rest = [] ∧ result = .ok ()
        else ∃ polls,
          Waited b dagAwaited (firstRange b ctx) 0 dagPolls polls rest result) [] := by
  refine ensures_aside ⟨rfl, fun _ ↦ only_request rfl⟩ fun _ ↦ ?_
  refine ensures_beside rfl fun _ ↦ ensures_beside rfl fun started ↦ ?_
  refine ensures_aside (only_tryWrite_waiting _ _ _) fun _ ↦ ?_
  refine (ensures_firstStatus []).seq ?_
  rintro status _ ⟨x, rfl, hshows⟩
  refine (ensures_awaitDag (firstRange b ctx) status _).seq ?_
  rintro result _ ⟨rest, rfl, hrest⟩
  simp only [← hshows] at hrest
  cases result with
  | error e => exact ⟨x, rest, rfl, hrest⟩
  | ok status =>
    refine ensures_beside rfl fun _ ↦ ensures_beside rfl fun _ ↦ ?_
    exact ⟨x, rest, rfl, hrest⟩

end Polls

open Routine Polls

/-! ## Main statement -/

/-- **Waits stop at the first look that shows the end, and always stop.** The light cache is looked
for at most 600 times, a tenth of a second apart, and the generator at most 1800 times, a second
apart, after the look right at its start. -/
theorem stopsPolling {ν : Type} (b : Board) (ctx : EpochContext) (parents : Word) :
    StopsPolling ν b ctx parents where
  cacheEnds reply := (Board.brief_deriveCache ctx parents).exists_run reply []
  dagEnds reply := (Board.brief_generate ctx).exists_run reply []
  cache talk result run := by
    obtain ⟨polls, waited⟩ := (ensures_deriveCache parents).of_sifted_run run
    exact ⟨polls, waited.stops⟩
  dag talk result run := by
    obtain ⟨x, rest, htalk, hrest⟩ := ensures_generate.of_sifted_run run
    refine ⟨x, rest, htalk, ?_⟩
    by_cases hover : b.settings.skipDagWait ∨ Shows (Board.dagAwaited : Board.Awaited ν) x
    · rw [if_pos hover] at hrest ⊢
      exact hrest
    · rw [if_neg hover] at hrest ⊢
      obtain ⟨polls, waited⟩ := hrest
      exact ⟨polls, waited.stops⟩

/-! ### A board that never tells anything -/

namespace Polls

/-- Somebody for whom every read times out, and nothing else goes wrong. -/
def untold : Answering Rat := fun s r ↦
  match r with
  | .call (.read _) => .error .timeout
  | r => Stall.unmoved s r

/-- If nothing can be read there are as many looks as there may be. -/
theorem Stops.eq_replicate {b : Board} {a : Board.Awaited Rat} {pause : Micros} {range limit : ℕ}
    {polls : List Outcome} {talk : List (Answered Rat)} {result : Except BoardError Unit}
    (stops : Stops b a pause range limit polls talk result)
    (absorbs : b.settings.dieOnError = false)
    (told : ∀ said ∈ talk, ∃ s, said.reply = untold s said.request) :
    polls = List.replicate limit (.error .timeout) ∧ result = .ok () := by
  have unseen : ⟨.isCancelled, true⟩ ∉ talk := fun seen ↦ by
    obtain ⟨_, h⟩ := told _ seen
    cases h
  have failed (x : Outcome) (hx : x ∈ polls) : x = .error .timeout := by
    obtain ⟨_, h⟩ := told _ (stops.mem_of_mem_polls hx)
    exact h
  obtain ⟨hresult, hcount⟩ := stops.absorbs absorbs unseen
  have hlength := hcount (fun _ ↦ .error .timeout)
    fun i x hx ↦ (failed x (List.mem_of_getElem? hx)).symm
  have never : first (Shows a) (fun _ ↦ .error .timeout) = ⊤ :=
    iInf₂_eq_top.mpr fun _ ⟨_, h, _⟩ ↦ nomatch h
  rw [never, min_eq_right le_top] at hlength
  exact ⟨List.eq_replicate_iff.mpr ⟨Nat.cast_injective hlength, failed⟩, hresult⟩

end Polls

/-- Both waits are given up after the last look. -/
theorem stopsPolling_untold :
    (∃ talk, Run (plainBoard.deriveCache plainEpoch 16) talk (.ok ()) ∧
      Stops plainBoard (Board.cacheAwaited : Board.Awaited Rat) 100_000 0 600
        (List.replicate 600 (.error .timeout)) (waits talk) (.ok ())) ∧
    ∃ talk rest, Run (plainBoard.generate plainEpoch) talk (.ok ()) ∧
      waits talk = ⟨.call (.read Reg.dagControl), .error .timeout⟩ :: rest ∧
      Stops plainBoard (Board.dagAwaited : Board.Awaited Rat) 1_000_000 64 1800
        (List.replicate 1800 (.error .timeout)) rest (.ok ()) := by
  have exact := stopsPolling (ν := Rat) plainBoard plainEpoch 16
  constructor
  · obtain ⟨talk, result, run, gives⟩ := exact.cacheEnds untold
    obtain ⟨polls, stops⟩ := exact.cache talk result run
    obtain ⟨rfl, rfl⟩ := stops.eq_replicate rfl
      fun _ hs ↦ gives.reply_eq (List.mem_of_mem_filter hs)
    exact ⟨talk, run, stops⟩
  · obtain ⟨talk, result, run, gives⟩ := exact.dagEnds untold
    have told (said : Answered Rat) (hs : said ∈ waits talk) :
        ∃ s, said.reply = untold s said.request := gives.reply_eq (List.mem_of_mem_filter hs)
    obtain ⟨x, rest, htalk, hrest⟩ := exact.dag talk result run
    obtain rfl : x = .error .timeout := (told ⟨_, x⟩ (htalk ▸ .head _)).elim fun _ h ↦ h
    rw [if_neg (by decide)] at hrest
    obtain ⟨polls, stops⟩ := hrest
    obtain ⟨rfl, rfl⟩ := stops.eq_replicate rfl fun said hs ↦ told said (htalk ▸ .tail _ hs)
    exact ⟨talk, rest, run, htalk, stops⟩

end HashBoard
