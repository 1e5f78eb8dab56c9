import HashBoard.Proofs.Board.Arrival
import HashBoard.Proofs.Halt.Telemetry
import HashBoard.Proofs.Scene.Rehearsal
import HashBoard.Proofs.Search.Programmed

/-!
# What a search leaves alone

A search writes the registers of its work and of its pacing, and the switch of the core. Beyond that
it only ever powers the generator down, and only in a round in which a telemetry sample read a
health word that tells of a fault. So the dataset and what was programmed for it, the clock and the
regulators are left as they are, and so is what is remembered of them.

What may be asked depends on what was said before, so the statement is a guard on the transcript.
Every part of a search keeps within the registers of a search, whatever was said before, but for the
sample of a round; there the guard is followed from the health word to the power of the generator.
-/

namespace HashBoard

variable {ν : Type}

/-- The registers that are set up outside of searches: the item count with its reciprocal, the word
that says whose the dataset is, the ranges of the mixers, the clock, and the regulators. -/
def Reg.isStanding (addr : Word) : Prop :=
  addr ∈ Reg.itemCount :: Reg.itemReciprocal :: Reg.dagStatus ::
      (Reg.clockGenerator ++ Reg.regulators) ∨
    Reg.isRange addr

instance : DecidablePred Reg.isStanding := fun _ ↦ inferInstanceAs (Decidable (_ ∨ _))

/-- Puts something into the memory of the board. -/
def Request.isCopy : Request ν → Bool
  | .call (.upload ..) | .call (.move ..) => true
  | _ => false

/-- What is remembered of the set-up of the board is the same. -/
structure Memory.SameSetUp (m m' : Memory ν) : Prop where
  lastEpoch : m'.lastEpoch = m.lastEpoch
  baseline : m'.clock.baseline = m.clock.baseline
  target : m'.clock.target = m.clock.target
  autoTune : m'.autoTune = m.autoTune

theorem Memory.SameSetUp.refl (m : Memory ν) : m.SameSetUp m := ⟨rfl, rfl, rfl, rfl⟩

/-- A health word that tells of a fault was read, and there was no look for a shutdown since then,
which is what every round of a search begins with. -/
def ReadsFault (talk : List (Answered ν)) : Prop :=
  ∃ earlier raw since, talk = earlier ++ ⟨.call (.read Reg.stackHealth), .ok raw⟩ :: since ∧
    IsFaulty (.ok raw) ∧ ∀ said ∈ since, said.request ≠ .isCancelled

theorem ReadsFault.snoc {talk : List (Answered ν)} {r : Request ν} (h : ReadsFault talk)
    (x : Reply r) (hr : r ≠ .isCancelled) : ReadsFault (talk ++ [⟨r, x⟩]) := by
  obtain ⟨earlier, raw, since, rfl, faulty, unlooked⟩ := h
  refine ⟨earlier, raw, since ++ [⟨r, x⟩], ?_, faulty, ?_⟩
  · rw [List.append_assoc, List.cons_append]
  · exact List.forall_mem_append.mpr ⟨unlooked, List.forall_mem_singleton.mpr hr⟩

namespace Footprint

open Routine Board

/-- Powers the generator down. -/
def powerOff : Request ν := .call (.write Reg.dagPowerOff Reg.dagPower)

/-- A request that writes no register but those that programming some work writes, copies nothing,
and leaves alone what is remembered of the set-up. -/
structure Bounded (r : Request ν) : Prop where
  writes : ∀ addr, (r.puts addr).isSome → addr ∈ Reg.programmed
  copies : r.isCopy = false
  memory : ∀ m : Memory ν, m.SameSetUp (remembered m r)

/-- What may be asked in a search, after what was said before. -/
def Allowed (talk : List (Answered ν)) (r : Request ν) : Prop :=
  Bounded r ∨ r = powerOff ∧ ReadsFault talk

variable {α β : Type} {s : List (Answered ν)} {r : Request ν} {p : Routine ν α}

/-! ## Requests by kind -/

/-- What writes no register, copies nothing and is remembered nowhere. -/
theorem bounded_aside (writes : ∀ addr, r.puts addr = none := by exact fun _ ↦ rfl)
    (copies : r.isCopy = false := by rfl)
    (memory : ∀ m : Memory ν, remembered m r = m := by exact fun _ ↦ rfl) : Bounded r := by
  refine ⟨fun addr puts ↦ ?_, copies, fun m ↦ ?_⟩
  · rw [writes addr] at puts
    cases puts
  · rw [memory m]
    exact .refl m

theorem bounded_revise {f : Memory ν → Memory ν} (h : ∀ m : Memory ν, m.SameSetUp (f m)) :
    Bounded (.revise f) := ⟨fun _ ↦ nofun, rfl, h⟩

theorem bounded_of_isQuiet (h : r.isQuiet) : Bounded r := by
  cases r with
  | call c =>
    cases c with
    | write | writeBulk | upload | move => cases h
    | _ => exact bounded_aside
  | revise => cases h
  | _ => exact bounded_aside

theorem bounded_books {f : Memory ν → Memory ν} (h : Bookkeeping f) : Bounded (.revise f) :=
  bounded_revise fun m ↦
    ⟨(h m).lastEpoch, (h m).clock.baseline, (h m).clock.target, (h m).autoTune⟩

theorem bounded_write {value addr : Word} (h : addr ∈ Reg.programmed) :
    Bounded (.call (.write value addr) : Request ν) := by
  refine ⟨fun addr' puts ↦ ?_, rfl, fun m ↦ .refl m⟩
  by_cases same : addr = addr'
  · exact same ▸ h
  · rw [puts_write_of_ne same] at puts
    cases puts

theorem bounded_hash {bytes : List UInt8} {base : Word} (length : bytes.length = 32)
    (h : Reg.block base ⊆ Reg.programmed) :
    Bounded (.call (.writeBulk bytes base true) : Request ν) := by
  refine ⟨fun addr puts ↦ ?_, rfl, fun m ↦ .refl m⟩
  by_contra outside
  rw [puts_hash_of_not_mem length fun within ↦ outside (h within)] at puts
  cases puts

theorem roomToProgram_bounded (work : Work) : RoomToProgram (Bounded : Request ν → Prop) work where
  quiet _ := bounded_of_isQuiet
  programmed _ _ _ := bounded_aside
  books _ := bounded_books
  writes _ _ h := bounded_write (List.mem_append_right _ h)
  header := bounded_hash work.header.length_eq (by decide)
  target hash := bounded_hash hash.length_eq (by decide)

theorem roomToGather_bounded : RoomToGather (Bounded : Request ν → Prop) where
  quiet _ := bounded_of_isQuiet
  slots _ _ := bounded_aside
  interrupts _ _ := bounded_aside
  acquire := bounded_aside
  release := bounded_aside
  clears := bounded_write (by decide)

theorem bounded_searching (on : Bool) :
    Bounded (.revise fun m : Memory ν ↦ m.withStatus fun s ↦ { s with searching := on }) :=
  bounded_revise fun _ ↦ ⟨rfl, rfl, rfl, rfl⟩

theorem only_stopCore_bounded : (stopCore : Routine ν _).Only Bounded :=
  only_stopCore (fun _ ↦ bounded_of_isQuiet) (fun _ ↦ bounded_write (by decide))
    (bounded_write (by decide))

/-! ## The guard -/

/-- A routine that asks in a search only what may be asked. -/
def Obeys (p : Routine ν α) : Prop := ∀ s, p.Ensures (guarded Allowed) (fun _ _ ↦ True) s

theorem Obeys.bind {f : α → Routine ν β} (h : Obeys p) (hf : ∀ a, Obeys (f a)) :
    Obeys (p.bind f) := fun s ↦ (h s).seq fun a t _ ↦ hf a t

theorem obeys_done (a : α) : Obeys (.done a : Routine ν α) := fun _ ↦ trivial

theorem obeys_of_only (h : p.Only Bounded) : Obeys p := by
  intro s
  have runs : p.Ensures (transcript ν) (fun _ _ ↦ True) s :=
    (ensures_grows p s).mono fun _ _ _ ↦ trivial
  exact runs.guarded (h.mono fun _ hr _ ↦ .inl hr)

/-- What is asked between the health word and the power of the generator. -/
theorem ensures_readsFault (h : p.Only fun r ↦ Bounded r ∧ r ≠ .isCancelled) (hs : ReadsFault s) :
    p.Ensures (guarded Allowed) (fun _ ↦ ReadsFault) s := by
  have keeps := h.keeps hs fun t r x ht hr ↦ ReadsFault.snoc ht x hr.2
  exact keeps.guarded (h.mono fun _ hr _ ↦ .inl hr.1)

/-! ## A telemetry sample -/

section Sample

variable [Quantity ν]

theorem only_sample_bounded : (sample : Routine ν _).Only Bounded :=
  only_sample (fun _ ↦ bounded_of_isQuiet) fun _ ↦ bounded_books

/-- A sample asks for a halt if the health word it read last tells of a fault. -/
theorem ensures_sample (s : List (Answered ν)) :
    (sample : Routine ν _).Ensures (transcript ν)
      (fun x t ↦ x.health.requiresHalt → ReadsFault t) s := by
  refine .after fun temperature t _ ↦ .after fun clock u _ ↦ .after fun supply v _ ↦ ?_
  have reads : (Routine.read Reg.stackHealth).Ensures (transcript ν)
      (fun x w ↦ ∀ raw, x = .ok raw → IsFaulty (.ok raw) → ReadsFault w) v := by
    refine (ensures_request (.call (.read Reg.stackHealth)) v).seq ?_
    rintro (fault | raw) w rfl
    · exact fun _ ↦ nofun
    · refine (ensures_request (.note _) _).seq ?_
      rintro - w rfl _ ⟨⟩ faulty
      exact ReadsFault.snoc ⟨v, raw, [], rfl, faulty, List.forall_mem_nil _⟩ _ nofun
  have health : (readOr Reg.stackHealth Reg.stackHealthSafe "stack health").Ensures (transcript ν)
      (fun word w ↦ (StackHealth.ofWord word).requiresHalt → ReadsFault w) v := by
    refine reads.seq ?_
    rintro (fault | raw) w hw
    · refine .after fun _ _ _ requires ↦ ?_
      exact ((StackHealth.requiresHalt_iff (.error fault)).mp requires).elim
    · exact fun requires ↦ hw raw rfl ((StackHealth.requiresHalt_iff (.ok raw)).mp requires)
  exact health.seq fun word w hw ↦ hw

omit [Quantity ν] in
theorem obeys_emergencyHalt (health : StackHealth) (hs : ReadsFault s) :
    (emergencyHalt health).Ensures (guarded Allowed) (fun _ _ ↦ True) s := by
  have quiet (r : Request ν) (h : r.isQuiet) : Bounded r ∧ r ≠ .isCancelled := by
    refine ⟨bounded_of_isQuiet h, ?_⟩
    rintro rfl
    cases h
  have stops : (stopCore : Routine ν _).Only fun r ↦ Bounded r ∧ r ≠ .isCancelled :=
    only_stopCore quiet (fun _ ↦ ⟨bounded_write (by decide), nofun⟩)
      ⟨bounded_write (by decide), nofun⟩
  have notes (event : Event ν) : Obeys (note event) :=
    obeys_of_only (only_request bounded_aside)
  refine (ensures_readsFault stops hs).seq fun _ t ht ↦ ?_
  have powers : (tryWrite Reg.dagPowerOff Reg.dagPower "generator power").Ensures
      (guarded Allowed) (fun _ _ ↦ True) t := by
    refine Ensures.seq (R := fun _ _ ↦ True) ?_ ?_
    · refine (ensures_readsFault (only_note quiet rfl) ht).seq fun _ u hu ↦ ?_
      exact ⟨trivial, .inr ⟨rfl, hu⟩, fun _ _ _ ↦ trivial⟩
    · rintro (fault | -) u -
      · exact notes _ u
      · exact trivial
  refine powers.seq fun _ u _ ↦ (notes _ u).seq fun _ v _ ↦ ?_
  have rest : (do
      revise fun m ↦ { m with halted := true, busy := true, newWork := true }
      call .kick
      request .wake : Routine ν Unit).Only Bounded := by
    refine Only.bind (only_request (bounded_revise fun _ ↦ ⟨rfl, rfl, rfl, rfl⟩)) fun _ ↦ ?_
    refine Only.bind (only_request (bounded_of_isQuiet rfl)) fun _ ↦ ?_
    exact only_request (bounded_of_isQuiet rfl)
  exact obeys_of_only rest v

theorem obeys_checkTelemetry (b : Board) : Obeys (b.checkTelemetry : Routine ν _) := by
  intro s
  have samples := (ensures_sample s).guarded (A := Allowed)
    (only_sample_bounded.mono fun _ hr _ ↦ .inl hr)
  have notes (x : Telemetry ν) : (b.noteAverages x).Only fun r ↦ Bounded r ∧ r ≠ .isCancelled := by
    refine Only.bind (only_request ⟨bounded_of_isQuiet rfl, nofun⟩) fun m ↦ ?_
    refine Only.bind (only_request ⟨bounded_of_isQuiet rfl, nofun⟩) fun stage ↦ ?_
    exact only_request ⟨bounded_aside, nofun⟩
  have shows (x : Telemetry ν) : Obeys (do
      reviseStatus fun s : Status ν ↦ { s with telemetry := some x, clock := x.clock }
      pure x) := by
    refine obeys_of_only (Only.bind (only_request ?_) fun _ ↦ trivial)
    exact bounded_revise fun _ ↦ ⟨rfl, rfl, rfl, rfl⟩
  refine samples.seq fun x t ht ↦ ?_
  by_cases requires : x.health.requiresHalt
  · refine (ensures_readsFault (notes x) (ht requires)).seq fun _ u hu ↦ ?_
    rw [if_pos requires]
    exact (obeys_emergencyHalt x.health hu).seq fun _ v _ ↦ shows x v
  · refine (obeys_of_only ((notes x).mono fun _ hr ↦ hr.1) t).seq fun _ u _ ↦ ?_
    rw [if_neg requires]
    exact shows x u

end Sample

/-! ## The whole search -/

section Search

variable [Quantity ν]

theorem obeys_watchIfDue (b : Board) (watched t : Micros) :
    Obeys (b.watchIfDue watched t : Routine ν _) := by
  rw [watchIfDue]
  split
  · exact (obeys_checkTelemetry b).bind fun _ ↦ obeys_done _
  · exact obeys_done _

theorem obeys_finishRound (b : Board) (work : Work) (r : Round) (nonces : List UInt64) :
    Obeys (b.finishRound work r nonces : Routine ν _) := by
  have quiet : ∀ r : Request ν, r.isQuiet → Bounded r := fun _ ↦ bounded_of_isQuiet
  have stall : (b.checkStall r.stall : Routine ν _).Only Bounded :=
    only_checkStall quiet bounded_aside b r.stall
  have counts : (countChecks r.checks : Routine ν _).Only Bounded :=
    only_countChecks quiet r.checks fun _ _ ↦ bounded_aside
  have reports : (forEach (b.report work) nonces : Routine ν _).Only Bounded :=
    only_forEach fun nonce _ ↦ only_report quiet b work nonce fun _ _ ↦ bounded_aside
  have accounts (delta : UInt64) (elapsed t : Micros) :
      (keepAccount delta nonces.length elapsed t : Routine ν _).Only Bounded :=
    only_keepAccount quiet (fun _ ↦ bounded_aside)
      (fun f h ↦ bounded_revise fun m ↦
        ⟨(h m).lastEpoch, (h m).clock.baseline, (h m).clock.target, (h m).autoTune⟩) ..
  refine (obeys_of_only stall).bind fun x ↦ (obeys_of_only counts).bind fun y ↦ ?_
  refine (obeys_of_only reports).bind fun _ ↦ ?_
  refine (obeys_of_only (only_request (quiet .now rfl))).bind fun t ↦ ?_
  refine (obeys_of_only (accounts ..)).bind fun _ ↦ ?_
  refine (obeys_watchIfDue b r.watched t).bind fun watched ↦ ?_
  split
  · exact (obeys_of_only (only_note quiet rfl)).bind fun _ ↦ obeys_done _
  · exact obeys_done _

theorem obeys_searchRound (b : Board) (work : Work) (r : Round) :
    Obeys (b.searchRound work r : Routine ν _) := by
  refine (obeys_of_only (only_request (bounded_of_isQuiet (r := .memory) rfl))).bind fun m ↦ ?_
  split
  · exact obeys_done _
  · have looks : Bounded (.isCancelled : Request ν) := bounded_aside
    refine (obeys_of_only (only_request looks)).bind fun cancelled ↦ ?_
    split
    · exact obeys_done _
    · refine (obeys_of_only (only_gatherNonces roomToGather_bounded b)).bind ?_
      rintro (e | nonces)
      · exact obeys_done _
      · exact obeys_finishRound b work r nonces

theorem obeys_runSearch (b : Board) (work : Work) : Obeys (b.runSearch work : Routine ν _) := by
  refine (obeys_of_only (only_programWork (roomToProgram_bounded work) b)).bind ?_
  rintro (e | -)
  · exact obeys_done _
  · refine (obeys_of_only (only_request (bounded_searching _))).bind fun _ ↦ ?_
    refine (obeys_of_only (only_request (bounded_of_isQuiet (r := .now) rfl))).bind fun t s ↦ ?_
    refine ensures_repeating (fun _ _ ↦ True) trivial fun r u _ ↦ ⟨trivial, ?_⟩
    refine (obeys_searchRound b work r u).mono ?_
    rintro (r | x) _ - <;> trivial

theorem obeys_search (b : Board) (work : Work) : Obeys (b.search work : Routine ν _) := by
  have quiet : ∀ r : Request ν, r.isQuiet → Bounded r := fun _ ↦ bounded_of_isQuiet
  have room := roomToGather_bounded (ν := ν)
  refine (obeys_of_only (only_request room.acquire)).bind fun _ ↦ ?_
  refine (obeys_runSearch b work).bind fun result ↦ ?_
  refine (obeys_of_only only_stopCore_bounded).bind fun _ ↦ ?_
  refine (obeys_of_only (only_request room.release)).bind fun _ ↦ ?_
  refine (obeys_of_only (only_request (bounded_searching _))).bind fun _ ↦ ?_
  rcases result with e | exit
  · exact (obeys_of_only (only_note quiet rfl)).bind fun _ ↦ obeys_done _
  · exact (obeys_of_only (only_note quiet rfl)).bind fun _ ↦ obeys_done _

variable {b : Board} {work : Work} {talk : List (Answered ν)}

/-- Whatever is asked in a search may be asked there. -/
theorem allowed_of_path {q : Routine ν (Except BoardError SearchExit)} {before after talk}
    {said : Answered ν} (path : Path (b.search work) talk q)
    (h : talk = before ++ said :: after) : Allowed before said.request := by
  subst h
  obtain ⟨q', hbefore, hafter⟩ := path.of_append
  cases hafter with
  | cons step _ => exact (obeys_search b work []).guard_of_path hbefore step

end Search

theorem puts_of_isStanding (h : Bounded r ∨ r = powerOff) {addr : Word}
    (standing : Reg.isStanding addr) : r.puts addr = none := by
  have apart : (Reg.dagPower :: Reg.programmed).all fun addr ↦ ¬Reg.isStanding addr := by decide
  have outside : addr ∉ Reg.dagPower :: Reg.programmed := fun mem ↦
    of_decide_eq_true (List.all_eq_true.mp apart addr mem) standing
  rcases h with bounded | rfl
  · by_contra puts
    exact outside (.tail _ (bounded.writes addr (Option.isSome_iff_ne_none.mpr puts)))
  · refine puts_write_of_ne ?_
    rintro rfl
    exact outside (.head _)

end Footprint

open Footprint Routine in
/-- **A search leaves the set-up alone.** However far a search gets and whatever it is answered, it
attempts to write no register but those of header, target, first nonce, pacing and switch, and to
power the generator down; the latter only in a round in which a health word was read that tells of a
fault. So it writes neither the item count nor its reciprocal, the status word of the dataset, the
range of a mixer, the clock or a regulator; it copies nothing; and it does not change the last
epoch, the stock clock, the clock to return to, or whether tuning is on. -/
theorem search_leaves_setUp [Quantity ν] {b : Board} {work : Work} {talk : List (Answered ν)}
    {q : Routine ν (Except BoardError SearchExit)} (path : Path (b.search work) talk q) :
    (∀ before said after addr, talk = before ++ said :: after →
      (said.request.puts addr).isSome →
        addr ∈ Reg.programmed ∨
          addr = Reg.dagPower ∧ said.request = .call (.write Reg.dagPowerOff Reg.dagPower) ∧
            ReadsFault before) ∧
    ∀ said ∈ talk,
      (∀ addr, Reg.isStanding addr → said.request.puts addr = none) ∧
      said.request.isCopy = false ∧
      ∀ m : Memory ν, m.SameSetUp (remembered m said.request) := by
  constructor
  · intro before said after addr h puts
    rcases allowed_of_path path h with bounded | ⟨off, reads⟩
    · exact .inl (bounded.writes addr puts)
    · refine .inr ⟨?_, off, reads⟩
      by_contra other
      rw [off, powerOff, puts_write_of_ne (Ne.symm other)] at puts
      cases puts
  · intro said mem
    obtain ⟨before, after, h⟩ := List.append_of_mem mem
    have allowed := allowed_of_path path h
    refine ⟨fun addr ↦ puts_of_isStanding (allowed.imp_right And.left), ?_⟩
    rcases allowed with bounded | ⟨off, -⟩
    · exact ⟨bounded.copies, bounded.memory⟩
    · rw [off]
      exact ⟨rfl, fun m ↦ .refl m⟩

/-! ### A search on a board with a fault -/

namespace Footprint

/-- A board that samples telemetry in every round. -/
def watchedBoard : Board :=
  { plainBoard with settings := { plainBoard.settings with telemetryInterval := 0 } }

/-- A search on a board whose stacks are not calibrated. -/
def faultySearch : Rehearsal (watchedBoard.errands (ν := Rat)) :=
  .rehearse (.start 0 false) {} {} [.begins (.search plainWork), .goes .owner 200]

/-- Whether a search ends for the sake of other work. -/
def endsForNewWork : Occurrence (watchedBoard.errands (ν := Rat)) → Bool
  | .ends (.search _) (.ok .newWork) => true
  | _ => false

/-- Whether the generator is powered down. -/
def isPowerOff : Answered ν → Bool
  | ⟨.call (.write value addr), _⟩ => value = Reg.dagPowerOff ∧ addr = Reg.dagPower
  | _ => false

theorem request_of_isPowerOff {said : Answered ν} (h : isPowerOff said) :
    said.request = powerOff := by
  unfold isPowerOff at h
  split at h
  · obtain ⟨rfl, rfl⟩ := of_decide_eq_true h
    rfl
  · cases h

end Footprint

open Footprint Routine in
/-- A search that powers the generator down did read that a stack is at fault. -/
theorem reads_fault_of_faultySearch :
    ∃ work, ∃ talk : List (Answered Rat), Run (watchedBoard.search work) talk (.ok .newWork) ∧
      ∃ before said after, talk = before ++ said :: after ∧
        said.request = .call (.write Reg.dagPowerOff Reg.dagPower) ∧ ReadsFault before := by
  have ends : faultySearch.lastPasses endsForNewWork := by decide +kernel
  obtain ⟨es, hes, solo, powered⟩ : ∃ es, faultySearch.before = es ∧
      Rehearsal.isSoloJob es ∧ (talkOf es).any isPowerOff :=
    ⟨_, rfl, by decide +kernel, by decide +kernel⟩
  obtain ⟨e, htest, hlast⟩ := Rehearsal.occurrences_of_lastPasses ends
  rw [hes] at hlast
  unfold endsForNewWork at htest
  split at htest
  · obtain ⟨run, -⟩ := Rehearsal.run_of_isSoloJob hlast solo
    obtain ⟨said, mem, test⟩ := List.any_eq_true.mp powered
    have off := request_of_isPowerOff test
    obtain ⟨before, after, hsplit⟩ := List.append_of_mem mem
    obtain ⟨q, path, ended⟩ := run
    have puts : (said.request.puts Reg.dagPower).isSome := by
      rw [off]
      rfl
    rcases (search_leaves_setUp path).1 before said after Reg.dagPower hsplit puts with
      programmed | ⟨-, -, reads⟩
    · exact absurd programmed (by decide)
    · exact ⟨_, _, ⟨q, path, ended⟩, before, said, after, hsplit, off, reads⟩
  · cases htest

end HashBoard
