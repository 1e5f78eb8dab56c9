import HashBoard.Proofs.Scene.Memory
import HashBoard.Proofs.Search.Asks
import HashBoard.Worker

/-!
# What a worker knows when it searches

A worker keeps an epoch of its own beside the one that is remembered of the board. The two agree
wherever the worker has one: an epoch change that succeeds sets both, one that fails sets neither,
and nobody else touches what is remembered. For this the source of work must not hand out the
context of another epoch than it was asked for.

The account is the remembered epoch and everything the worker was told. The first thing a search
asks of the board is to take the header, so where that is asked, the worker has just made its two
checks. The work is told by the nonces a search hands over, which are for the work that was taken
last.
-/

namespace HashBoard.Ready

open Routine Board

/-- The epoch that is remembered, and what the worker asked and was answered. -/
structure Account (ν : Type) where
  /-- Epoch of the last successful epoch change. -/
  lastEpoch : Option Word
  /-- What the worker asked and was answered. -/
  talk : List (Answered ν)

variable {ν α : Type} {s t u : Account ν} {work : Work}

/-- The account after a request that leaves the remembered epoch alone. -/
def Account.after (s : Account ν) (said : Answered ν) : Account ν :=
  { s with talk := s.talk ++ [said] }

/-- The work that was taken from the feed last. -/
def taken (talk : List (Answered ν)) : Option Work :=
  talk.foldl (fun work said ↦
    match said with
    | ⟨.latestWork, latest⟩ => latest
    | _ => work) none

@[simp] theorem taken_latestWork (talk : List (Answered ν)) (latest : Option Work) :
    taken (talk ++ [⟨.latestWork, latest⟩]) = latest := by
  rw [taken, List.foldl_append]
  rfl

theorem taken_snoc {r : Request ν} (talk : List (Answered ν)) (x : Reply r)
    (hr : r ≠ .latestWork) : taken (talk ++ [⟨r, x⟩]) = taken talk := by
  rw [taken, List.foldl_append]
  cases r with
  | latestWork => exact absurd rfl hr
  | _ => rfl

theorem taken_append (talk : List (Answered ν)) {talk' : List (Answered ν)}
    (h : ∀ said ∈ talk', said.request ≠ .latestWork) : taken (talk ++ talk') = taken talk := by
  induction talk' generalizing talk with
  | nil => rw [List.append_nil]
  | cons said talk' ih =>
    rw [List.append_cons, ih _ fun said' h' ↦ h said' (.tail _ h')]
    exact taken_snoc talk said.reply (h said (.head _))

/-- A reply is right about the remembered epoch, or comes from a source of work that hands out the
context it was asked for. -/
def Right (lastEpoch : Option Word) : (r : Request ν) → Reply r → Prop
  | .memory, m => m.lastEpoch = lastEpoch
  | .epochContext epoch, some ctx => ctx.epoch = epoch
  | _, _ => True

/-- A worker stands before a search: it took work that the board can do, found the board neither
halted nor busy, and the board is prepared for the epoch of the work. -/
structure Poised (s : Account ν) (work : Work) : Prop where
  /-- The work was taken, and then the two checks were made. -/
  checked : ∃ earlier m m',
    s.talk = earlier ++ [⟨.latestWork, some work⟩, ⟨.memory, m⟩, ⟨.memory, m'⟩] ∧
      m.halted = false ∧ m'.busy = false
  /-- The board can do the work. -/
  supported : work.isSupported
  /-- The board is prepared for it. -/
  prepared : s.lastEpoch = some work.epoch

/-- A header is programmed only right after a worker that stands before a search took the lock, and
a nonce is handed over only for the work that was taken last. -/
structure Allows (s : Account ν) (r : Request ν) : Prop where
  header : ∀ bytes reversed, r = .call (.writeBulk bytes Reg.header reversed) →
    ∃ work t, Poised t work ∧ s = t.after ⟨.acquire, ()⟩
  submits : ∀ solution, r = .submit solution → taken s.talk = some solution.work

/-- What a worker keeps to. Nobody else touches the remembered epoch. -/
def watch (ν : Type) : Watch ν (Account ν) where
  safe _ := True
  allows := Allows
  acts s r x t := Right s.lastEpoch r x ∧ t.talk = s.talk ++ [⟨r, x⟩] ∧
    ∃ m : Memory ν, m.lastEpoch = s.lastEpoch ∧ t.lastEpoch = (remembered m r).lastEpoch
  drifts s t := t = s
  refl _ := rfl
  trans h h' := h'.trans h
  safe_of_drifts _ h := h
  allows_of_drifts h hr := h ▸ hr

/-! ## Requests -/

/-- A request that takes no work and leaves the remembered epoch alone. -/
structure Spares (r : Request ν) : Prop where
  epoch : ∀ m : Memory ν, (remembered m r).lastEpoch = m.lastEpoch
  look : r ≠ .latestWork

/-- A request that, besides, neither programs a header nor hands a nonce over. -/
structure Plain (r : Request ν) : Prop extends Spares r where
  header : ∀ bytes reversed, r ≠ .call (.writeBulk bytes Reg.header reversed)
  submits : ∀ solution, r ≠ .submit solution

theorem spares_of_isQuiet {r : Request ν} (h : r.isQuiet) : Spares r := by
  constructor
  · intro m
    rw [remembered_of_isQuiet h]
  · rintro rfl
    cases h

theorem spares_of_bookkeeping (f : Memory ν → Memory ν) (h : Bookkeeping f) : Spares (.revise f) :=
  ⟨fun m ↦ (follows_of_bookkeeping h m).lastEpoch, nofun⟩

theorem spares_of_averaging (f : Memory ν → Memory ν) (h : Averaging f) : Spares (.revise f) :=
  ⟨fun m ↦ (h m).lastEpoch, nofun⟩

theorem plain_of_isQuiet {r : Request ν} (h : r.isQuiet) : Plain r := by
  refine ⟨spares_of_isQuiet h, ?_, ?_⟩
  · rintro bytes reversed rfl
    cases h
  · rintro solution rfl
    cases h

theorem plain_of_bookkeeping (f : Memory ν → Memory ν) (h : Bookkeeping f) : Plain (.revise f) :=
  ⟨spares_of_bookkeeping f h, nofun, nofun⟩

theorem plain_of_averaging (f : Memory ν → Memory ν) (h : Averaging f) : Plain (.revise f) :=
  ⟨spares_of_averaging f h, nofun, nofun⟩

theorem plain_reviseStatus (f : Status ν → Status ν) : Plain (.revise fun m ↦ m.withStatus f) :=
  ⟨⟨fun _ ↦ rfl, nofun⟩, nofun, nofun⟩

theorem plain_note (event : Event ν) : Plain (.note event) := ⟨⟨fun _ ↦ rfl, nofun⟩, nofun, nofun⟩

theorem plain_write (value addr : Word) : Plain (.call (.write value addr) : Request ν) :=
  ⟨⟨fun _ ↦ rfl, nofun⟩, nofun, nofun⟩

theorem plain_acquire : Plain (.acquire : Request ν) := ⟨⟨fun _ ↦ rfl, nofun⟩, nofun, nofun⟩

theorem plain_release : Plain (.release : Request ν) := ⟨⟨fun _ ↦ rfl, nofun⟩, nofun, nofun⟩

theorem plain_writeBulk {bytes : List UInt8} {addr : Word} {reversed : Bool}
    (h : addr ≠ Reg.header) : Plain (.call (.writeBulk bytes addr reversed) : Request ν) := by
  refine ⟨⟨fun _ ↦ rfl, nofun⟩, ?_, nofun⟩
  rintro bytes' reversed' heq
  cases heq
  exact h rfl

theorem Plain.allows {r : Request ν} (h : Plain r) (s : Account ν) : Allows s r := by
  constructor
  · intro bytes reversed hr
    exact absurd hr (h.header bytes reversed)
  · intro solution hr
    exact absurd hr (h.submits solution)

/-- What a request makes of the account, if it leaves the remembered epoch alone. -/
theorem eq_of_moves {r : Request ν} {x : Reply r}
    (h : ∀ m : Memory ν, (remembered m r).lastEpoch = m.lastEpoch)
    (hm : (watch ν).moves s r x t) : t = s.after ⟨r, x⟩ ∧ Right s.lastEpoch r x := by
  obtain ⟨u, rfl, hright, htalk, m, hlast, hepoch⟩ := hm
  refine ⟨?_, hright⟩
  obtain ⟨lastEpoch, talk⟩ := t
  simp only [Account.after, Account.mk.injEq]
  exact ⟨hepoch.trans ((h m).trans hlast), htalk⟩

theorem ensures_plain_request {r : Request ν} (h : Plain r) (s : Account ν) :
    (request r).Ensures (watch ν) (fun x t ↦ t = s.after ⟨r, x⟩ ∧ Right s.lastEpoch r x) s :=
  ⟨trivial, h.allows s, fun _ _ hm ↦ eq_of_moves h.epoch hm⟩

/-! ## Routines that leave the epoch and the work alone -/

/-- The remembered epoch and the work that was taken last. -/
def Stands (lastEpoch : Option Word) (latest : Option Work) (s : Account ν) : Prop :=
  s.lastEpoch = lastEpoch ∧ taken s.talk = latest

theorem Stands.after {lastEpoch : Option Word} {latest : Option Work}
    (hs : Stands lastEpoch latest s) {r : Request ν} (x : Reply r) (hr : r ≠ .latestWork) :
    Stands lastEpoch latest (s.after ⟨r, x⟩) := ⟨hs.1, (taken_snoc s.talk x hr).trans hs.2⟩

/-- A request that is plain, or hands over a nonce for some work. -/
def Within (latest : Option Work) (r : Request ν) : Prop :=
  Plain r ∨ ∃ solution, latest = some solution.work ∧ r = .submit solution

variable {lastEpoch : Option Word} {latest : Option Work}

theorem Within.spares {r : Request ν} (h : Within latest r) : Spares r := by
  rcases h with h | ⟨solution, -, rfl⟩
  · exact h.toSpares
  · exact ⟨fun _ ↦ rfl, nofun⟩

theorem ensures_within {p : Routine ν α} (h : p.Only (Within latest))
    (hs : Stands lastEpoch latest s) :
    p.Ensures (watch ν) (fun _ ↦ Stands lastEpoch latest) s := by
  refine h.ensures hs (fun _ _ ↦ trivial) ?_ ?_
  · rintro t r ⟨-, hlatest⟩ (hr | ⟨solution, hwork, rfl⟩)
    · exact hr.allows t
    · refine ⟨nofun, fun solution' hsame ↦ ?_⟩
      cases hsame
      exact hlatest.trans hwork
  · rintro t r x u ⟨hlast, hlatest⟩ hr hm
    obtain ⟨rfl, -⟩ := eq_of_moves hr.spares.epoch hm
    exact Stands.after ⟨hlast, hlatest⟩ x hr.spares.look

theorem ensures_plain {p : Routine ν α} (h : p.Only Plain) (hs : Stands lastEpoch latest s) :
    p.Ensures (watch ν) (fun _ ↦ Stands lastEpoch latest) s :=
  ensures_within (h.mono fun _ ↦ .inl) hs

/-! ## Preparing an epoch -/

theorem roomToDrive_plain : RoomToDrive (Plain : Request ν → Prop) where
  quiet _ := plain_of_isQuiet
  preparing := plain_note _
  enter := plain_reviseStatus _
  changing _ := plain_note _
  clocks _ _ := plain_note _
  clock _ := ⟨⟨fun _ ↦ rfl, nofun⟩, nofun, nofun⟩
  books := plain_of_bookkeeping
  writes _ _ _ := plain_write _ _
  stop := plain_write _ _

theorem roomToBuild_plain : RoomToBuild (Plain : Request ν → Prop) where
  quiet _ := plain_of_isQuiet
  phases _ := plain_note _
  overdue _ := plain_note _
  enters _ := plain_reviseStatus _
  looks := ⟨⟨fun _ ↦ rfl, nofun⟩, nofun, nofun⟩
  acquire := plain_acquire
  release := plain_release
  status := ⟨⟨fun _ ↦ rfl, nofun⟩, nofun, nofun⟩
  writes _ _ _ := plain_write _ _
  seed _ := plain_writeBulk (by decide)
  uploads _ _ := ⟨⟨fun _ ↦ rfl, nofun⟩, nofun, nofun⟩
  moves _ _ _ := ⟨⟨fun _ ↦ rfl, nofun⟩, nofun, nofun⟩

/-- The remembered epoch is the one the board was made ready for, or what it was. -/
def Prepared (ctx : EpochContext) (before : Option Word) :
    Except BoardError EpochOutcome → Account ν → Prop
  | .ok _, s => s.lastEpoch = some ctx.epoch
  | .error _, s => s.lastEpoch = before

variable [Quantity ν]

theorem ensures_finishEpoch (epoch : Word) (hs : Stands lastEpoch latest s) :
    (finishEpoch epoch).Ensures (watch ν) (fun _ ↦ Stands (some epoch) latest) s := by
  have room := roomToDrive_plain (ν := ν)
  rw [finishEpoch_eq]
  have powers : (tryWrite Reg.dagPowerOff Reg.dagPower "generator power" :
      Routine ν Unit).Only Plain := only_tryWrite room.quiet (plain_write _ _)
  refine (ensures_plain powers hs).seq fun _ t ht ↦ ?_
  refine (ensures_plain (only_request (room.quiet .memory rfl)) ht).seq fun m t ht ↦ ?_
  refine (ensures_plain (only_restoreClock room.toRoomToClock m.clock.target) ht).seq
    fun _ t ht ↦ ?_
  refine (ensures_plain (only_request (room.quiet .memory rfl)) ht).seq fun m t ht ↦ ?_
  -- the only request that sets the remembered epoch
  have sets : (revise fun m ↦ { m with lastEpoch := some epoch }).Ensures (watch ν)
      (fun _ ↦ Stands (some epoch) latest) t := by
    refine ⟨trivial, ⟨nofun, nofun⟩, ?_⟩
    rintro _ u ⟨v, rfl, _, htalk, m, _, hepoch⟩
    refine ⟨hepoch, ?_⟩
    rw [htalk]
    exact (taken_snoc (r := .revise _) v.talk _ nofun).trans ht.2
  refine sets.seq fun _ u hu ↦ ensures_plain ?_ hu
  refine (only_request plain_release).bind fun _ ↦ ?_
  refine Only.bind (only_request (plain_reviseStatus _)) fun _ ↦ ?_
  exact only_request ⟨⟨fun _ ↦ rfl, nofun⟩, nofun, nofun⟩

theorem ensures_changeEpoch (b : Board) (ctx : EpochContext) (hs : Stands lastEpoch latest s) :
    (b.changeEpoch ctx).Ensures (watch ν) (Prepared ctx lastEpoch) s := by
  have room := roomToDrive_plain (ν := ν)
  have build := roomToBuild_plain (ν := ν)
  refine (ensures_plain (only_request plain_acquire) hs).seq fun _ t ht ↦ ?_
  refine (ensures_plain (only_prepareCore room ctx) ht).seq fun _ t ht ↦ ?_
  have holds : (b.holdsDataset ctx.epoch : Routine ν _).Only Plain :=
    only_holdsDataset room.quiet b ctx.epoch ⟨⟨fun _ ↦ rfl, nofun⟩, nofun, nofun⟩
  refine (ensures_plain holds ht).seq fun resident t ht ↦ ?_
  cases resident with
  | true => exact (ensures_finishEpoch ctx.epoch ht).seq fun _ u hu ↦ hu.1
  | false =>
    refine (ensures_plain (only_buildDataset build b ctx) ht).seq ?_
    rintro (e | -) t ht
    · exact (ensures_plain (only_request plain_release) ht).seq fun _ u hu ↦ hu.1
    · exact (ensures_finishEpoch ctx.epoch ht).seq fun _ u hu ↦ hu.1

omit [Quantity ν] in
theorem Prepared.ensures {ctx : EpochContext} {x : Except BoardError EpochOutcome}
    (hs : Prepared ctx lastEpoch x s) {p : Routine ν α} (h : p.Only Plain) :
    p.Ensures (watch ν) (fun _ ↦ Prepared ctx lastEpoch x) s := by
  refine (ensures_plain h ⟨rfl, rfl⟩).mono fun _ t ht ↦ ?_
  cases x with
  | ok outcome => exact ht.1.trans hs
  | error e => exact ht.1.trans hs

theorem ensures_trackedChange (b : Board) (ctx : EpochContext) (hs : Stands lastEpoch latest s) :
    (b.trackedChange ctx).Ensures (watch ν) (Prepared ctx lastEpoch) s := by
  have room := roomToDrive_plain (ν := ν)
  have busy (f : Memory ν → Bool) : Plain (.revise fun m ↦ { m with busy := f m }) :=
    ⟨⟨fun _ ↦ rfl, nofun⟩, nofun, nofun⟩
  refine (ensures_plain (only_request (busy fun _ ↦ true)) hs).seq fun _ t ht ↦ ?_
  refine (ensures_changeEpoch b ctx ht).seq fun x t ht ↦ ?_
  refine (ht.ensures (only_request (busy fun m ↦ m.halted))).seq fun _ t ht ↦ ?_
  cases x with
  | ok outcome =>
    refine (ht.ensures (only_note room.quiet rfl)).seq fun _ t ht ↦ ?_
    exact (ht.ensures (only_request (plain_reviseStatus _))).seq fun _ u hu ↦ hu
  | error e =>
    refine (ht.ensures (only_note room.quiet rfl)).seq fun _ t ht ↦ ?_
    exact (ht.ensures (only_enter (plain_reviseStatus _) (plain_note _))).seq fun _ t ht ↦ ht

/-- An epoch change that succeeds sets the remembered epoch, and one that fails leaves it. -/
theorem ensures_prepareEpoch (b : Board) (ctx : EpochContext) (s : Account ν) :
    (b.prepareEpoch ctx).Ensures (watch ν) (Prepared ctx s.lastEpoch) s := by
  have quiet := (roomToDrive_plain (ν := ν)).quiet
  refine (ensures_plain (only_request (quiet .memory rfl)) ⟨rfl, rfl⟩).seq fun m t ht ↦ ?_
  split
  · exact (ensures_plain (only_request (quiet _ rfl)) ht).seq fun _ u hu ↦ hu.1
  · -- the remembered epoch is read under the lock
    have asks : (isLastEpoch ctx.epoch).Ensures (watch ν)
        (fun last u ↦ Stands s.lastEpoch (taken s.talk) u ∧
          (last → s.lastEpoch = some ctx.epoch)) t := by
      refine (ensures_plain (only_request plain_acquire) ht).seq fun _ u hu ↦ ?_
      refine ⟨trivial, (quiet .memory rfl).allows u, fun m v hm ↦ ?_⟩
      obtain ⟨rfl, hright⟩ := eq_of_moves (fun _ ↦ rfl) hm
      have released := ensures_plain (only_request plain_release)
        (hu.after (r := .memory) m nofun)
      refine released.seq fun _ w hw ↦ ⟨hw, fun hlast ↦ ?_⟩
      rw [← of_decide_eq_true hlast, ← hu.1]
      exact hright.symm
    refine asks.seq fun last u ⟨hu, hlast⟩ ↦ ?_
    split
    · rename_i isLast
      exact hu.1.trans (hlast isLast)
    · exact ensures_trackedChange b ctx hu

end HashBoard.Ready
