import HashBoard.Proofs.Epoch.Asks
import HashBoard.Proofs.Scene.Memory
import HashBoard.Proofs.Search.Asks

/-!
# The phases of an epoch change

`EpochPhase.Leads` is the diagram of the phases. Onlookers are told a phase and an epoch, and nobody
but the owner touches what they are told of either. So it is enough to follow the owner: the account
is what is told, the epoch that is remembered, and how far the change under way is. The watch lets
through what stays in a phase or goes along an arrow of the diagram, and what is asked in a single
phase only is let through in that phase.
-/

namespace HashBoard

/-- A phase between changes. -/
def EpochPhase.IsRest (p : EpochPhase) : Prop := p = .idle ∨ p = .done

/-- The arrows of the diagram, for a way to get at the light cache. -/
inductive EpochPhase.Leads (strategy : CacheStrategy) : EpochPhase → EpochPhase → Prop
  | begins {p : EpochPhase} : p.IsRest → Leads strategy p .preparing
  | resides : Leads strategy .preparing .done
  | derives : strategy = .onChip → Leads strategy .preparing .onChipCache
  | uploads : strategy = .upload → Leads strategy .preparing .cacheUpload
  | divides {p : EpochPhase} : p = .onChipCache ∨ p = .cacheUpload →
    Leads strategy p .itemsPartitioned
  | generates : Leads strategy .itemsPartitioned .generating
  | spreads : Leads strategy .generating .duplicating
  | concludes : Leads strategy .duplicating .done
  | fails {p : EpochPhase} : ¬p.IsRest → Leads strategy p .idle

/-- The registers that hold the ranges of the mixers. -/
def Reg.mixers : List Word :=
  (List.range Reg.maxMixers.toNat).flatMap fun k ↦
    [Reg.mixerStart (UInt32.ofNat k), Reg.mixerEnd (UInt32.ofNat k)]

variable {ν : Type}

/-- The phase that a request belongs in, if it belongs in a single one: the generator is started
while generating, device memory is copied while duplicating, and the ranges are programmed while the
items are partitioned. -/
def Request.ownPhase? : Request ν → Option EpochPhase
  | .call (.write value addr) =>
    if value = Reg.dagStart ∧ addr = Reg.dagControl then some .generating
    else if addr ∈ Reg.mixers then some .itemsPartitioned
    else none
  | .call (.move ..) => some .duplicating
  | _ => none

/-- Whether a request announces the first phase of a change. -/
def Request.isEntry : Request ν → Bool
  | .note (.phase .preparing) => true
  | _ => false

theorem Request.ownPhase?_of_isQuiet {r : Request ν} (h : r.isQuiet) : r.ownPhase? = none := by
  cases r with
  | call c =>
    cases c with
    | write | move => cases h
    | _ => rfl
  | _ => rfl

theorem Request.ownPhase?_write {value addr : Word} (hcontrol : addr ≠ Reg.dagControl)
    (hmixers : addr ∉ Reg.mixers) : (.call (.write value addr) : Request ν).ownPhase? = none := by
  simp [ownPhase?, hcontrol, hmixers]

/-- What guests and the kicker ask belongs in no phase. -/
theorem Request.ownPhase?_of_modest {r : Request ν} (h : Modest r) : r.ownPhase? = none := by
  cases h with
  | quiet h => exact Request.ownPhase?_of_isQuiet h
  | coreFlags value => exact Request.ownPhase?_write (by decide) (by decide)
  | _ => rfl

namespace Phases

open Routine Board

/-! ## The stage of a change -/

/-- How far the change under way is. -/
inductive Stage
  /-- There is none. -/
  | none
  /-- It has not entered its first phase, and found the board in some phase. -/
  | begun (found : EpochPhase)
  /-- It has entered its first phase. -/
  | entered

/-- The stage after a request of the owner. -/
def Stage.upon : Stage → Request ν → Stage
  | .begun found, r => if r.isEntry then .entered else .begun found
  | stage, _ => stage

theorem Stage.upon_of_not_isEntry (stage : Stage) {r : Request ν} (h : r.isEntry = false) :
    stage.upon r = stage := by
  cases stage with
  | begun found => simp [Stage.upon, h]
  | none | entered => rfl

/-- The stage after what the owner said. -/
def Stage.along (stage : Stage) (talk : List (Answered ν)) : Stage :=
  talk.foldl (fun stage said ↦ stage.upon said.request) stage

theorem Stage.along_cons (stage : Stage) (said : Answered ν) (talk : List (Answered ν)) :
    stage.along (said :: talk) = (stage.upon said.request).along talk := rfl

theorem eq_of_isEntry {said : Answered ν} (h : said.request.isEntry) :
    said = ⟨.note (.phase .preparing), ()⟩ := by
  obtain ⟨r, x⟩ := said
  have hr : r.isEntry := h
  rw [Request.isEntry.eq_def] at hr
  split at hr
  · rfl
  · cases hr

theorem along_entered (talk : List (Answered ν)) : Stage.entered.along talk = .entered := by
  induction talk with
  | nil => rfl
  | cons said talk ih => exact ih

theorem along_none (talk : List (Answered ν)) : Stage.none.along talk = .none := by
  induction talk with
  | nil => rfl
  | cons said talk ih => exact ih

theorem along_of_mem {talk : List (Answered ν)} (found : EpochPhase)
    (h : ⟨.note (.phase .preparing), ()⟩ ∈ talk) :
    (Stage.begun found).along talk = .entered := by
  induction talk with
  | nil => cases h
  | cons said talk ih =>
    rw [Stage.along_cons, Stage.upon]
    split
    · exact along_entered talk
    · rename_i hentry
      refine ih ((List.mem_cons.mp h).resolve_left ?_)
      rintro rfl
      exact hentry rfl

theorem along_of_not_mem {talk : List (Answered ν)} (found : EpochPhase)
    (h : ⟨.note (.phase .preparing), ()⟩ ∉ talk) :
    (Stage.begun found).along talk = .begun found := by
  induction talk with
  | nil => rfl
  | cons said talk ih =>
    rw [Stage.along_cons, Stage.upon_of_not_isEntry, ih (mt (.tail _) h)]
    by_contra hentry
    rw [Bool.not_eq_false] at hentry
    exact h (eq_of_isEntry hentry ▸ .head _)

/-! ## The account -/

/-- What onlookers are told of epochs, beside what is remembered and how far the change under way
is. -/
structure Account where
  /-- The phase that is told. -/
  phase : EpochPhase
  /-- The epoch that is told. -/
  told : Option Word
  /-- The epoch that is remembered. -/
  last : Option Word
  /-- How far the change under way is. -/
  stage : Stage

/-- The account of what is remembered, at some stage. -/
def Account.of (m : Memory ν) (stage : Stage) : Account :=
  ⟨m.status.phase, m.status.epoch, m.lastEpoch, stage⟩

variable {α : Type} {s t : Account} {strategy : CacheStrategy}

/-- The account is as it should be between changes. -/
structure Account.Settled (s : Account) : Prop where
  phase : s.phase.IsRest
  told : s.told = s.last

/-- What may be asked in a phase. -/
structure Fits (strategy : CacheStrategy) (p : EpochPhase) (r : Request ν) : Prop where
  /-- The phase stays, or goes along an arrow. -/
  leads : ∀ m : Memory ν, m.status.phase = p →
    (remembered m r).status.phase = p ∨ p.Leads strategy (remembered m r).status.phase
  /-- Nothing is asked that belongs in another phase. -/
  own : ∀ q ∈ r.ownPhase?, p = q

/-- Others leave the account alone. -/
def watch (strategy : CacheStrategy) (ν : Type) : Watch ν Account where
  safe s := s.stage = .none → s.Settled
  allows s r := Fits strategy s.phase r
  acts s r _ t := ∃ (m : Memory ν) (stage : Stage),
    s = .of m stage ∧ t = .of (remembered m r) (stage.upon r)
  drifts s t := t = s
  refl _ := rfl
  trans h h' := h'.trans h
  safe_of_drifts h hs := h ▸ hs
  allows_of_drifts h hr := h ▸ hr

/-! ## What leaves the account alone -/

/-- A request that may be asked and leaves the account alone. -/
structure Spares (s : Account) (r : Request ν) : Prop where
  phase : ∀ m : Memory ν, m.status.phase = s.phase → (remembered m r).status.phase = s.phase
  told : ∀ m : Memory ν, (remembered m r).status.epoch = m.status.epoch
  last : ∀ m : Memory ν, (remembered m r).lastEpoch = m.lastEpoch
  stage : s.stage.upon r = s.stage
  own : ∀ q ∈ r.ownPhase?, s.phase = q

theorem Spares.fits {r : Request ν} (h : Spares s r) : Fits strategy s.phase r :=
  ⟨fun m hm ↦ .inl (h.phase m hm), h.own⟩

theorem eq_of_moves {r : Request ν} {x : Reply r} (hr : Spares s r)
    (hm : (watch strategy ν).moves s r x t) : t = s := by
  obtain ⟨_, rfl, m, stage, rfl, rfl⟩ := hm
  have hstage : stage.upon r = stage := hr.stage
  rw [Account.of, hr.phase m rfl, hr.told, hr.last, hstage]
  rfl

/-- What leaves the account alone keeps whatever holds of it. -/
theorem ensures_kept {p : Routine ν α} {R : Account → Prop} (hs : R s)
    (safe : (watch strategy ν).safe s) (h : p.Only (Spares s)) :
    p.Ensures (watch strategy ν) (fun _ ↦ R) s := by
  refine (h.ensures (R := (· = s)) rfl ?_ ?_ ?_).mono fun _ t ht ↦ ht ▸ hs
  · rintro t rfl
    exact safe
  · rintro t r rfl hr
    exact hr.fits
  · rintro t r x u rfl hr hm
    exact eq_of_moves hr hm

/-- What belongs in no phase, announces no first phase and is remembered nowhere. -/
theorem spares_aside {r : Request ν} (own : r.ownPhase? = .none := by rfl)
    (entry : r.isEntry = false := by rfl)
    (plain : ∀ m : Memory ν, remembered m r = m := by exact fun _ ↦ rfl) : Spares s r where
  phase m hm := by rw [plain, hm]
  told m := by rw [plain]
  last m := by rw [plain]
  stage := s.stage.upon_of_not_isEntry entry
  own := by
    rw [own]
    nofun

theorem spares_of_isQuiet {r : Request ν} (h : r.isQuiet) : Spares s r := by
  refine spares_aside (Request.ownPhase?_of_isQuiet h) ?_ (remembered_of_isQuiet h)
  by_contra hentry
  rw [Bool.not_eq_false, Request.isEntry.eq_def] at hentry
  split at hentry
  · cases h
  · cases hentry

theorem spares_clock {event : Event ν} (h : event.isClock) : Spares s (.note event) := by
  refine spares_aside rfl ?_
  cases event with
  | phase => cases h
  | _ => rfl

/-- A change of what is remembered that has nothing to do with epochs. -/
theorem spares_revise {f : Memory ν → Memory ν}
    (phase : ∀ m : Memory ν, (f m).status.phase = m.status.phase)
    (told : ∀ m : Memory ν, (f m).status.epoch = m.status.epoch)
    (last : ∀ m : Memory ν, (f m).lastEpoch = m.lastEpoch) : Spares s (.revise f) where
  phase m hm := (phase m).trans hm
  told := told
  last := last
  stage := s.stage.upon_of_not_isEntry rfl
  own := nofun

theorem spares_books (f : Memory ν → Memory ν) (h : Bookkeeping f) : Spares s (.revise f) :=
  spares_revise (fun m ↦ (h m).status.phase) (fun m ↦ (h m).status.epoch) fun m ↦ (h m).lastEpoch

theorem spares_call {c : Call} (own : ∀ q ∈ (.call c : Request ν).ownPhase?, s.phase = q) :
    Spares s (.call c : Request ν) where
  phase _ hm := hm
  told _ := rfl
  last _ := rfl
  stage := s.stage.upon_of_not_isEntry rfl
  own := own

theorem spares_write {value addr : Word} (hcontrol : addr ≠ Reg.dagControl)
    (hmixers : addr ∉ Reg.mixers) : Spares s (.call (.write value addr) : Request ν) :=
  spares_aside (Request.ownPhase?_write hcontrol hmixers)

theorem spares_writes {addrs : List Word}
    (h : addrs.all fun addr ↦ addr ≠ Reg.dagControl ∧ addr ∉ Reg.mixers) (value : Word) :
    ∀ addr ∈ addrs, Spares s (.call (.write value addr) : Request ν) := by
  intro addr haddr
  obtain ⟨hcontrol, hmixers⟩ := of_decide_eq_true (List.all_eq_true.mp h addr haddr)
  exact spares_write hcontrol hmixers

theorem roomToClock_spares : RoomToClock (Spares s : Request ν → Prop) where
  quiet _ := spares_of_isQuiet
  clocks _ := spares_clock
  clock _ := spares_revise (fun _ ↦ rfl) (fun _ ↦ rfl) fun _ ↦ rfl
  writes := spares_writes (by decide)

theorem roomToPause_spares : RoomToPause (Spares s : Request ν → Prop) where
  quiet _ := spares_of_isQuiet
  looks := spares_aside
  acquire := spares_aside
  release := spares_aside

theorem roomToDerive_spares : RoomToDerive (Spares s : Request ν → Prop) where
  toRoomToPause := roomToPause_spares
  overdue := spares_aside
  writes := spares_writes (by decide)
  seed _ := spares_aside

theorem roomToAwait_spares : RoomToAwait (Spares s : Request ν → Prop) where
  toRoomToPause := roomToPause_spares
  overdue := spares_aside
  status := spares_aside

theorem roomToSearch_spares {work : Work} : RoomToSearch (Spares s : Request ν → Prop) work where
  quiet _ := spares_of_isQuiet
  programmed _ _ _ := spares_aside
  stall := spares_aside
  slots _ _ := spares_aside
  checks _ _ := spares_aside
  interrupts _ _ := spares_aside
  looks := spares_aside
  tunes _ := spares_aside
  averages _ h := spares_revise (fun m ↦ (h m).status.phase) (fun m ↦ (h m).status.epoch)
    fun m ↦ (h m).lastEpoch
  books := spares_books
  searching _ := spares_revise (fun _ ↦ rfl) (fun _ ↦ rfl) fun _ ↦ rfl
  halt := spares_revise (fun _ ↦ rfl) (fun _ ↦ rfl) fun _ ↦ rfl
  acquire := spares_aside
  release := spares_aside
  writes := spares_writes (by decide)
  header := spares_aside
  target _ := spares_aside
  submits _ _ := spares_aside

end Phases

end HashBoard
