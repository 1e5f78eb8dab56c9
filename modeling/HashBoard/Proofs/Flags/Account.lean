import HashBoard.Proofs.Scene.Memory
import HashBoard.Proofs.Search.Asks

/-!
# The two flags through an errand

A board is busy while its epoch is changed, and from a halt on. So outside an epoch change the two
flags are the same, and inside one the board is busy whether it is halted or not. An epoch change
raises one flag at its beginning and sets it to the other one at its end, on every way out. A halt
that comes meanwhile raises both, so that nothing has to be known about when it comes.

The account is what is remembered, and whether an epoch change is under way.
-/

namespace HashBoard.Flags

open Routine Board

/-- What is remembered, and whether the epoch is being changed. -/
structure Account (ν : Type) where
  /-- What is remembered of the board. -/
  memory : Memory ν
  /-- An epoch change is under way. -/
  preparing : Bool

variable {ν α : Type} {s t u : Account ν}

namespace Account

/-- The flags are the same. -/
def Even (s : Account ν) : Prop := s.memory.busy = s.memory.halted

/-- A halted board is busy, and a busy board is halted or its epoch is being changed. -/
structure InStep (s : Account ν) : Prop where
  busy : s.memory.halted → s.memory.busy
  reason : s.memory.busy → s.memory.halted ∨ s.preparing

/-- The flags are as they were, or both are raised. -/
def Leads (s t : Account ν) : Prop :=
  t.preparing = s.preparing ∧
    (t.memory.busy = s.memory.busy ∧ t.memory.halted = s.memory.halted ∨
      t.memory.busy ∧ t.memory.halted)

theorem Even.inStep (h : s.Even) : s.InStep := by
  rw [Even] at h
  constructor
  · rw [h]
    exact id
  · rw [h]
    exact .inl

theorem Leads.trans (h : s.Leads t) (h' : t.Leads u) : s.Leads u := by
  refine ⟨h'.1.trans h.1, ?_⟩
  rcases h'.2 with ⟨hbusy, hhalted⟩ | hboth
  · rw [hbusy, hhalted]
    exact h.2
  · exact .inr hboth

theorem Leads.even (h : s.Leads t) (hs : s.Even) : t.Even := by
  rw [Even] at hs ⊢
  rcases h.2 with ⟨hbusy, hhalted⟩ | ⟨hbusy, hhalted⟩
  · rw [hbusy, hhalted, hs]
  · rw [hbusy, hhalted]

theorem Leads.inStep (h : s.Leads t) (hs : s.InStep) : t.InStep := by
  rcases h.2 with ⟨hbusy, hhalted⟩ | ⟨hbusy, hhalted⟩
  · constructor
    · rw [hbusy, hhalted]
      exact hs.busy
    · rw [hbusy, hhalted, h.1]
      exact hs.reason
  · exact ⟨fun _ ↦ hbusy, fun _ ↦ .inl hhalted⟩

end Account

/-- A request that never takes a halt back. -/
def KeepsHalt (r : Request ν) : Prop := ∀ m : Memory ν, m.halted → (remembered m r).halted

/-- The flags are in step all the time, and the owner takes no halt back. -/
def watch (ν : Type) : Watch ν (Account ν) where
  safe := Account.InStep
  allows _ := KeepsHalt
  acts s r _ t := t.memory = remembered s.memory r ∧ t.preparing = s.preparing
  drifts s t := s.memory.Follows t.memory ∧ t.preparing = s.preparing
  refl _ := ⟨.refl _, rfl⟩
  trans h h' := ⟨h.1.trans h'.1, h'.2.trans h.2⟩
  safe_of_drifts h hs := Account.Leads.inStep ⟨h.2, h.1.flags⟩ hs
  allows_of_drifts _ hr := hr

theorem leads_of_drifts (h : (watch ν).drifts s t) : s.Leads t := ⟨h.2, h.1.flags⟩

/-! ## What leaves the flags in step -/

/-- A request that leaves the flags as they are, or raises both. -/
def Aligned (r : Request ν) : Prop :=
  ∀ m : Memory ν, (remembered m r).busy = m.busy ∧ (remembered m r).halted = m.halted ∨
    (remembered m r).busy ∧ (remembered m r).halted

theorem keepsHalt_of_aligned {r : Request ν} (h : Aligned r) : KeepsHalt r := by
  intro m hm
  rcases h m with ⟨-, hhalted⟩ | hboth
  · rw [hhalted]
    exact hm
  · exact hboth.2

theorem leads_of_aligned {r : Request ν} {x : Reply r} (h : Aligned r)
    (hm : (watch ν).moves s r x t) : s.Leads t := by
  obtain ⟨u, hd, hmemory, hpreparing⟩ := hm
  refine (leads_of_drifts hd).trans ⟨hpreparing, ?_⟩
  rw [hmemory]
  exact h u.memory

theorem aligned_of_isQuiet {r : Request ν} (h : r.isQuiet) : Aligned r := by
  intro m
  rw [remembered_of_isQuiet h]
  exact .inl ⟨rfl, rfl⟩

theorem aligned_of_bookkeeping (f : Memory ν → Memory ν) (h : Bookkeeping f) :
    Aligned (.revise f) := fun m ↦ (follows_of_bookkeeping h m).flags

theorem aligned_of_averaging (f : Memory ν → Memory ν) (h : Averaging f) :
    Aligned (.revise f) := fun m ↦ .inl ⟨(h m).busy, (h m).halted⟩

theorem aligned_reviseStatus (f : Status ν → Status ν) :
    Aligned (.revise fun m ↦ m.withStatus f) := fun _ ↦ .inl ⟨rfl, rfl⟩

/-- A request that leaves what is remembered as it is. -/
theorem aligned_of_same {r : Request ν} (h : ∀ m, remembered m r = m) : Aligned r := by
  intro m
  rw [h]
  exact .inl ⟨rfl, rfl⟩

theorem roomToChange_aligned : RoomToChange (Aligned : Request ν → Prop) where
  quiet _ := aligned_of_isQuiet
  preparing := aligned_of_same fun _ ↦ rfl
  enter := aligned_reviseStatus _
  changing _ := aligned_of_same fun _ ↦ rfl
  clocks _ _ := aligned_of_same fun _ ↦ rfl
  clock _ _ := .inl ⟨rfl, rfl⟩
  books := aligned_of_bookkeeping
  writes _ _ _ := aligned_of_same fun _ ↦ rfl
  stop := aligned_of_same fun _ ↦ rfl
  release := aligned_of_same fun _ ↦ rfl
  build :=
    { quiet := fun _ ↦ aligned_of_isQuiet
      phases := fun _ ↦ aligned_of_same fun _ ↦ rfl
      overdue := fun _ ↦ aligned_of_same fun _ ↦ rfl
      enters := fun _ ↦ aligned_reviseStatus _
      looks := aligned_of_same fun _ ↦ rfl
      acquire := aligned_of_same fun _ ↦ rfl
      release := aligned_of_same fun _ ↦ rfl
      status := aligned_of_same fun _ ↦ rfl
      writes := fun _ _ _ ↦ aligned_of_same fun _ ↦ rfl
      seed := fun _ ↦ aligned_of_same fun _ ↦ rfl
      uploads := fun _ _ ↦ aligned_of_same fun _ ↦ rfl
      moves := fun _ _ _ ↦ aligned_of_same fun _ ↦ rfl }
  resident := aligned_of_same fun _ ↦ rfl
  epoch _ _ := .inl ⟨rfl, rfl⟩
  startTune _ := aligned_of_same fun _ ↦ rfl

theorem roomToSearch_aligned {work : Work} :
    RoomToSearch (Aligned : Request ν → Prop) work where
  quiet _ := aligned_of_isQuiet
  programmed _ _ _ := aligned_of_same fun _ ↦ rfl
  stall := aligned_of_same fun _ ↦ rfl
  slots _ _ := aligned_of_same fun _ ↦ rfl
  checks _ _ := aligned_of_same fun _ ↦ rfl
  interrupts _ _ := aligned_of_same fun _ ↦ rfl
  looks := aligned_of_same fun _ ↦ rfl
  tunes _ := aligned_of_same fun _ ↦ rfl
  averages := aligned_of_averaging
  books := aligned_of_bookkeeping
  searching _ := aligned_reviseStatus _
  halt _ := .inr ⟨rfl, rfl⟩
  acquire := aligned_of_same fun _ ↦ rfl
  release := aligned_of_same fun _ ↦ rfl
  writes _ _ _ := aligned_of_same fun _ ↦ rfl
  header := aligned_of_same fun _ ↦ rfl
  target _ := aligned_of_same fun _ ↦ rfl
  submits _ _ := aligned_of_same fun _ ↦ rfl

/-! ## The errands -/

/-- The flags are in step and an epoch change is under way. -/
def Changing (s : Account ν) : Prop := s.InStep ∧ s.preparing

theorem ensures_even {p : Routine ν α} (h : p.Only Aligned) (hs : s.Even) :
    p.Ensures (watch ν) (fun _ ↦ Account.Even) s := by
  refine h.ensures hs (fun _ ht ↦ ht.inStep) (fun _ _ _ hr ↦ keepsHalt_of_aligned hr) ?_
  intro t r x u ht hr hm
  exact (leads_of_aligned hr hm).even ht

theorem ensures_changing {p : Routine ν α} (h : p.Only Aligned) (hs : Changing s) :
    p.Ensures (watch ν) (fun _ ↦ Changing) s := by
  refine h.ensures hs (fun _ ht ↦ ht.1) (fun _ _ _ hr ↦ keepsHalt_of_aligned hr) ?_
  intro t r x u ht hr hm
  have hleads := leads_of_aligned hr hm
  refine ⟨hleads.inStep ht.1, ?_⟩
  rw [hleads.1]
  exact ht.2

/-- The beginning of an epoch change: the board is busy for a reason. -/
theorem ensures_raiseBusy (hs : s.Even) (preparing : s.preparing) :
    (revise fun m ↦ { m with busy := true }).Ensures (watch ν) (fun _ ↦ Changing) s := by
  refine ⟨hs.inStep, fun _ hm ↦ hm, ?_⟩
  rintro - t ⟨u, hd, hmemory, hpreparing⟩
  have hkept : t.preparing := by
    rw [hpreparing, hd.2]
    exact preparing
  have hbusy : t.memory.busy := by
    rw [hmemory]
    rfl
  exact ⟨⟨fun _ ↦ hbusy, fun _ ↦ .inr hkept⟩, hkept⟩

/-- The end of an epoch change: the board is busy if it is halted. -/
theorem ensures_settleBusy (hs : Changing s) :
    (revise fun m ↦ { m with busy := m.halted }).Ensures (watch ν) (fun _ ↦ Account.Even) s := by
  refine ⟨hs.1, fun _ hm ↦ hm, ?_⟩
  rintro - t ⟨u, -, hmemory, -⟩
  change t.memory.busy = t.memory.halted
  rw [hmemory]
  rfl

variable [Quantity ν]

theorem ensures_trackedChange (b : Board) (ctx : EpochContext) (hs : s.Even)
    (preparing : s.preparing) :
    (b.trackedChange ctx).Ensures (watch ν) (fun _ ↦ Account.Even) s := by
  have room : RoomToChange (Aligned : Request ν → Prop) := roomToChange_aligned
  refine (ensures_raiseBusy hs preparing).seq fun _ t ht ↦ ?_
  refine (ensures_changing (only_changeEpoch room b ctx) ht).seq fun x t ht ↦ ?_
  refine (ensures_settleBusy ht).seq fun _ t ht ↦ ?_
  refine ensures_even ?_ ht
  cases x with
  | ok outcome =>
    refine (only_note room.quiet rfl).bind fun _ ↦ ?_
    exact Only.bind (only_request (aligned_reviseStatus _)) fun _ ↦ trivial
  | error e =>
    refine (only_note room.quiet rfl).bind fun _ ↦ ?_
    exact (only_enter (room.build.enters _) (room.build.phases _)).bind fun _ ↦ trivial

theorem ensures_prepareEpoch (b : Board) (ctx : EpochContext) (hs : s.Even)
    (preparing : s.preparing) :
    (b.prepareEpoch ctx).Ensures (watch ν) (fun _ ↦ Account.Even) s := by
  have room : RoomToChange (Aligned : Request ν → Prop) := roomToChange_aligned
  -- that a change is under way is only needed where the change begins
  have keep {α : Type} {p : Routine ν α} {t : Account ν} (h : p.Only Aligned) (ht : t.Even)
      (preparing : t.preparing) :
      p.Ensures (watch ν) (fun _ u ↦ u.Even ∧ u.preparing) t := by
    refine (ensures_even h ht).keep preparing ?_
    rintro v w r x hv ⟨u, hd, -, hpreparing⟩
    rw [hpreparing, hd.2]
    exact hv
  refine (keep (only_request (aligned_of_isQuiet (r := .memory) rfl)) hs preparing).seq ?_
  intro m t ht
  split
  · refine (ensures_even (only_note room.quiet rfl) ht.1).seq fun _ u hu ↦ hu
  · have last : (isLastEpoch ctx.epoch : Routine ν _).Only Aligned :=
      ⟨room.build.acquire, fun _ ↦ ⟨room.quiet _ rfl, fun _ ↦ ⟨room.build.release, fun _ ↦
        trivial⟩⟩⟩
    refine (keep last ht.1 ht.2).seq fun isLast u hu ↦ ?_
    split
    · exact hu.1
    · exact ensures_trackedChange b ctx hu.1 hu.2

theorem ensures_search (b : Board) (work : Work) (hs : s.Even) :
    (b.search work).Ensures (watch ν) (fun _ ↦ Account.Even) s :=
  ensures_even (only_search roomToSearch_aligned b) hs

end HashBoard.Flags
