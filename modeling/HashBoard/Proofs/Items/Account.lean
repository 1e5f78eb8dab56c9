import HashBoard.Proofs.Board.Registers
import HashBoard.Proofs.Scene.Memory
import HashBoard.Proofs.Search.Asks

/-!
# The item count along an epoch change

The hash core reduces numbers modulo the item count, which it needs together with a reciprocal. Both
are programmed at the beginning of every epoch change, before anything can fail, and a clock change
saves and restores them. So once an epoch change has come past its first part, the two registers
hold what its epoch needs, however it ends; and a change that is refused leaves them alone.

The account is what the two registers hold, what is remembered of the board, and the epoch of the
change that was begun last. Everything but the two registers and the event that begins a change is
framed off by what a request leaves alone.
-/

namespace HashBoard

/-- Number of items of a dataset, as it is programmed. -/
def Dag.items (size : UInt64) : Word := (size / Dag.itemBytes).toUInt32

/-- The epoch of the change that a request begins. -/
def Request.begun {ν : Type} : Request ν → Option Word
  | .note (.changingEpoch epoch) => some epoch
  | _ => none

/-- The epoch of the change that was begun last. -/
def lastBegun {ν : Type} (talk : List (Answered ν)) : Option Word :=
  talk.foldl (fun last said ↦ said.request.begun.or last) none

@[simp] theorem lastBegun_snoc {ν : Type} (talk : List (Answered ν)) (said : Answered ν) :
    lastBegun (talk ++ [said]) = said.request.begun.or (lastBegun talk) := by
  rw [lastBegun, List.foldl_append]
  rfl

namespace Items

open Routine Board

/-- What the registers hold, what is remembered, and the change that was begun last. -/
structure Account (ν : Type) where
  /-- The item count. -/
  count : Word
  /-- Its reciprocal. -/
  reciprocal : Word
  /-- What is remembered of the board. -/
  memory : Memory ν
  /-- The epoch of the change that was begun last. -/
  last : Option Word

variable {ν α : Type}

/-- The registers hold an item count and its reciprocal. -/
def Account.Holds (s : Account ν) (items : Word) : Prop :=
  s.count = items ∧ s.reciprocal = (Dag.itemReciprocal items).toUInt32

/-- The registers hold what the change that was begun last needs; before any change no epoch is
remembered. The size of a dataset depends on its epoch alone. -/
def Account.Current (size : Word → UInt64) (s : Account ν) : Prop :=
  (∀ epoch, s.last = some epoch → s.Holds (Dag.items (size epoch))) ∧
    (s.last = none → s.memory.lastEpoch = none)

/-- Neither the registers nor the last change differ. -/
structure Account.Alike (s t : Account ν) : Prop where
  count : t.count = s.count
  reciprocal : t.reciprocal = s.reciprocal
  last : t.last = s.last

theorem Account.Alike.trans {s t u : Account ν} (h : s.Alike t) (h' : t.Alike u) : s.Alike u :=
  ⟨h'.count.trans h.count, h'.reciprocal.trans h.reciprocal, h'.last.trans h.last⟩

theorem Account.Alike.holds {s t : Account ν} {items : Word} (h : s.Alike t) (hs : s.Holds items) :
    t.Holds items := ⟨h.count.trans hs.1, h.reciprocal.trans hs.2⟩

/-- The board is faithful about both registers. Others leave them alone, and the last epoch too. -/
def watch (ν : Type) : Watch ν (Account ν) where
  safe _ := True
  acts s r x t :=
    Recalls s.memory r x ∧
      Answered.Faithful Reg.itemCount s.count ⟨r, x⟩ ∧
      Answered.Faithful Reg.itemReciprocal s.reciprocal ⟨r, x⟩ ∧
      t.count = ((⟨r, x⟩ : Answered ν).leaves Reg.itemCount).getD s.count ∧
      t.reciprocal = ((⟨r, x⟩ : Answered ν).leaves Reg.itemReciprocal).getD s.reciprocal ∧
      t.memory = remembered s.memory r ∧ t.last = r.begun.or s.last
  drifts s t := s.Alike t ∧ t.memory.lastEpoch = s.memory.lastEpoch
  refl _ := ⟨⟨rfl, rfl, rfl⟩, rfl⟩
  trans h h' := ⟨h.1.trans h'.1, h'.2.trans h.2⟩
  safe_of_drifts _ h := h

variable {size : Word → UInt64} {s t : Account ν} {r : Request ν} {x : Reply r} {p : Routine ν α}

theorem current_of_drifts (hd : (watch ν).drifts s t) (hs : s.Current size) : t.Current size :=
  ⟨fun epoch h ↦ hd.1.holds (hs.1 epoch (hd.1.last ▸ h)), fun h ↦ hd.2.trans (hs.2 (hd.1.last ▸ h))⟩

/-! ## What leaves the registers alone -/

/-- A request that leaves both registers alone, however it is answered, and begins no change. -/
def Spares (r : Request ν) : Prop :=
  r.begun = none ∧ ∀ x : Reply r, (⟨r, x⟩ : Answered ν).leaves Reg.itemCount = none ∧
    (⟨r, x⟩ : Answered ν).leaves Reg.itemReciprocal = none

/-- A request that leaves the last epoch alone too. -/
def Keeps (r : Request ν) : Prop := Spares r ∧ ∀ m, (remembered m r).lastEpoch = m.lastEpoch

theorem alike_of_spares (hr : Spares r) (hm : (watch ν).moves s r x t) : s.Alike t := by
  obtain ⟨u, hd, -, -, -, hcount, hrecip, -, hlast⟩ := hm
  rw [(hr.2 x).1] at hcount
  rw [(hr.2 x).2] at hrecip
  rw [hr.1] at hlast
  exact hd.1.trans ⟨hcount, hrecip, hlast⟩

theorem drifts_of_keeps (hr : Keeps r) (hm : (watch ν).moves s r x t) : (watch ν).drifts s t := by
  refine ⟨alike_of_spares hr.1 hm, ?_⟩
  obtain ⟨u, hd, -, -, -, -, -, hmem, -⟩ := hm
  rw [hmem, hr.2]
  exact hd.2

theorem ensures_alike (h : p.Only Spares) (s : Account ν) :
    p.Ensures (watch ν) (fun _ t ↦ s.Alike t) s :=
  h.ensures (R := s.Alike) ⟨rfl, rfl, rfl⟩ (fun _ _ ↦ trivial) (fun _ _ _ _ ↦ trivial)
    fun _ _ _ _ ht hr hm ↦ ht.trans (alike_of_spares hr hm)

theorem ensures_drifts (h : p.Only Keeps) (s : Account ν) :
    p.Ensures (watch ν) (fun _ t ↦ (watch ν).drifts s t) s :=
  h.ensures (R := (watch ν).drifts s) ((watch ν).refl s) (fun _ _ ↦ trivial)
    (fun _ _ _ _ ↦ trivial) fun _ _ _ _ ht hr hm ↦ (watch ν).trans ht (drifts_of_keeps hr hm)

/-- A routine that begins no change leaves open what the registers hold. -/
theorem ensures_last (h : p.Only fun r ↦ r.begun = none) (s : Account ν) :
    p.Ensures (watch ν) (fun _ t ↦ t.last = s.last) s := by
  refine h.ensures (R := fun t : Account ν ↦ t.last = s.last) rfl (fun _ _ ↦ trivial)
    (fun _ _ _ _ ↦ trivial)
    fun t r x u ht hr hm ↦ ?_
  obtain ⟨v, hd, -, -, -, -, -, -, hlast⟩ := hm
  rw [hr] at hlast
  exact (hlast.trans hd.1.last).trans ht

/-! ### Requests by kind -/

theorem begun_of_isQuiet (h : r.isQuiet) : r.begun = none := by
  unfold Request.begun
  split
  · simp [Request.isQuiet, Event.isMilestone] at h
  · rfl

theorem spares_of_isQuiet (h : r.isQuiet) : Spares r := by
  refine ⟨begun_of_isQuiet h, fun x ↦ ?_⟩
  cases r with
  | call c =>
    cases c with
    | write value addr | writeBulk bytes addr swap => simp [Request.isQuiet] at h
    | _ => exact ⟨rfl, rfl⟩
  | _ => exact ⟨rfl, rfl⟩

theorem keeps_of_isQuiet (h : r.isQuiet) : Keeps r := by
  refine ⟨spares_of_isQuiet h, fun m ↦ ?_⟩
  cases r with
  | revise f => simp [Request.isQuiet] at h
  | _ => rfl

theorem keeps_note {event : Event ν} (h : ∀ epoch, event ≠ .changingEpoch epoch) :
    Keeps (.note event) := by
  refine ⟨⟨?_, fun _ ↦ ⟨rfl, rfl⟩⟩, fun _ ↦ rfl⟩
  unfold Request.begun
  split
  · rename_i epoch hevent
    cases hevent
    exact absurd rfl (h epoch)
  · rfl

theorem keeps_write {value addr : Word} (hc : addr ≠ Reg.itemCount)
    (hr : addr ≠ Reg.itemReciprocal) : Keeps (.call (.write value addr) : Request ν) := by
  refine ⟨⟨rfl, fun x ↦ ?_⟩, fun _ ↦ rfl⟩
  cases x with
  | ok => simp [Answered.leaves, hc, hr]
  | error fault => exact ⟨rfl, rfl⟩

/-- The eight words of a hash lie in front of a register or behind it. -/
theorem keeps_writeHash {hash : List UInt8} (hlen : hash.length = 32) {addr : Word} {swap : Bool}
    (hc : 32 ≤ (Reg.itemCount - addr).toNat) (hr : 32 ≤ (Reg.itemReciprocal - addr).toNat) :
    Keeps (.call (.writeBulk hash addr swap) : Request ν) := by
  have hwords : (SimulatedBoard.wordsOfBytes swap hash).length = 8 := by
    rw [SimulatedBoard.length_wordsOfBytes, hlen]
  have beyond {n : Nat} (h : 32 ≤ n) : (SimulatedBoard.wordsOfBytes swap hash)[n / 4]? = none := by
    rw [List.getElem?_eq_none_iff, hwords]
    omega
  refine ⟨⟨rfl, fun x ↦ ?_⟩, fun _ ↦ rfl⟩
  cases x with
  | ok => simp [Answered.leaves, beyond hc, beyond hr]
  | error fault => exact ⟨rfl, rfl⟩

theorem spares_revise (f : Memory ν → Memory ν) : Spares (.revise f) :=
  ⟨rfl, fun _ ↦ ⟨rfl, rfl⟩⟩

theorem keeps_reviseStatus (f : Status ν → Status ν) : Keeps (.revise fun m ↦ m.withStatus f) :=
  ⟨spares_revise _, fun _ ↦ rfl⟩

theorem keeps_books {f : Memory ν → Memory ν} (h : Bookkeeping f) : Keeps (.revise f) :=
  ⟨spares_revise f, fun m ↦ (h m).lastEpoch⟩

end Items

end HashBoard
