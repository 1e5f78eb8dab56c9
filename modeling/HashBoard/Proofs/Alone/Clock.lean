import HashBoard.Proofs.Alone.Completes

/-!
# A clock change leaves no trace

A routine is confined to some registers if it changes no others when nothing goes wrong, and gives
the lock back as it took it. A clock change writes the item count, its reciprocal and the power of
the generator as well, but what it writes there in the end is what it found: it is confined to the
registers of the clock generator, whether it goes through or the settings are of no use.
-/

namespace HashBoard

open Routine

variable {ν α β : Type} {s t u : View ν} {A B : Word → Prop}

/-- Only some registers changed. -/
structure View.Changes (A : Word → Prop) (s t : View ν) : Prop where
  register : ∀ addr, ¬A addr → t.register addr = s.register addr
  marks : t.marks = s.marks
  held : t.held = s.held

namespace View.Changes

theorem refl (s : View ν) : s.Changes A s := ⟨fun _ _ ↦ rfl, rfl, rfl⟩

theorem trans (h : s.Changes A t) (h' : t.Changes A u) : s.Changes A u where
  register addr haddr := (h'.register addr haddr).trans (h.register addr haddr)
  marks := h'.marks.trans h.marks
  held := h'.held.trans h.held

theorem mono (h : s.Changes A t) (hA : ∀ addr, A addr → B addr) : s.Changes B t where
  register addr haddr := h.register addr fun h' ↦ haddr (hA addr h')
  marks := h.marks
  held := h.held

theorem put (h : s.Changes A t) (addr value : Word) (haddr : A addr) (hne : addr ≠ Reg.dagStatus) :
    s.Changes A (t.put addr value) where
  register addr' haddr' := by
    have hne' : addr ≠ addr' := fun h ↦ haddr' (h ▸ haddr)
    rw [View.register_put, if_neg hne', h.register addr' haddr']
  marks := by
    rw [View.put]
    dsimp only
    rw [if_neg hne, h.marks]
  held := h.held

end View.Changes

namespace Routine

variable [Quantity ν] {p : Routine ν α} {f : α → Routine ν β} {Q : α → View ν → Prop}

/-- Whoever has the lock comes to the end of the routine, and only some registers changed. -/
def Confined (A : Word → Prop) (p : Routine ν α) : Prop :=
  ∀ s : View ν, s.held → p.Completes (fun _ t ↦ s.Changes A t) s

theorem Confined.completes (h : p.Confined A) (held : s.held) (hQ : ∀ a t, s.Changes A t → Q a t) :
    p.Completes Q s := (h s held).mono hQ

theorem confined_done (a : α) : (done a : Routine ν α).Confined A :=
  fun s _ ↦ completes_done (.refl s)

theorem Confined.bind (h : p.Confined A) (hf : ∀ a, (f a).Confined A) : (p.bind f).Confined A := by
  refine fun s held ↦ (h s held).seq fun a t ht ↦ ?_
  exact (hf a).completes (ht.held.trans held) fun b u hu ↦ ht.trans hu

theorem confined_forEach {ι : Type} {routine : ι → Routine ν Unit} (h : ∀ i, (routine i).Confined A)
    (list : List ι) : (forEach routine list).Confined A := by
  induction list with
  | nil => exact confined_done ()
  | cons i rest ih => exact (h i).bind fun _ ↦ ih

theorem confined_note (event : Event ν) : (note event).Confined A :=
  fun s _ ↦ completes_note event (.refl s)

theorem confined_revise (g : Memory ν → Memory ν) : (revise g).Confined A :=
  fun _ _ ↦ completes_revise g ⟨fun _ _ ↦ rfl, rfl, rfl⟩

theorem confined_sleep (span : Micros) : (sleep span : Routine ν _).Confined A :=
  fun s _ ↦ completes_sleep span (.refl s)

theorem confined_read {addr : Word} (haddr : addr ∈ Reg.consulted) :
    (read addr : Routine ν _).Confined A := fun s _ ↦ completes_read haddr (.refl s)

theorem confined_tryWrite {addr : Word} (hwrite : Reg.isProgrammed addr) (haddr : A addr)
    (hne : addr ≠ Reg.dagStatus) (value : Word) (what : String) :
    (tryWrite value addr what : Routine ν _).Confined A :=
  fun s _ ↦ completes_tryWrite hwrite ((View.Changes.refl s).put addr value haddr hne)

/-- A write to a register that preparing the core writes. -/
theorem confined_writeSetup {addr : Word} (hsetup : addr ∈ Reg.setup) (haddr : A addr)
    (value : Word) (what : String) : (tryWrite value addr what : Routine ν _).Confined A := by
  obtain ⟨hwrite, hne⟩ := Reg.isProgrammed_of_setup hsetup
  exact confined_tryWrite hwrite haddr hne value what

/-- The lock is given back and taken again. -/
theorem confined_suspend (span : Micros) : (suspend span : Routine ν _).Confined A := by
  refine fun s held ↦ .bind (completes_release (.bind (completes_sleep span ?_)))
  exact completes_acquire rfl ⟨fun _ _ ↦ rfl, rfl, held.symm⟩

/-- The words of a hash go to the registers of the seed. -/
theorem completes_writeHash {bytes : List UInt8} (hbytes : bytes.length = 32)
    {Q : Except LinkFault Unit → View ν → Prop}
    (h : ∀ t : View ν, s.Changes (fun addr ↦ Reg.isSeed addr) t → Q (.ok ()) t) :
    (writeHash bytes Reg.cacheSeed).Completes Q s := by
  refine completes_call (by nofun) fun b hb ↦ ?_
  let words := SimulatedBoard.wordsOfBytes true bytes
  let t : View ν :=
    { s with register := (SimulatedBoard.setRegisters Reg.cacheSeed words b).register }
  have hchanges : s.Changes (fun addr ↦ Reg.isSeed addr) t := by
    refine ⟨fun addr haddr ↦ ?_, rfl, rfl⟩
    have hlength : 4 * words.length ≤ (addr - Reg.cacheSeed).toNat := by
      rw [SimulatedBoard.length_wordsOfBytes, hbytes]
      simpa [Reg.isSeed] using haddr
    exact (SimulatedBoard.register_setRegisters hlength).trans (congrFun hb.register addr)
  have hperform : b.perform (.writeBulk bytes Reg.cacheSeed true) =
      ({ SimulatedBoard.setRegisters Reg.cacheSeed words b with
          bulkWrites := (Reg.cacheSeed, bytes, true) ::
            (SimulatedBoard.setRegisters Reg.cacheSeed words b).bulkWrites }, .ok ()) := by
    rw [SimulatedBoard.perform, SimulatedBoard.writeBulk,
      if_neg (hb.intact.writable Reg.cacheSeed (by decide))]
  have hset := hb.intact.setRegisters Reg.cacheSeed words
  rw [hperform]
  refine ⟨t, ⟨hset.recorded .., rfl, ?_⟩, rfl, rfl, h t hchanges⟩
  have hmarks := hb.marks
  rw [SimulatedBoard.writesTo] at hmarks ⊢
  rwa [SimulatedBoard.writes_setRegisters]

/-! ## The clock generator -/

/-- A write to the clock generator. -/
theorem confined_writeClock {addr : Word} (haddr : addr ∈ Reg.clockGenerator) (value : Word)
    (what : String) : (tryWrite value addr what : Routine ν _).Confined (· ∈ Reg.clockGenerator) :=
  confined_writeSetup (Reg.mem_setup haddr) haddr value what

theorem confined_readPll : (readPll : Routine ν _).Confined A := by
  refine (confined_read (by decide)).bind fun x ↦ ?_
  cases x with
  | error fault => exact (confined_note _).bind fun _ ↦ confined_done _
  | ok vco =>
    refine (confined_read (by decide)).bind fun x ↦ ?_
    cases x with
    | error fault => exact (confined_note _).bind fun _ ↦ confined_done _
    | ok clk =>
      dsimp only
      split
      · exact (confined_note _).bind fun _ ↦ confined_done _
      · exact confined_done _

theorem confined_awaitLock (n : Nat) : (awaitLock n : Routine ν _).Confined A := by
  induction n with
  | zero => exact confined_done _
  | succ n ih =>
    refine (confined_read (by decide)).bind fun x ↦ ?_
    cases x with
    | error fault => exact ih
    | ok status =>
      dsimp only
      split
      · exact ih
      · exact confined_done _

theorem confined_settleClock : (settleClock : Routine ν _).Confined A := by
  refine (confined_awaitLock _).bind fun locked ↦ ?_
  split
  · exact confined_done _
  · exact confined_note _

theorem confined_resetClock : (resetClock : Routine ν _).Confined (· ∈ Reg.clockGenerator) := by
  refine (confined_note _).bind fun _ ↦ ?_
  refine (confined_writeClock (by decide) _ _).bind fun _ ↦ ?_
  refine (confined_writeClock (by decide) _ _).bind fun _ ↦ ?_
  exact (confined_sleep _).bind fun _ ↦ confined_writeClock (by decide) _ _

theorem confined_programDivisor (pll : PllReading ν) (mhz : ν) :
    (programDivisor pll mhz).Confined (· ∈ Reg.clockGenerator) := by
  rw [programDivisor]
  split
  · refine (confined_writeClock (by decide) _ _).bind fun _ ↦ ?_
    refine (confined_writeClock (by decide) _ _).bind fun _ ↦ ?_
    refine (confined_writeClock (by decide) _ _).bind fun _ ↦ ?_
    refine (confined_writeClock (by decide) _ _).bind fun _ ↦ ?_
    exact (confined_revise _).bind fun _ ↦ (confined_note _).bind fun _ ↦ confined_done _
  · exact (confined_note _).bind fun _ ↦ confined_done _
  · exact (confined_note _).bind fun _ ↦ confined_done _

theorem confined_readStock (before : ν) : (readStock before).Confined A := by
  refine confined_readPll.bind fun pll ↦ ?_
  cases pll with
  | some pll => exact (confined_revise _).bind fun _ ↦ confined_done _
  | none => exact (confined_note _).bind fun _ ↦ confined_done _

/-- **What a clock change would lose is there afterwards.** -/
theorem confined_changingClock {change : Routine ν ν}
    (h : change.Confined (· ∈ Reg.clockGenerator)) :
    (changingClock change).Confined (· ∈ Reg.clockGenerator) := by
  intro s held
  refine .bind (completes_readOr (by decide) ?_)
  refine .bind (completes_readOr (by decide) ?_)
  refine .bind (completes_readOr (by decide) ?_)
  refine .bind (completes_tryWrite (by decide) ?_)
  refine .bind (h.completes held fun clock t ht ↦ ?_)
  refine .bind (completes_tryWrite (by decide) ?_)
  refine .bind (completes_tryWrite (by decide) ?_)
  refine .bind (completes_tryWrite (by decide) ?_)
  refine .bind (completes_revise _ (completes_done ⟨fun addr haddr ↦ ?_, ht.marks, ht.held⟩))
  -- the power was switched on before the change, so what the change leaves alone is what was there
  have hchange := ht.register addr haddr
  simp only [View.register_put] at hchange ⊢
  split
  · next hpower => rw [← hpower, SimulatedBoard.finished_of_ne (by decide) (by decide)]
  · next hpower =>
    rw [if_neg hpower] at hchange
    split
    · next hreciprocal => rw [← hreciprocal, SimulatedBoard.finished_of_ne (by decide) (by decide)]
    · split
      · next hitems => rw [← hitems, SimulatedBoard.finished_of_ne (by decide) (by decide)]
      · exact hchange

theorem confined_setClock (request : ClockRequest ν) :
    (setClock request).Confined (· ∈ Reg.clockGenerator) := by
  refine confined_readPll.bind fun pll ↦ ?_
  cases pll with
  | none => exact (confined_note _).bind fun _ ↦ confined_done _
  | some pll =>
    cases request with
    | read => exact (confined_revise _).bind fun _ ↦ confined_done _
    | stock =>
      refine confined_changingClock (confined_resetClock.bind fun _ ↦ ?_)
      exact confined_settleClock.bind fun _ ↦ confined_readStock _
    | target mhz =>
      refine confined_changingClock ((confined_programDivisor pll mhz).bind fun clock ↦ ?_)
      exact confined_settleClock.bind fun _ ↦ confined_done _

end Routine

end HashBoard
