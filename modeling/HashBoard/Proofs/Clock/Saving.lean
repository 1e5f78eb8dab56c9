import HashBoard.Proofs.Board.Answers
import HashBoard.Proofs.Scene.Rehearsal

/-!
# What a clock change saves

A clock change reads three parameters, changes the clock, and writes back what it read. A read that
fails is taken for a zero, and the zero is written back. So a parameter is what it was if it was
read, and otherwise zero.

The account is that of a single register that is told of truthfully: what it holds, and whether a
read of it has failed. The change in between does not touch it.
-/

namespace HashBoard

open Routine

variable {ν α : Type}

/-- The parameters a clock change saves. -/
def Reg.saved : List Word := [Reg.itemCount, Reg.itemReciprocal, Reg.dagPower]

/-- The registers that have to do with the clock itself. -/
def Reg.clock : List Word := Reg.pllStatus :: Reg.clockGenerator

/-- A read of a register that failed. -/
def Answered.Misses (addr : Word) : Answered ν → Bool
  | ⟨.call (.read a), .error _⟩ => a = addr
  | _ => false

/-- A write to a register that failed. -/
def Answered.Loses (addr : Word) : Answered ν → Bool
  | ⟨.call (.write _ a), .error _⟩ => a = addr
  | _ => false

/-- A write to any register that failed. -/
def Answered.isLost : Answered ν → Bool
  | ⟨.call (.write ..), .error _⟩ => true
  | _ => false

theorem Answered.loses_eq_false {said : Answered ν} (h : said.isLost = false) (addr : Word) :
    said.Loses addr = false := by
  unfold Loses
  split
  · cases h
  · rfl

namespace Saving

/-- What there is to know of a register. -/
structure Account where
  /-- What it holds. -/
  value : Word
  /-- A read of it has failed. -/
  missed : Bool

/-- The account after something was asked and answered. -/
def Account.after (s : Account) (addr : Word) (said : Answered ν) : Account where
  value := (said.leaves addr).getD s.value
  missed := s.missed || said.Misses addr

/-- The account of a register that is told of truthfully, and to which no write fails. -/
def watch (ν : Type) (addr : Word) : Watch ν Account where
  safe _ := True
  acts s r x t :=
    (⟨r, x⟩ : Answered ν).Truthful addr s.value ∧ (⟨r, x⟩ : Answered ν).Loses addr = false ∧
      t = s.after addr ⟨r, x⟩
  drifts s t := t = s
  refl _ := rfl
  trans h h' := h'.trans h
  safe_of_drifts _ h := h

variable {addr : Word} {s : Account}

theorem acts_of_moves {r : Request ν} {x : Reply r} {t : Account}
    (h : (watch ν addr).moves s r x t) : (watch ν addr).acts s r x t := by
  obtain ⟨u, rfl, ha⟩ := h
  exact ha

/-- The account along a talk. -/
theorem along_talk {talk : List (Answered ν)} (truthful : Truthful addr s.value talk)
    (written : ∀ said ∈ talk, said.Loses addr = false) :
    (watch ν addr).Along s talk
      ⟨contents addr s.value talk, s.missed || talk.any (·.Misses addr)⟩ := by
  induction talk generalizing s with
  | nil =>
    rw [List.any_nil, Bool.or_false]
    exact .nil s
  | cons said talk ih =>
    obtain ⟨hfirst, hrest⟩ := List.forall_mem_cons.mp written
    have along := ih (s := s.after addr said) truthful.2 hrest
    rw [List.any_cons, ← Bool.or_assoc]
    exact .cons ⟨truthful.1, hfirst, rfl⟩ along

/-! ## Routines that leave a register alone -/

/-- A request does not read or write a register. -/
def Spares (addr : Word) : Request ν → Prop
  | .call (.read a) => a ≠ addr
  | r => ¬r.Writes addr

theorem spares_note (event : Event ν) : (note event).Only (Spares addr) := only_request id

theorem spares_read {a : Word} (h : a ≠ addr) : (read a : Routine ν _).Only (Spares addr) := by
  refine ⟨h, fun x ↦ ?_⟩
  cases x with
  | ok value => exact (spares_note _).bind fun _ ↦ trivial
  | error fault => trivial

theorem spares_tryWrite {a : Word} (h : a ≠ addr) (value : Word) (what : String) :
    (tryWrite value a what : Routine ν _).Only (Spares addr) := by
  refine Only.bind (?_ : (write value a).Only (Spares addr)) fun x ↦ ?_
  · exact (spares_note _).bind fun _ ↦ only_request h
  · cases x with
    | ok => trivial
    | error fault => exact spares_note _

theorem after_of_spares {r : Request ν} (h : Spares addr r) (x : Reply r) :
    s.after addr ⟨r, x⟩ = s := by
  have hmisses : (⟨r, x⟩ : Answered ν).Misses addr = false := by
    unfold Answered.Misses
    split
    · rename_i heq
      cases heq
      exact decide_eq_false h
    · rfl
  have hwrites : ¬r.Writes addr := by
    unfold Spares at h
    split at h
    · exact id
    · exact h
  rw [Account.after, leaves_of_not_writes hwrites, hmisses, Bool.or_false]
  rfl

/-- A routine that leaves the register alone leaves the account alone. -/
theorem ensures_of_spares {p : Routine ν α} (h : p.Only (Spares addr)) :
    p.Ensures (watch ν addr) (fun _ t ↦ t = s) s := by
  refine h.ensures rfl (fun _ _ ↦ trivial) (fun _ _ _ _ ↦ trivial) ?_
  rintro t r x u rfl hr hm
  obtain ⟨-, -, rfl⟩ := acts_of_moves hm
  exact after_of_spares hr x

/-! ## The registers of the clock -/

section Clock

variable [Quantity ν] (apart : addr ∉ Reg.clock)
include apart

theorem ne_of_clock {a : Word} (ha : a ∈ Reg.clock) : a ≠ addr := fun h ↦ apart (h ▸ ha)

theorem spares_readPll : (readPll : Routine ν _).Only (Spares addr) := by
  refine (spares_read (ne_of_clock apart (by decide))).bind fun x ↦ ?_
  cases x with
  | error fault => exact (spares_note _).bind fun _ ↦ trivial
  | ok vco =>
    refine (spares_read (ne_of_clock apart (by decide))).bind fun y ↦ ?_
    cases y with
    | error fault => exact (spares_note _).bind fun _ ↦ trivial
    | ok clk =>
      dsimp only
      cases Pll.decode (ν := ν) vco clk with
      | none => exact (spares_note _).bind fun _ ↦ trivial
      | some pll => trivial

omit [Quantity ν] in
theorem spares_awaitLock (n : Nat) : (awaitLock n : Routine ν _).Only (Spares addr) := by
  induction n with
  | zero => trivial
  | succ n ih =>
    refine (spares_read (ne_of_clock apart (by decide))).bind fun x ↦ ?_
    cases x with
    | error fault => exact ih
    | ok status =>
      dsimp only
      split
      · exact ih
      · trivial

omit [Quantity ν] in
theorem spares_settleClock : (settleClock : Routine ν _).Only (Spares addr) := by
  refine (spares_awaitLock apart lockPolls).bind fun locked ↦ ?_
  cases locked with
  | false => exact spares_note _
  | true => trivial

omit [Quantity ν] in
theorem spares_resetClock : (resetClock : Routine ν _).Only (Spares addr) := by
  refine (spares_note _).bind fun _ ↦ ?_
  refine (spares_tryWrite (ne_of_clock apart (by decide)) _ _).bind fun _ ↦ ?_
  refine (spares_tryWrite (ne_of_clock apart (by decide)) _ _).bind fun _ ↦ ?_
  exact ⟨id, fun _ ↦ spares_tryWrite (ne_of_clock apart (by decide)) _ _⟩

theorem spares_readStock (before : ν) : (readStock before).Only (Spares addr) := by
  refine (spares_readPll apart).bind fun pll ↦ ?_
  cases pll with
  | none => exact (spares_note _).bind fun _ ↦ trivial
  | some pll => exact ⟨id, fun _ ↦ trivial⟩

theorem spares_programDivisor (pll : PllReading ν) (mhz : ν) :
    (programDivisor pll mhz).Only (Spares addr) := by
  rw [programDivisor]
  cases Pll.divisorFor pll.vco mhz with
  | error e => cases e <;> exact (spares_note _).bind fun _ ↦ trivial
  | ok divisor =>
    refine (spares_tryWrite (ne_of_clock apart (by decide)) _ _).bind fun _ ↦ ?_
    refine (spares_tryWrite (ne_of_clock apart (by decide)) _ _).bind fun _ ↦ ?_
    refine (spares_tryWrite (ne_of_clock apart (by decide)) _ _).bind fun _ ↦ ?_
    refine (spares_tryWrite (ne_of_clock apart (by decide)) _ _).bind fun _ ↦ ?_
    exact ⟨id, fun _ ↦ (spares_note _).bind fun _ ↦ trivial⟩

end Clock

/-! ## Saving and restoring -/

/-- What came of reading a parameter: it is known, or a read of it has failed. -/
def Saves (addr : Word) (s : Account) (a value : Word) (t : Account) : Prop :=
  if a = addr then t.missed = s.missed ∧ value = s.value ∨ t.missed ∧ value = 0 else t = s

/-- What came of writing a parameter. -/
def Restores (addr : Word) (s : Account) (a value : Word) (t : Account) : Prop :=
  t = if a = addr then { s with value } else s

theorem ensures_request (r : Request ν) (s : Account) :
    (request r).Ensures (watch ν addr) (fun x t ↦ (watch ν addr).acts s r x t) s :=
  ⟨trivial, trivial, fun _ _ hm ↦ acts_of_moves hm⟩

theorem ensures_read (s : Account) :
    (read addr).Ensures (watch ν addr)
      (fun x t ↦ (watch ν addr).acts s (.call (.read addr)) x t) s := by
  refine (ensures_request (.call (.read addr)) s).seq fun x t ht ↦ ?_
  cases x with
  | error fault => exact ht
  | ok value =>
    refine (ensures_of_spares (spares_note _)).seq fun _ u hu ↦ ?_
    rw [hu]
    exact ht

theorem ensures_write (value : Word) (s : Account) :
    (write value addr).Ensures (watch ν addr)
      (fun x t ↦ (watch ν addr).acts s (.call (.write value addr)) x t) s := by
  refine (ensures_of_spares (spares_note _)).seq fun _ t ht ↦ ?_
  rw [ht]
  exact ensures_request _ s

theorem ensures_saveParameter (a : Word) (s : Account) :
    (saveParameter a : Routine ν _).Ensures (watch ν addr) (fun x t ↦ Saves addr s a x t) s := by
  by_cases ha : a = addr
  · subst ha
    refine (ensures_read s).seq fun x t ⟨htrue, _, ht⟩ ↦ ?_
    simp only [Saves, if_true]
    cases x with
    | ok value =>
      rw [ht]
      exact .inl ⟨Bool.or_false _, htrue rfl⟩
    | error fault =>
      refine (ensures_of_spares (spares_note _)).seq fun _ u hu ↦ ?_
      rw [hu, ht]
      exact .inr ⟨by simp [Account.after, Answered.Misses], rfl⟩
  · have spares : (saveParameter a : Routine ν _).Only (Spares addr) := by
      refine (spares_read ha).bind fun x ↦ ?_
      cases x with
      | ok value => trivial
      | error fault => exact (spares_note _).bind fun _ ↦ trivial
    refine (ensures_of_spares spares).mono fun x t ht ↦ ?_
    rw [Saves, if_neg ha]
    exact ht

theorem ensures_tryWrite (a value : Word) (what : String) (s : Account) :
    (tryWrite value a what : Routine ν _).Ensures (watch ν addr)
      (fun _ t ↦ Restores addr s a value t) s := by
  by_cases ha : a = addr
  · subst ha
    refine (ensures_write value s).seq fun x t ⟨_, hwritten, ht⟩ ↦ ?_
    cases x with
    | ok =>
      have hleaves : (⟨.call (.write value a), .ok ()⟩ : Answered ν).leaves a = some value :=
        if_pos rfl
      have hafter : s.after a (⟨.call (.write value a), .ok ()⟩ : Answered ν) =
          { s with value } := by
        rw [Account.after, hleaves]
        exact congrArg _ (Bool.or_false _)
      exact ht.trans (hafter.trans (if_pos rfl).symm)
    | error fault => exact absurd hwritten (by simp [Answered.Loses])
  · refine (ensures_of_spares (spares_tryWrite ha value what)).mono fun _ t ht ↦ ?_
    rw [Restores, if_neg ha]
    exact ht

/-- How a register stands that was saved and restored. -/
def Kept (s t : Account) : Prop := t.value = if t.missed then 0 else s.value

theorem kept_refl (hs : s.missed = false) : Kept s s := by
  rw [Kept, hs]
  rfl

/-- A parameter that is written back as it was read. -/
theorem kept_of_saves {value : Word} {t : Account} (hs : s.missed = false)
    (h : t.missed = s.missed ∧ value = s.value ∨ t.missed ∧ value = 0) :
    Kept s { t with value } := by
  rcases h with ⟨hmissed, rfl⟩ | ⟨hmissed, rfl⟩
  · simp [Kept, hmissed, hs]
  · simp [Kept, hmissed]

/-- A change between saving and restoring leaves a saved register as it was, if it was read. -/
theorem ensures_changingClock {change : Routine ν ν} (haddr : addr ∈ Reg.saved)
    (spares : change.Only (Spares addr)) (hs : s.missed = false) :
    (changingClock change).Ensures (watch ν addr) (fun _ t ↦ Kept s t) s := by
  refine (ensures_saveParameter Reg.itemCount s).seq fun items s₁ h₁ ↦ ?_
  refine (ensures_saveParameter Reg.itemReciprocal s₁).seq fun reciprocal s₂ h₂ ↦ ?_
  refine (ensures_saveParameter Reg.dagPower s₂).seq fun power s₃ h₃ ↦ ?_
  refine (ensures_tryWrite Reg.dagPower Reg.dagPowerOn _ s₃).seq fun _ s₄ h₄ ↦ ?_
  refine (ensures_of_spares spares).seq fun clock s₅ h₅ ↦ ?_
  refine (ensures_tryWrite Reg.itemCount items _ s₅).seq fun _ s₆ h₆ ↦ ?_
  refine (ensures_tryWrite Reg.itemReciprocal reciprocal _ s₆).seq fun _ s₇ h₇ ↦ ?_
  refine (ensures_tryWrite Reg.dagPower power _ s₇).seq fun _ s₈ h₈ ↦ ?_
  have book : (reviseClock fun c : ClockState ν ↦ { c with current := clock }).Only
      (Spares addr) := only_request id
  refine (ensures_of_spares book).seq fun _ s₉ h₉ ↦ ?_
  subst h₅ h₉
  simp only [Reg.saved, List.mem_cons, List.not_mem_nil, or_false] at haddr
  have hcount : Reg.itemCount ≠ Reg.itemReciprocal ∧ Reg.itemCount ≠ Reg.dagPower := by decide
  have hpower : Reg.itemReciprocal ≠ Reg.dagPower := by decide
  -- the other two parameters are read and written without touching this one
  rcases haddr with rfl | rfl | rfl
  all_goals
    simp only [Saves, Restores, hcount, hcount.1.symm, hcount.2.symm, hpower, hpower.symm,
      ↓reduceIte] at h₁ h₂ h₃ h₄ h₆ h₇ h₈
    subst_vars
  · exact kept_of_saves hs h₁
  · exact kept_of_saves hs h₂
  · exact kept_of_saves hs h₃

/-- Whatever is asked of the clock, a saved register is as it was, if every read of it succeeded. -/
theorem ensures_setClock [Quantity ν] (request : ClockRequest ν) (haddr : addr ∈ Reg.saved)
    (hs : s.missed = false) :
    (setClock request).Ensures (watch ν addr) (fun _ t ↦ Kept s t) s := by
  have apart : addr ∉ Reg.clock := by
    have disjoint : Reg.saved.all (· ∉ Reg.clock) := by decide
    exact of_decide_eq_true (List.all_eq_true.mp disjoint addr haddr)
  refine (ensures_of_spares (spares_readPll apart)).seq ?_
  rintro pll _ rfl
  cases pll with
  | none =>
    refine (ensures_of_spares (spares_note _)).seq ?_
    rintro - _ rfl
    exact kept_refl hs
  | some pll =>
    cases request with
    | read =>
      refine (ensures_of_spares (only_request (r := .revise _) id)).seq ?_
      rintro - _ rfl
      exact kept_refl hs
    | stock =>
      refine ensures_changingClock haddr ?_ hs
      refine (spares_resetClock apart).bind fun _ ↦ ?_
      exact (spares_settleClock apart).bind fun _ ↦ spares_readStock apart pll.core
    | target mhz =>
      refine ensures_changingClock haddr ?_ hs
      refine (spares_programDivisor apart pll mhz).bind fun clock ↦ ?_
      exact (spares_settleClock apart).bind fun _ ↦ trivial

/-- A clock change writes nothing in bulk. -/
theorem only_setClock_single [Quantity ν] (request : ClockRequest ν) :
    (setClock request).Only SimulatedBoard.FitsInBulk := by
  have quiet : ∀ r : Request ν, r.isQuiet → SimulatedBoard.FitsInBulk r := by
    intro r hr
    cases r with
    | call c =>
      cases c with
      | writeBulk => cases hr
      | _ => trivial
    | _ => trivial
  cases request with
  | read => exact Board.only_setClock_read quiet fun _ _ ↦ trivial
  | stock => exact Board.only_setClock_stock quiet (fun _ ↦ trivial) fun _ _ _ ↦ trivial
  | target mhz =>
    exact Board.only_setClock_target quiet (fun _ ↦ trivial) (fun _ _ _ ↦ trivial)
      (fun _ _ ↦ trivial) mhz

end Saving

/-- **What a clock change saves.** Whatever is asked of the clock, and whichever reads fail: when no
write to it failed, a saved register holds in the end what it held at first, unless a read of it
failed; then it holds zero. -/
theorem register_setClock [Quantity ν] {b b' : SimulatedBoard} {addr : Word}
    (haddr : addr ∈ Reg.saved) (steady : b.IsSteady addr) {request : ClockRequest ν}
    {talk : List (Answered ν)} {x : Option ν} (run : Run (setClock request) talk x)
    (answers : b.Answers talk b') (written : ∀ said ∈ talk, said.Loses addr = false) :
    b'.register addr = if talk.any (·.Misses addr) then 0 else b.register addr := by
  obtain ⟨q, hpath, -⟩ := id run
  have unfinishing : addr ∉ Reg.finishing := by
    have disjoint : Reg.saved.all (· ∉ Reg.finishing) := by decide
    exact of_decide_eq_true (List.all_eq_true.mp disjoint addr haddr)
  have plain : ∀ said ∈ talk, b.PlainFor addr said.request := fun said h ↦
    steady.plainFor unfinishing ((Saving.only_setClock_single request).of_path hpath said h)
  have along := Saving.along_talk (s := ⟨b.register addr, false⟩) (answers.truthful steady plain)
    written
  have kept := (Saving.ensures_setClock request haddr rfl).run_along run along
  rw [answers.register_eq plain]
  exact kept

/-! ### A parameter that cannot be read -/

namespace Saving

/-- Clock changes, one at a time. -/
def requests : Repertoire Rat where
  Job := ClockRequest Rat
  Answer _ := Option Rat
  routine := setClock

/-- A board whose item count can be written but not read. -/
def unreadable : SimulatedBoard :=
  { SimulatedBoard.healthy with
    registers := (Reg.itemCount, 8_388_607) :: SimulatedBoard.healthy.registers
    steps := []
    brokenReads := [Reg.itemCount] }

/-- The core of that board is set to 400 MHz. -/
def unsaved : Rehearsal requests :=
  .rehearse (.start 0 false) {} unreadable [.begins (.target 400), .goes .owner 60]

def isChange : Occurrence requests → Bool
  | .ends (.target mhz) (some _) => mhz = 400
  | _ => false

theorem unsaved_ends : ∃ x, unsaved.occurrences = unsaved.before ++ [.ends (.target 400) x] := by
  have ends : unsaved.lastPasses isChange := by decide +kernel
  obtain ⟨e, htest, hlast⟩ := Rehearsal.occurrences_of_lastPasses ends
  unfold isChange at htest
  split at htest
  · obtain rfl := of_decide_eq_true htest
    exact ⟨_, hlast⟩
  · cases htest

theorem unsaved_runs : ∃ x, Run (setClock (.target 400)) (talkOf unsaved.before) x ∧
    unreadable.Answers (talkOf unsaved.before) unsaved.board := by
  obtain ⟨x, hlast⟩ := unsaved_ends
  exact ⟨x, Rehearsal.run_of_isSoloJob hlast (by decide +kernel)⟩

theorem unsaved_written : ∀ said ∈ talkOf unsaved.before, said.isLost = false := by
  have all : (talkOf unsaved.before).all (!·.isLost) := by decide +kernel
  simpa using all

end Saving

/-- The equation at an item count that cannot be read: zero is written over it. -/
theorem register_of_unsaved :
    ∃ x, Run (setClock (.target 400)) (talkOf Saving.unsaved.before) x ∧
      Saving.unsaved.board.register Reg.itemCount = 0 := by
  obtain ⟨x, run, answers⟩ := Saving.unsaved_runs
  have saved : Reg.itemCount ∈ Reg.saved := by decide
  have holds := register_setClock saved ⟨rfl, rfl⟩ run answers
    fun said h ↦ Answered.loses_eq_false (Saving.unsaved_written said h) _
  have missed : (talkOf Saving.unsaved.before).any (·.Misses Reg.itemCount) := by decide +kernel
  rw [if_pos missed] at holds
  exact ⟨x, run, holds⟩

/-- Not every clock change whose writes succeed keeps what it saves. -/
theorem change_not_saved :
    ¬∀ (b b' : SimulatedBoard) (request : ClockRequest Rat) (talk : List (Answered Rat))
      (x : Option Rat), b.scripts = [] → b.steps = [] → Run (setClock request) talk x →
      b.Answers talk b' → (∀ said ∈ talk, said.isLost = false) →
      ∀ addr ∈ Reg.saved, b'.register addr = b.register addr := by
  intro always
  obtain ⟨x, run, answers⟩ := Saving.unsaved_runs
  have kept := always _ _ _ _ x rfl rfl run answers Saving.unsaved_written Reg.itemCount (by decide)
  exact absurd kept (by decide +kernel)

end HashBoard
