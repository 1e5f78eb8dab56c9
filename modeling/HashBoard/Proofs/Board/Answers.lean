import HashBoard.Proofs.Board.Registers
import HashBoard.Proofs.Routine.Brief
import HashBoard.Simulation.Link

/-!
# What a simulated board answers

The calls in a list of what was asked and answered reach a simulated board one after another, unless
the connection fails them; `Answers` says so. A register that has no script and does not advance is
told of truthfully by such a board: what a read gives is what the register holds
(`Answers.truthful`). What it holds in the end is what the list says (`Answers.register_eq`).
-/

namespace HashBoard

open Simulation

variable {ν : Type}

/-- A reply that is right about a register that holds `w`, as far as it says anything of it: a read
that succeeds gives what the register holds. -/
def Answered.Truthful (addr w : Word) : Answered ν → Prop
  | ⟨.call (.read a), .ok value⟩ => a = addr → value = w
  | _ => True

/-- Replies that are right about a register that holds `w` at first. -/
def Truthful (addr : Word) : (w : Word) → List (Answered ν) → Prop
  | _, [] => True
  | w, said :: talk => said.Truthful addr w ∧ Truthful addr ((said.leaves addr).getD w) talk

/-- The registers that a generator sets when it is finished. -/
def Reg.finishing : List Word := [Reg.cacheControl, Reg.dagControl]

namespace SimulatedBoard

/-- A board answers the calls in a list, where the connection does not fail them. Whoever is asked
for something else does not concern it. -/
inductive Answers : SimulatedBoard → List (Answered ν) → SimulatedBoard → Prop
  | nil (b : SimulatedBoard) : Answers b [] b
  | made {b b' : SimulatedBoard} {talk : List (Answered ν)} (c : Call) :
    Answers (b.perform c).1 talk b' → Answers b (⟨.call c, (b.perform c).2⟩ :: talk) b'
  | failed {b b' : SimulatedBoard} {talk : List (Answered ν)} (c : Call) (fault : LinkFault) :
    c.kind?.isSome → Answers b talk b' → Answers b (⟨.call c, c.failing fault⟩ :: talk) b'
  | aside {b b' : SimulatedBoard} {talk : List (Answered ν)} {r : Request ν} {x : Reply r} :
    (∀ c, r ≠ .call c) → Answers b talk b' → Answers b (⟨r, x⟩ :: talk) b'

theorem Answers.append {b b' b'' : SimulatedBoard} {talk talk' : List (Answered ν)}
    (h : Answers b talk b') (h' : Answers b' talk' b'') : Answers b (talk ++ talk') b'' := by
  induction h with
  | nil => exact h'
  | made c _ ih => exact .made c (ih h')
  | failed c fault hc _ ih => exact .failed c fault hc (ih h')
  | aside hr _ ih => exact .aside hr (ih h')

/-- One list after another is answered one after another. -/
theorem Answers.of_append {b b' : SimulatedBoard} {talk talk' : List (Answered ν)}
    (h : Answers b (talk ++ talk') b') : ∃ b₁, Answers b talk b₁ ∧ Answers b₁ talk' b' := by
  induction talk generalizing b with
  | nil => exact ⟨b, .nil b, h⟩
  | cons said talk ih =>
    cases h with
    | made c hrest =>
      obtain ⟨b₁, hfirst, hsecond⟩ := ih hrest
      exact ⟨b₁, .made c hfirst, hsecond⟩
    | failed c fault hc hrest =>
      obtain ⟨b₁, hfirst, hsecond⟩ := ih hrest
      exact ⟨b₁, .failed c fault hc hfirst, hsecond⟩
    | aside hr hrest =>
      obtain ⟨b₁, hfirst, hsecond⟩ := ih hrest
      exact ⟨b₁, .aside hr hfirst, hsecond⟩

/-! ## Registers that do not change by themselves -/

/-- Reads of a register have no script, and it does not advance. -/
structure IsSteady (b : SimulatedBoard) (addr : Word) : Prop where
  script : b.scripts.getD addr [] = []
  step : b.steps.get? addr = none

variable {b b' : SimulatedBoard} {addr : Word} {talk : List (Answered ν)}

theorem setRegisters_frame (addr : Word) (words : List Word) (b : SimulatedBoard) :
    ∃ registers, setRegisters addr words b = { b with registers } := by
  induction words generalizing addr b with
  | nil => exact ⟨b.registers, rfl⟩
  | cons word words ih =>
    obtain ⟨registers, h⟩ := ih (addr + 4) (b.setRegister addr word)
    exact ⟨registers, h⟩

/-- A wait for an interrupt takes the first nonce there is, if there is one. -/
theorem perform_awaitInterrupt (b : SimulatedBoard) (mask : Word) (timeout : Micros) :
    ∃ interrupt, b.perform (.awaitInterrupt mask timeout) =
      if b.interruptsBroken then (b, .error .disconnected)
      else ({ b.countWait with nonces := b.countWait.nonces.tail, interrupt },
        .ok b.countWait.nonces.head?) := by
  by_cases hbroken : b.interruptsBroken
  · refine ⟨b.interrupt, ?_⟩
    rw [if_pos hbroken, perform, beginWait, if_pos hbroken]
  · cases hnonces : b.countWait.nonces with
    | cons nonce rest =>
      refine ⟨b.countWait.interrupt, ?_⟩
      simp [perform, beginWait, takeNonce, hbroken, hnonces]
    | nil =>
      cases hended : b.countWait.interrupt.begin.2 with
      | true =>
        refine ⟨b.countWait.interrupt.begin.1, ?_⟩
        simp [perform, beginWait, takeNonce, hbroken, hnonces, hended]
      | false =>
        refine ⟨b.countWait.interrupt.begin.1.finish, ?_⟩
        simp [perform, beginWait, finishWait, takeNonce, hbroken, hnonces, hended]

/-- What a call leaves alone: what a board is like, its scripts unless they are read, and its queue
unless somebody waits for an interrupt. -/
structure Frame (b b' : SimulatedBoard) (c : Call) : Prop where
  steps : b'.steps = b.steps
  nonceEvery : b'.nonceEvery = b.nonceEvery
  scripts : (∀ a, c ≠ .read a) → b'.scripts = b.scripts
  nonces : (∀ mask timeout, c ≠ .awaitInterrupt mask timeout) → b'.nonces = b.nonces

theorem frame_perform (b : SimulatedBoard) (c : Call) : Frame b (b.perform c).1 c := by
  cases c with
  | read a =>
    refine ⟨?_, ?_, fun h ↦ absurd rfl (h a), fun _ ↦ ?_⟩ <;>
    · rw [perform, read]
      split
      · rfl
      · split
        · rfl
        · split <;> rfl
  | write value a =>
    rw [perform, write]
    split <;> exact ⟨rfl, rfl, fun _ ↦ rfl, fun _ ↦ rfl⟩
  | writeBulk bytes a swap =>
    obtain ⟨registers, hset⟩ := setRegisters_frame a (wordsOfBytes swap bytes) b
    rw [perform, writeBulk, hset]
    split <;> exact ⟨rfl, rfl, fun _ ↦ rfl, fun _ ↦ rfl⟩
  | upload bytes a =>
    rw [perform, upload]
    split <;> exact ⟨rfl, rfl, fun _ ↦ rfl, fun _ ↦ rfl⟩
  | move src dst length =>
    rw [perform, move]
    split <;> exact ⟨rfl, rfl, fun _ ↦ rfl, fun _ ↦ rfl⟩
  | awaitInterrupt mask timeout =>
    obtain ⟨interrupt, hwait⟩ := perform_awaitInterrupt b mask timeout
    rw [hwait]
    split <;> exact ⟨rfl, rfl, fun _ ↦ rfl, fun h ↦ absurd rfl (h mask timeout)⟩
  | setTimeout | enableInterrupts | kick | disconnect =>
    exact ⟨rfl, rfl, fun _ ↦ rfl, fun _ ↦ rfl⟩

/-- A call leaves a steady register steady. -/
theorem IsSteady.perform (h : b.IsSteady addr) (c : Call) : (b.perform c).1.IsSteady addr := by
  by_cases hread : ∃ a, c = .read a
  · obtain ⟨a, rfl⟩ := hread
    rw [SimulatedBoard.perform, read]
    split
    · exact ⟨h.script, h.step⟩
    · split
      · rename_i value rest hscript
        refine ⟨?_, h.step⟩
        have hne : a ≠ addr := by
          rintro rfl
          rw [h.script] at hscript
          cases hscript
        rw [Table.getD, Table.get?_put, if_neg hne]
        exact h.script
      · split <;> exact ⟨h.script, h.step⟩
  · have frame := frame_perform b c
    constructor
    · rw [frame.scripts (not_exists.mp hread)]
      exact h.script
    · rw [frame.steps]
      exact h.step

/-- A read of a steady register gives what it holds, if it succeeds. -/
theorem IsSteady.read (h : b.IsSteady addr) {value : Word} (hread : (b.read addr).2 = .ok value) :
    value = b.register addr := by
  rw [SimulatedBoard.read] at hread
  split at hread
  · cases hread
  · simp only [h.script, h.step] at hread
    exact (Except.ok.inj hread).symm

/-- A read leaves a register as it is, unless it advances. -/
theorem register_read {a : Word} (h : a = addr → b.IsSteady addr) :
    (b.read a).1.register addr = b.register addr := by
  rw [SimulatedBoard.read]
  split
  · rfl
  · split
    · rfl
    · split
      · rename_i step hstep
        have hne : a ≠ addr := by
          rintro rfl
          cases (h rfl).step.symm.trans hstep
        exact (register_setRegister _ _ _ _).trans (if_neg hne)
      · rfl

/-- What a register holds after a write. -/
theorem register_write {a : Word} (haddr : a = addr → addr ∉ Reg.finishing) (value : Word) :
    (b.write value a).1.register addr =
      ((⟨.call (.write value a), (b.write value a).2⟩ : Answered ν).leaves addr).getD
        (b.register addr) := by
  have hsettled (heq : a = addr) : b.settled value a = value := by
    subst heq
    obtain ⟨hcache, hdag⟩ : a ≠ Reg.cacheControl ∧ a ≠ Reg.dagControl := by
      simpa [Reg.finishing] using haddr rfl
    simp [settled, hcache, hdag]
  rw [write]
  split
  · rfl
  · refine (register_setRegister _ _ _ _).trans ?_
    rw [Answered.leaves]
    split
    · rename_i heq
      exact hsettled heq
    · rfl

/-- What a register holds after a bulk write. -/
theorem register_writeBulk {bytes : List UInt8} {a : Word} {swap : Bool}
    (fits : 4 * (wordsOfBytes swap bytes).length ≤ 2 ^ 32) :
    (b.writeBulk bytes a swap).1.register addr =
      ((⟨.call (.writeBulk bytes a swap), (b.writeBulk bytes a swap).2⟩ : Answered ν).leaves
        addr).getD (b.register addr) := by
  rw [writeBulk]
  split
  · rfl
  · exact register_setRegisters_eq fits

/-- A request is no bulk write of more words than there are registers. -/
def FitsInBulk : Request ν → Prop
  | .call (.writeBulk bytes _ swap) => 4 * (wordsOfBytes swap bytes).length ≤ 2 ^ 32
  | _ => True

/-- Nothing but what is written changes a register upon a request: it does not advance when it is
read, and does not turn into something else when it is written. -/
structure PlainFor (b : SimulatedBoard) (addr : Word) (r : Request ν) : Prop where
  read : r = .call (.read addr) → b.IsSteady addr
  write : ∀ value, r = .call (.write value addr) → addr ∉ Reg.finishing
  bulk : FitsInBulk r

theorem IsSteady.plainFor (h : b.IsSteady addr) (haddr : addr ∉ Reg.finishing) {r : Request ν}
    (bulk : FitsInBulk r) : b.PlainFor addr r := ⟨fun _ ↦ h, fun _ _ ↦ haddr, bulk⟩

theorem PlainFor.perform {r : Request ν} (h : b.PlainFor addr r) (c : Call) :
    (b.perform c).1.PlainFor addr r := ⟨fun hr ↦ (h.read hr).perform c, h.write, h.bulk⟩

/-- What a register holds after a call. -/
theorem PlainFor.register_perform {c : Call} (h : b.PlainFor addr (.call c : Request ν)) :
    (b.perform c).1.register addr =
      ((⟨.call c, (b.perform c).2⟩ : Answered ν).leaves addr).getD (b.register addr) := by
  cases c with
  | read a => exact register_read fun ha ↦ h.read (ha ▸ rfl)
  | write value a => exact register_write (fun ha ↦ h.write value (ha ▸ rfl)) value
  | writeBulk bytes a swap => exact register_writeBulk h.bulk
  | upload bytes a =>
    rw [SimulatedBoard.perform, upload]
    split <;> rfl
  | move src dst length =>
    rw [SimulatedBoard.perform, move]
    split <;> rfl
  | awaitInterrupt mask timeout =>
    obtain ⟨interrupt, hwait⟩ := perform_awaitInterrupt b mask timeout
    rw [hwait]
    split <;> rfl
  | setTimeout | enableInterrupts | kick | disconnect => rfl

theorem IsSteady.truthful_perform (h : b.IsSteady addr) (c : Call) :
    (⟨.call c, (b.perform c).2⟩ : Answered ν).Truthful addr (b.register addr) := by
  cases c with
  | read a =>
    cases hread : (b.perform (.read a)).2 with
    | error fault => trivial
    | ok value =>
      rintro rfl
      exact h.read hread
  | _ => trivial

/-- What does not reach the board leaves nothing in it. -/
theorem leaves_failing (c : Call) (fault : LinkFault) :
    (⟨.call c, c.failing fault⟩ : Answered ν).leaves addr = none := by
  cases c <;> rfl

theorem leaves_aside {r : Request ν} {x : Reply r} (h : ∀ c, r ≠ .call c) :
    (⟨r, x⟩ : Answered ν).leaves addr = none := by
  cases r with
  | call c => exact absurd rfl (h c)
  | _ => rfl

/-- What a register of a simulated board holds is what was said of it. -/
theorem Answers.register_eq (answers : Answers b talk b')
    (plain : ∀ said ∈ talk, b.PlainFor addr said.request) :
    b'.register addr = contents addr (b.register addr) talk := by
  induction answers with
  | nil => rfl
  | made c _ ih =>
    obtain ⟨hfirst, hrest⟩ := List.forall_mem_cons.mp plain
    rw [ih fun said h ↦ (hrest said h).perform c, hfirst.register_perform]
    rfl
  | failed c fault _ _ ih =>
    rw [ih (List.forall_mem_cons.mp plain).2, contents, contents, List.foldl_cons, leaves_failing]
    rfl
  | aside hr _ ih =>
    rw [ih (List.forall_mem_cons.mp plain).2, contents, contents, List.foldl_cons, leaves_aside hr]
    rfl

/-- **A simulated board is truthful about its steady registers.** -/
theorem Answers.truthful (answers : Answers b talk b') (steady : b.IsSteady addr)
    (plain : ∀ said ∈ talk, b.PlainFor addr said.request) :
    Truthful addr (b.register addr) talk := by
  induction answers with
  | nil => trivial
  | made c _ ih =>
    obtain ⟨hfirst, hrest⟩ := List.forall_mem_cons.mp plain
    refine ⟨steady.truthful_perform c, ?_⟩
    rw [← hfirst.register_perform]
    exact ih (steady.perform c) fun said h ↦ (hrest said h).perform c
  | failed c fault _ _ ih =>
    refine ⟨by cases c <;> trivial, ?_⟩
    rw [leaves_failing]
    exact ih steady (List.forall_mem_cons.mp plain).2
  | @aside _ _ _ r _ hr _ ih =>
    refine ⟨?_, ?_⟩
    · cases r with
      | call c => exact absurd rfl (hr c)
      | _ => trivial
    · rw [leaves_aside hr]
      exact ih steady (List.forall_mem_cons.mp plain).2

/-! ## Whoever answers the rest -/

/-- A board after it was called. -/
def upon (b : SimulatedBoard) (said : Answered ν) : SimulatedBoard :=
  match said.request with
  | .call c => (b.perform c).1
  | _ => b

/-- A board answers the calls, and somebody else the rest. -/
def answering (b : SimulatedBoard) (others : Answering ν) : Answering ν := fun talk r ↦
  match r with
  | .call c => ((talk.foldl upon b).perform c).2
  | r => others talk r

theorem answers_of_gives {others : Answering ν} {s talk : List (Answered ν)}
    (gives : (b.answering others).Gives s talk) :
    Answers (s.foldl upon b) talk ((s ++ talk).foldl upon b) := by
  induction talk generalizing s with
  | nil =>
    rw [List.append_nil]
    exact .nil _
  | cons said talk ih =>
    obtain ⟨r, x⟩ := said
    obtain ⟨hfirst, hrest⟩ := gives
    have hlater := ih hrest
    rw [List.foldl_append, ← List.append_cons] at hlater
    cases r with
    | call c =>
      obtain rfl : x = ((s.foldl upon b).perform c).2 := hfirst
      exact .made c hlater
    | _ => exact .aside nofun hlater

/-- A routine without loops comes to an end on every board, whoever answers the rest. -/
theorem exists_answers {α : Type} {p : Routine ν α} (h : p.Brief) (b : SimulatedBoard)
    (others : Answering ν) :
    ∃ talk a b', Routine.Run p talk a ∧ Answers b talk b' ∧ (b.answering others).Gives [] talk := by
  obtain ⟨talk, a, run, gives⟩ := h.exists_run (b.answering others) []
  exact ⟨talk, a, _, run, answers_of_gives gives, gives⟩

end SimulatedBoard

end HashBoard
