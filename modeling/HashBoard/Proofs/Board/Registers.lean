import Mathlib.Algebra.Group.Nat.Defs
import HashBoard.Proofs.Routine.Only
import HashBoard.Proofs.Routine.Transcript
import HashBoard.Simulation.SimulatedBoard

/-!
# What a register holds

A list of what was asked and answered says what a register holds, if it is known what it held
before: the word of the last write to it that succeeded, be it a write of its own or one of
neighbouring registers. A board is faithful about a register if writes to it succeed and reads of it
give what it holds; nothing is said about its other registers.
-/

namespace HashBoard

namespace SimulatedBoard

@[simp] theorem register_setRegister (b : SimulatedBoard) (addr value addr' : Word) :
    (b.setRegister addr value).register addr' =
      if addr = addr' then value else b.register addr' := by
  rw [register, register, setRegister, Simulation.Table.getD, Simulation.Table.getD,
    Simulation.Table.get?_put]
  split <;> rfl

/-- Which of some words goes to a register when they are put into neighbouring ones. -/
def wordFor (addr : Word) (words : List Word) (addr' : Word) : Option Word :=
  let offset := (addr' - addr).toNat
  if offset % 4 = 0 then words[offset / 4]? else none

/-- Registers outside the range of the words get none of them. -/
theorem wordFor_of_le {addr addr' : Word} {words : List Word}
    (h : 4 * words.length ≤ (addr' - addr).toNat) : wordFor addr words addr' = none := by
  rw [wordFor]
  split
  · exact List.getElem?_eq_none (by omega)
  · rfl

theorem wordFor_cons {addr addr' word : Word} {words : List Word} (hne : addr ≠ addr') :
    wordFor addr (word :: words) addr' = wordFor (addr + 4) words addr' := by
  have hpos : (addr' - addr).toNat ≠ 0 := by
    intro h
    have hzero : addr' - addr = 0 := UInt32.toNat_inj.mp h
    grind
  have hfour : (4 : Word).toNat = 4 := rfl
  have hsub : addr' - (addr + 4) = (addr' - addr) - 4 := by grind
  have hlt := (addr' - addr).toNat_lt
  have hnext : (addr' - (addr + 4)).toNat = (2 ^ 32 - 4 + (addr' - addr).toNat) % 2 ^ 32 := by
    rw [hsub, UInt32.toNat_sub, hfour]
  simp only [wordFor, hnext]
  generalize (addr' - addr).toNat = n at *
  by_cases hnear : n < 4
  · have hbefore : (2 ^ 32 - 4 + n) % 2 ^ 32 % 4 ≠ 0 := by omega
    rw [if_neg (by omega), if_neg hbefore]
  · have hback : (2 ^ 32 - 4 + n) % 2 ^ 32 = n - 4 := by omega
    obtain ⟨k, hk⟩ : ∃ k, n / 4 = k + 1 := ⟨n / 4 - 1, by omega⟩
    rw [hback, hk, List.getElem?_cons_succ, show (n - 4) / 4 = k by omega,
      show (n - 4) % 4 = n % 4 by omega]

/-- What a register holds once words are in neighbouring ones, if there are not more of them than
there are registers. -/
theorem register_setRegisters_eq {b : SimulatedBoard} {addr addr' : Word} {words : List Word}
    (fits : 4 * words.length ≤ 2 ^ 32) :
    (setRegisters addr words b).register addr' =
      (wordFor addr words addr').getD (b.register addr') := by
  induction words generalizing addr b with
  | nil => simp [wordFor, setRegisters]
  | cons word words ih =>
    rw [List.length_cons] at fits
    rw [setRegisters, ih (by omega), register_setRegister]
    by_cases heq : addr = addr'
    · subst heq
      have hlast : 4 * words.length ≤ (addr - (addr + 4)).toNat := by
        have hback : addr - (addr + 4) = -4 := by grind
        have hwrap : (-4 : Word).toNat = 2 ^ 32 - 4 := by decide
        rw [hback, hwrap]
        omega
      rw [wordFor_of_le hlast, if_pos rfl, wordFor, UInt32.sub_self]
      rfl
    · rw [if_neg heq, wordFor_cons heq]

/-- Registers outside the range of the words are left alone. -/
theorem register_setRegisters {b : SimulatedBoard} {addr addr' : Word} {words : List Word}
    (h : 4 * words.length ≤ (addr' - addr).toNat) :
    (setRegisters addr words b).register addr' = b.register addr' := by
  have fits : 4 * words.length ≤ 2 ^ 32 := Nat.le_trans h (Nat.le_of_lt (UInt32.toNat_lt _))
  rw [register_setRegisters_eq fits, wordFor_of_le h]
  rfl

theorem length_wordsOfBytes (swap : Bool) (bytes : List UInt8) :
    (wordsOfBytes swap bytes).length = (bytes.length + 3) / 4 := by
  fun_induction wordsOfBytes swap bytes with
  | case1 b0 b1 b2 b3 rest ih =>
    simp only [List.length_cons, ih]
    omega
  | _ => simp

end SimulatedBoard

section

variable {ν : Type}

/-- A request that writes a register, alone or among its neighbours. -/
def Request.Writes (addr : Word) : Request ν → Prop
  | .call (.write _ a) => a = addr
  | .call (.writeBulk bytes a _) => (addr - a).toNat < bytes.length
  | _ => False

theorem Request.not_writes_of_isQuiet {r : Request ν} (h : r.isQuiet) (addr : Word) :
    ¬r.Writes addr := by
  cases r with
  | call c =>
    cases c with
    | write | writeBulk => cases h
    | _ => exact id
  | _ => exact id

theorem Request.isAccess_of_writes {r : Request ν} {addr : Word} (h : r.Writes addr) :
    r.isAccess := by
  cases r with
  | call c =>
    cases c with
    | read | write | writeBulk => rfl
    | _ => exact False.elim h
  | _ => exact False.elim h

/-- What is accessed says what is written. -/
theorem unwritten_of_accesses {addr : Word} {talk : List (Answered ν)} {rs : List (Request ν)}
    (h : (accesses talk).map Answered.request = rs) (hrs : ∀ r ∈ rs, ¬r.Writes addr) :
    ∀ said ∈ talk, ¬said.request.Writes addr := by
  intro said hs hwrites
  have accessed : said ∈ accesses talk :=
    List.mem_filter.mpr ⟨hs, said.request.isAccess_of_writes hwrites⟩
  exact hrs _ (h ▸ List.mem_map_of_mem accessed) hwrites

instance (addr : Word) (r : Request ν) : Decidable (r.Writes addr) :=
  decidable_of_iff
    (match r with
      | .call (.write _ a) => a = addr
      | .call (.writeBulk bytes a _) => (addr - a).toNat < bytes.length
      | _ => false : Bool) <| by
    unfold Request.Writes
    split <;> simp

/-- What is left in a register by a request that succeeded. -/
def Answered.leaves (addr : Word) : Answered ν → Option Word
  | ⟨.call (.write value a), .ok ()⟩ => if a = addr then some value else none
  | ⟨.call (.writeBulk bytes a swap), .ok ()⟩ =>
    let offset := (addr - a).toNat
    if offset % 4 = 0 then (SimulatedBoard.wordsOfBytes swap bytes)[offset / 4]? else none
  | _ => none

/-- What does not write a register leaves nothing in it. -/
theorem leaves_of_not_writes {addr : Word} {r : Request ν} (h : ¬r.Writes addr) (x : Reply r) :
    (⟨r, x⟩ : Answered ν).leaves addr = none := by
  cases r with
  | call c =>
    cases c with
    | write value a =>
      cases x with
      | ok => exact if_neg h
      | error => rfl
    | writeBulk bytes a swap =>
      cases x with
      | error => rfl
      | ok =>
        have hbeyond : ¬(addr - a).toNat < bytes.length := h
        rw [Answered.leaves]
        split
        · refine List.getElem?_eq_none ?_
          rw [SimulatedBoard.length_wordsOfBytes]
          omega
        · rfl
    | _ => rfl
  | _ => rfl

/-- What a register holds that held `w` before. -/
def contents (addr w : Word) (talk : List (Answered ν)) : Word :=
  talk.foldl (fun w said ↦ (said.leaves addr).getD w) w

/-- A reply that is right about a register that holds `w`: no access to it fails, and a read gives
what it holds. -/
def Answered.Faithful (addr w : Word) : Answered ν → Prop
  | ⟨.call (.read a), .ok value⟩ => a = addr → value = w
  | ⟨.call (.read a), .error _⟩ | ⟨.call (.write _ a), .error _⟩ => a ≠ addr
  | _ => True

/-- Replies that are right about a register that holds `w` at first. -/
def Faithful (addr : Word) : (w : Word) → List (Answered ν) → Prop
  | _, [] => True
  | w, said :: talk => said.Faithful addr w ∧ Faithful addr ((said.leaves addr).getD w) talk

variable {addr w : Word} {said : Answered ν} {talk talk' later : List (Answered ν)}

@[simp] theorem contents_nil : contents addr w ([] : List (Answered ν)) = w := rfl

theorem contents_append :
    contents addr w (talk ++ talk') = contents addr (contents addr w talk) talk' :=
  List.foldl_append

@[simp] theorem contents_snoc :
    contents addr w (talk ++ [said]) = (said.leaves addr).getD (contents addr w talk) := by
  rw [contents_append]
  rfl

/-- A register keeps what it holds while nothing else is left in it. -/
theorem contents_of_kept
    (kept : ∀ said ∈ talk, said.leaves addr = none ∨ said.leaves addr = some w) :
    contents addr w talk = w := by
  induction talk with
  | nil => rfl
  | cons said talk ih =>
    obtain ⟨hfirst, hrest⟩ := List.forall_mem_cons.mp kept
    have hsame : (said.leaves addr).getD w = w := by rcases hfirst with h | h <;> rw [h] <;> rfl
    rw [contents, List.foldl_cons, hsame]
    exact ih hrest

theorem faithful_append :
    Faithful addr w (talk ++ talk') ↔
      Faithful addr w talk ∧ Faithful addr (contents addr w talk) talk' := by
  induction talk generalizing w with
  | nil => simp [Faithful]
  | cons said talk ih =>
    rw [List.cons_append, Faithful, Faithful, ih, and_assoc]
    rfl

/-- A board that is faithful about a register takes every write of it. -/
theorem Faithful.taken (h : Faithful addr w talk) {value : Word} {x : Except LinkFault Unit}
    (hs : ⟨.call (.write value addr), x⟩ ∈ talk) : x = .ok () := by
  obtain ⟨earlier, later, rfl⟩ := List.append_of_mem hs
  have hwrite := (faithful_append.mp h).2.1
  cases x with
  | ok => rfl
  | error fault => exact absurd rfl hwrite

/-- A read of a register that was written finds what was left in it since. -/
theorem Faithful.read_back {value : Word} {x : Except LinkFault Word}
    (h : Faithful addr w (talk ++ ⟨.call (.write value addr), .ok ()⟩ ::
      (talk' ++ ⟨.call (.read addr), x⟩ :: later))) : x = .ok (contents addr value talk') := by
  have since := (faithful_append.mp h).2.2
  rw [Answered.leaves, if_pos rfl] at since
  have hread := (faithful_append.mp since).2.1
  cases x with
  | error fault => exact absurd rfl hread
  | ok word => exact congrArg _ (hread rfl)

instance (said : Answered ν) : Decidable (said.Faithful addr w) := by
  unfold Answered.Faithful
  split <;> infer_instance

def Faithful.decide (addr : Word) :
    (w : Word) → (talk : List (Answered ν)) → Decidable (Faithful addr w talk)
  | _, [] => .isTrue trivial
  | w, said :: talk =>
    have := Faithful.decide addr ((said.leaves addr).getD w) talk
    inferInstanceAs (Decidable (said.Faithful addr w ∧ Faithful addr _ talk))

instance : Decidable (Faithful addr w talk) := Faithful.decide addr w talk

end

end HashBoard
