import HashBoard.Proofs.Board.Answers
import HashBoard.Proofs.Hash.Order
import HashBoard.Proofs.Routine.Transcript

/-!
# Bytes in neighbouring registers

Bytes are written in bulk as words, the first byte of each as its highest, so reading the registers
as big-endian words gives the bytes back. Where no write fails, what a register holds follows from
the requests alone: it is the word of the last one that reaches it. No write fails on a board whose
registers can all be written.
-/

namespace HashBoard

/-- Eight neighbouring registers. -/
def Reg.block (addr : Word) : List Word := (List.range 8).map fun k ↦ addr + 4 * UInt32.ofNat k

namespace SimulatedBoard

/-! ### Words and bytes -/

/-- The bytes of words, the highest byte of each first. -/
def bytesOfWords (words : List Word) : List UInt8 :=
  words.flatMap fun word ↦ Hash.bigEndianBytes 4 word.toNat

/-- The bytes in eight neighbouring registers, each read as a big-endian word. -/
def blockBytes (b : SimulatedBoard) (addr : Word) : List UInt8 :=
  bytesOfWords ((Reg.block addr).map b.register)

theorem toNat_wordOfBytes (b0 b1 b2 b3 : UInt8) :
    (wordOfBytes b0 b1 b2 b3).toNat = Hash.bigEndian [b0, b1, b2, b3] := by
  have h0 := b0.toNat_lt
  have h1 := b1.toNat_lt
  have h2 := b2.toNat_lt
  have h3 := b3.toNat_lt
  have shifted (b : UInt8) (s : Word) (hs : s.toNat ≤ 24) :
      (b.toUInt32 <<< s).toNat = b.toNat <<< s.toNat := by
    have hb := b.toNat_lt
    have hpow : 2 ^ s.toNat ≤ 2 ^ 24 := Nat.pow_le_pow_right (by decide) hs
    have hmul : b.toNat * 2 ^ s.toNat ≤ 255 * 2 ^ 24 := Nat.mul_le_mul (by omega) hpow
    rw [UInt32.toNat_shiftLeft, UInt8.toNat_toUInt32, Nat.mod_eq_of_lt (by omega : s.toNat < 32),
      Nat.shiftLeft_eq, Nat.mod_eq_of_lt (by omega)]
  have low : b2.toNat <<< 8 ||| b3.toNat = b2.toNat * 2 ^ 8 + b3.toNat := by
    rw [← Nat.shiftLeft_add_eq_or_of_lt h3, Nat.shiftLeft_eq]
  have middle : b1.toNat <<< 16 ||| (b2.toNat * 2 ^ 8 + b3.toNat) =
      b1.toNat * 2 ^ 16 + (b2.toNat * 2 ^ 8 + b3.toNat) := by
    rw [← Nat.shiftLeft_add_eq_or_of_lt (by omega), Nat.shiftLeft_eq]
  have high : b0.toNat <<< 24 ||| (b1.toNat * 2 ^ 16 + (b2.toNat * 2 ^ 8 + b3.toNat)) =
      b0.toNat * 2 ^ 24 + (b1.toNat * 2 ^ 16 + (b2.toNat * 2 ^ 8 + b3.toNat)) := by
    rw [← Nat.shiftLeft_add_eq_or_of_lt (by omega), Nat.shiftLeft_eq]
  have value : Hash.bigEndian [b0, b1, b2, b3] =
      b0.toNat * 2 ^ 24 + (b1.toNat * 2 ^ 16 + (b2.toNat * 2 ^ 8 + b3.toNat)) := by
    simp only [Hash.bigEndian, List.foldl]
    omega
  rw [wordOfBytes, UInt32.toNat_or, UInt32.toNat_or, UInt32.toNat_or, shifted _ _ (by decide),
    shifted _ _ (by decide), shifted _ _ (by decide), UInt8.toNat_toUInt32, Nat.or_assoc,
    Nat.or_assoc, value]
  exact (congrArg _ ((congrArg _ low).trans middle)).trans high

/-- Whole words give the bytes back that they were made of. -/
theorem bytesOfWords_wordsOfBytes {bytes : List UInt8} (h : bytes.length % 4 = 0) :
    bytesOfWords (wordsOfBytes true bytes) = bytes := by
  fun_induction wordsOfBytes true bytes with
  | case1 b0 b1 b2 b3 rest ih =>
    have four : Hash.bigEndianBytes 4 (wordInOrder true b0 b1 b2 b3).toNat = [b0, b1, b2, b3] := by
      rw [wordInOrder, if_pos rfl, toNat_wordOfBytes]
      exact Hash.bigEndianBytes_bigEndian [b0, b1, b2, b3]
    simp only [List.length_cons] at h
    rw [bytesOfWords, List.flatMap_cons, four]
    exact congrArg ([b0, b1, b2, b3] ++ ·) (ih (by omega))
  | case5 => rfl
  | _ => simp at h

/-- A word of a hash goes to the register with its number. -/
theorem wordFor_block {addr : Word} {words : List Word} {k : Nat} (hk : k < 8) :
    wordFor addr words (addr + 4 * UInt32.ofNat k) = words[k]? := by
  have offset : (addr + 4 * UInt32.ofNat k - addr).toNat = 4 * k := by
    have hcancel : addr + 4 * UInt32.ofNat k - addr = 4 * UInt32.ofNat k := by grind
    have hsmall : ∀ k < 8, (4 * UInt32.ofNat k : Word).toNat = 4 * k := by decide
    rw [hcancel, hsmall k hk]
  rw [wordFor, offset, Nat.mul_mod_right, Nat.mul_div_cancel_left k (by decide)]
  rfl

/-- Registers that hold the words of 32 bytes give the bytes back. -/
theorem blockBytes_eq {b : SimulatedBoard} {addr : Word} {bytes : List UInt8}
    (hbytes : bytes.length = 32)
    (h : ∀ k < 8, ∀ word, (wordsOfBytes true bytes)[k]? = some word →
      b.register (addr + 4 * UInt32.ofNat k) = word) : b.blockBytes addr = bytes := by
  have words : (Reg.block addr).map b.register = wordsOfBytes true bytes := by
    refine List.ext_getElem? fun k ↦ ?_
    rw [Reg.block, List.map_map, List.getElem?_map]
    have hlength := length_wordsOfBytes true bytes
    by_cases hk : k < 8
    · have hword := List.getElem?_eq_getElem (show k < (wordsOfBytes true bytes).length by omega)
      rw [List.getElem?_range hk, hword, ← h k hk _ hword]
      rfl
    · rw [List.getElem?_eq_none (by simpa using hk), List.getElem?_eq_none (by omega)]
      rfl
  rw [blockBytes, words, bytesOfWords_wordsOfBytes (by omega)]

end SimulatedBoard

/-! ### What requests leave -/

section Requests

variable {ν : Type} {addr w : Word} {talk : List (Answered ν)}

/-- A write that failed, of one register or of several. -/
def Answered.isRefused : Answered ν → Bool
  | ⟨.call (.write ..), .error _⟩ | ⟨.call (.writeBulk ..), .error _⟩ => true
  | _ => false

/-- What a request leaves in a register, if it succeeds. -/
def Request.puts (addr : Word) : Request ν → Option Word
  | .call (.write value a) => if a = addr then some value else none
  | .call (.writeBulk bytes a swap) =>
    SimulatedBoard.wordFor a (SimulatedBoard.wordsOfBytes swap bytes) addr
  | _ => none

theorem leaves_eq_puts {said : Answered ν} (h : said.isRefused = false) :
    said.leaves addr = said.request.puts addr := by
  obtain ⟨r, x⟩ := said
  cases r with
  | call c =>
    cases c with
    | write value a =>
      cases x with
      | ok => rfl
      | error => cases h
    | writeBulk bytes a swap =>
      cases x with
      | ok => rfl
      | error => cases h
    | _ => rfl
  | _ => rfl

theorem puts_of_not_access {r : Request ν} (h : r.isAccess = false) : r.puts addr = none := by
  cases r with
  | call c =>
    cases c with
    | write | writeBulk => cases h
    | _ => rfl
  | _ => rfl

/-- A single write leaves nothing in other registers. -/
theorem puts_write_of_ne {value a : Word} (h : a ≠ addr) :
    (.call (.write value a) : Request ν).puts addr = none := if_neg h

theorem puts_write_self (value a : Word) :
    (.call (.write value a) : Request ν).puts a = some value := if_pos rfl

/-- A hash leaves nothing in registers other than its eight. -/
theorem puts_hash_of_not_mem {base : Word} {bytes : List UInt8} (hbytes : bytes.length = 32)
    (h : addr ∉ Reg.block base) :
    (.call (.writeBulk bytes base true) : Request ν).puts addr = none := by
  change SimulatedBoard.wordFor _ _ _ = none
  rw [SimulatedBoard.wordFor]
  split
  · rename_i haligned
    refine List.getElem?_eq_none ?_
    rw [SimulatedBoard.length_wordsOfBytes, hbytes]
    by_contra hwithin
    have hk : (addr - base).toNat / 4 < 8 := by omega
    have hoffset : 4 * UInt32.ofNat ((addr - base).toNat / 4) = addr - base := by
      have hfour : (4 : Word).toNat = 4 := rfl
      apply UInt32.toNat_inj.mp
      rw [UInt32.toNat_mul, UInt32.toNat_ofNat', hfour]
      omega
    have hself : base + 4 * UInt32.ofNat ((addr - base).toNat / 4) = addr := by
      rw [hoffset]
      grind
    exact h (hself ▸ List.mem_map_of_mem (List.mem_range.mpr hk))
  · rfl

/-- A hash leaves each of its words in the register with its number. -/
theorem puts_hash_block (base : Word) (bytes : List UInt8) {k : Nat} (hk : k < 8) :
    (.call (.writeBulk bytes base true) : Request ν).puts (base + 4 * UInt32.ofNat k) =
      (SimulatedBoard.wordsOfBytes true bytes)[k]? := SimulatedBoard.wordFor_block hk

theorem fitsInBulk_hash {bytes : List UInt8} (hbytes : bytes.length = 32) (base : Word) :
    SimulatedBoard.FitsInBulk (.call (.writeBulk bytes base true) : Request ν) := by
  rw [SimulatedBoard.FitsInBulk, SimulatedBoard.length_wordsOfBytes, hbytes]
  decide

/-- What a register holds once requests succeeded. -/
def overwritten (addr : Word) : (w : Word) → List (Request ν) → Word :=
  List.foldl fun w r ↦ (r.puts addr).getD w

/-- Where no write failed, what a register holds follows from what was accessed. -/
theorem contents_eq_overwritten (taken : ∀ said ∈ talk, said.isRefused = false) :
    contents addr w talk = overwritten addr w ((accesses talk).map Answered.request) := by
  induction talk generalizing w with
  | nil => rfl
  | cons said talk ih =>
    obtain ⟨hfirst, hrest⟩ := List.forall_mem_cons.mp taken
    rw [contents, List.foldl_cons, leaves_eq_puts hfirst, accesses, List.filter_cons]
    split
    · exact ih hrest
    · rename_i haccess
      rw [puts_of_not_access (Bool.not_eq_true _ ▸ haccess)]
      exact ih hrest

end Requests

/-! ### Boards that take every write -/

namespace SimulatedBoard

variable {ν : Type} {b : SimulatedBoard}

theorem brokenWrites_perform (b : SimulatedBoard) (c : Call) :
    (b.perform c).1.brokenWrites = b.brokenWrites := by
  cases c with
  | read a =>
    rw [perform, read]
    split
    · rfl
    · split
      · rfl
      · split <;> rfl
  | write value a =>
    rw [perform, write]
    split <;> rfl
  | writeBulk bytes a swap =>
    obtain ⟨registers, hset⟩ := setRegisters_frame a (wordsOfBytes swap bytes) b
    rw [perform, writeBulk, hset]
    split <;> rfl
  | upload bytes a =>
    rw [perform, upload]
    split <;> rfl
  | move src dst length =>
    rw [perform, move]
    split <;> rfl
  | awaitInterrupt mask timeout =>
    obtain ⟨interrupt, hwait⟩ := perform_awaitInterrupt b mask timeout
    rw [hwait]
    split <;> rfl
  | setTimeout | enableInterrupts | kick | disconnect => rfl

theorem isRefused_perform (h : b.brokenWrites = []) (c : Call) :
    (⟨.call c, (b.perform c).2⟩ : Answered ν).isRefused = false := by
  cases c with
  | write value a => simp [perform, write, h, Answered.isRefused]
  | writeBulk bytes a swap => simp [perform, writeBulk, h, Answered.isRefused]
  | _ => rfl

/-- A board without broken writes refuses none, whoever answers the rest. -/
theorem not_refused_of_gives {others : Answering ν} (h : b.brokenWrites = [])
    {s talk : List (Answered ν)} (gives : (b.answering others).Gives s talk) :
    ∀ said ∈ talk, said.isRefused = false := by
  intro said hs
  have intact (s : List (Answered ν)) : (s.foldl upon b).brokenWrites = [] := by
    induction s using List.reverseRecOn with
    | nil => exact h
    | append_singleton s said ih =>
      rw [List.foldl_append, List.foldl_cons, List.foldl_nil, upon]
      split
      · rw [brokenWrites_perform, ih]
      · exact ih
  obtain ⟨s', hreply⟩ := gives.reply_eq hs
  obtain ⟨r, x⟩ := said
  cases r with
  | call c =>
    obtain rfl : x = ((s'.foldl upon b).perform c).2 := hreply
    exact isRefused_perform (intact s') c
  | _ => rfl

/-- A routine without loops comes to its end on such a board, whoever answers the rest. -/
theorem exists_taken {α : Type} {p : Routine ν α} (hp : p.Brief) (h : b.brokenWrites = [])
    (others : Answering ν) :
    ∃ talk a b', Routine.Run p talk a ∧ Answers b talk b' ∧ (b.answering others).Gives [] talk ∧
      ∀ said ∈ talk, said.isRefused = false := by
  obtain ⟨talk, a, b', run, answers, gives⟩ := exists_answers hp b others
  exact ⟨talk, a, b', run, answers, gives, not_refused_of_gives h gives⟩

end SimulatedBoard

end HashBoard
