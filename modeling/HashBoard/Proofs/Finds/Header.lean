import HashBoard.Proofs.Board.Registers
import HashBoard.Proofs.Scene.Memory
import HashBoard.Proofs.Search.Asks

/-!
# The header that is mined

Once a search has written the header of its work, the header registers hold it as long as the search
is under way: nobody else writes there, and the search writes nothing else there.
-/

namespace HashBoard

/-- The registers of the header. -/
def Reg.headerWords : List Word := (List.range 8).map fun k ↦ Reg.header + 4 * UInt32.ofNat k

/-- The words of a header. -/
def Work.headerWords (work : Work) : List Word := SimulatedBoard.wordsOfBytes true work.header.bytes

section

variable {ν : Type}

/-- What the header registers hold, which held zero at first. -/
def headerIn (talk : List (Answered ν)) : List Word :=
  Reg.headerWords.map fun addr ↦ contents addr 0 talk

/-- The header of some work is written, and the board takes it. -/
def Work.headerWritten (work : Work) : Answered ν :=
  ⟨.call (.writeBulk work.header.bytes Reg.header true), .ok ()⟩

end

namespace Finds

open Routine Board

variable {ν : Type} {work : Work} {r : Request ν}

/-- A request that keeps to some work: nothing but its header is written to the header registers,
and what is handed over is for it. -/
structure KeepsTo (work : Work) (r : Request ν) : Prop where
  header : r = .call (.writeBulk work.header.bytes Reg.header true) ∨
    ∀ addr ∈ Reg.headerWords, ¬r.Writes addr
  submit : ∀ solution, r = .submit solution → solution.work = work

theorem keepsTo_write {value addr : Word} (h : addr ∉ Reg.headerWords) :
    KeepsTo work (.call (.write value addr) : Request ν) := by
  refine ⟨.inr ?_, nofun⟩
  rintro _ haddr rfl
  exact h haddr

/-- A hash that is written to the target registers does not reach the header. -/
theorem keepsTo_target (hash : Hash) :
    KeepsTo work (.call (.writeBulk hash.bytes Reg.target true) : Request ν) := by
  have apart : Reg.headerWords.all fun addr ↦ 32 ≤ (addr - Reg.target).toNat := by decide
  refine ⟨.inr fun addr haddr hwrites ↦ ?_, nofun⟩
  have hwithin : (addr - Reg.target).toNat < hash.bytes.length := hwrites
  have hapart : 32 ≤ (addr - Reg.target).toNat :=
    of_decide_eq_true (List.all_eq_true.mp apart addr haddr)
  have := hash.length_eq
  omega

theorem keepsTo_of_isQuiet (h : r.isQuiet) : KeepsTo work r := by
  refine ⟨.inr fun addr _ ↦ r.not_writes_of_isQuiet h addr, ?_⟩
  rintro solution rfl
  cases h

theorem keepsTo_of_modest (h : Modest r) : KeepsTo work r := by
  cases h with
  | quiet h => exact keepsTo_of_isQuiet h
  | coreFlags | coreOff | powerOff => exact keepsTo_write (by decide)
  | _ => exact ⟨.inr fun _ _ ↦ id, nofun⟩

theorem roomToSearch_keepsTo : RoomToSearch (KeepsTo work : Request ν → Prop) work where
  quiet _ := keepsTo_of_isQuiet
  programmed _ _ _ := ⟨.inr fun _ _ ↦ id, nofun⟩
  stall := ⟨.inr fun _ _ ↦ id, nofun⟩
  slots _ _ := ⟨.inr fun _ _ ↦ id, nofun⟩
  checks _ _ := ⟨.inr fun _ _ ↦ id, nofun⟩
  interrupts _ _ := ⟨.inr fun _ _ ↦ id, nofun⟩
  looks := ⟨.inr fun _ _ ↦ id, nofun⟩
  tunes _ := ⟨.inr fun _ _ ↦ id, nofun⟩
  averages _ _ := ⟨.inr fun _ _ ↦ id, nofun⟩
  books _ _ := ⟨.inr fun _ _ ↦ id, nofun⟩
  searching _ := ⟨.inr fun _ _ ↦ id, nofun⟩
  halt := ⟨.inr fun _ _ ↦ id, nofun⟩
  acquire := ⟨.inr fun _ _ ↦ id, nofun⟩
  release := ⟨.inr fun _ _ ↦ id, nofun⟩
  writes value addr h := by
    refine keepsTo_write ?_
    simp only [List.mem_cons, List.not_mem_nil, or_false] at h
    rcases h with rfl | rfl | rfl | rfl | rfl <;> decide
  header := ⟨.inl rfl, nofun⟩
  target := keepsTo_target
  submits solution h := by
    refine ⟨.inr fun _ _ ↦ id, ?_⟩
    rintro _ ⟨⟩
    exact h

/-! ## What the header registers hold -/

/-- What a header leaves in its registers. -/
theorem leaves_headerWritten {k : Nat} (hk : k < 8) :
    (work.headerWritten : Answered ν).leaves (Reg.header + 4 * UInt32.ofNat k) =
      work.headerWords[k]? := by
  have offset : ∀ k < 8, (Reg.header + 4 * UInt32.ofNat k - Reg.header).toNat = 4 * k := by decide
  rw [Work.headerWritten, Answered.leaves, offset k hk, if_pos (Nat.mul_mod_right 4 k),
    Nat.mul_div_cancel_left k (by decide)]
  rfl

theorem length_headerWords : work.headerWords.length = 8 := by
  rw [Work.headerWords, SimulatedBoard.length_wordsOfBytes, work.header.length_eq]

/-- What keeps to some work leaves in a header register either nothing or the word of its header. -/
theorem KeepsTo.leaves {k : Nat} (hk : k < 8) {x : Reply r} (h : KeepsTo work r) :
    (⟨r, x⟩ : Answered ν).leaves (Reg.header + 4 * UInt32.ofNat k) = none ∨
      (⟨r, x⟩ : Answered ν).leaves (Reg.header + 4 * UInt32.ofNat k) = work.headerWords[k]? := by
  rcases h.header with rfl | hspares
  · cases x with
    | error fault => exact .inl rfl
    | ok => exact .inr (leaves_headerWritten hk)
  · refine .inl (leaves_of_not_writes (hspares _ ?_) x)
    exact List.mem_map_of_mem (List.mem_range.mpr hk)

/-- A header that was written stays as long as all requests keep to its work. -/
theorem headerIn_of_keepsTo {talk since : List (Answered ν)}
    (keeps : ∀ said ∈ since, KeepsTo work said.request) :
    headerIn (talk ++ work.headerWritten :: since) = work.headerWords := by
  have hlength : (headerIn (talk ++ work.headerWritten :: since)).length =
      work.headerWords.length := by
    rw [length_headerWords, headerIn, List.length_map]
    rfl
  refine List.ext_getElem hlength fun k _ hk ↦ ?_
  have hword := List.getElem?_eq_getElem hk
  rw [length_headerWords] at hk
  simp only [headerIn, Reg.headerWords, List.getElem_map, List.getElem_range]
  rw [List.append_cons, contents_append, contents_snoc, leaves_headerWritten hk, hword,
    Option.getD_some]
  refine contents_of_kept fun said hsaid ↦ ?_
  rw [← hword]
  exact (keeps said hsaid).leaves hk

/-- Everything that is said while a search is under way keeps to its work. -/
theorem keepsTo_of_within [Quantity ν] {b : Board} {memory : Memory ν} {feed : Feed}
    {before since : List (Occurrence (b.errands (ν := ν)))} {s : Scene (b.errands (ν := ν))}
    (run : Scene.Runs (.quiet memory feed) (before ++ .begins (.search work) :: since) s)
    (within : ∀ e ∈ since, e.IsWithin) :
    ∀ said ∈ talkOf since, KeepsTo work said.request := by
  intro said hsaid
  obtain ⟨p, -, hpath⟩ := run.owner_of_begun within
  rw [List.append_cons] at run
  rcases run.said_cases (Scene.orderly_quiet memory feed) hsaid with hown | hmodest
  · exact (only_search roomToSearch_keepsTo b).of_path hpath said hown
  · exact keepsTo_of_modest hmodest

end Finds

end HashBoard
