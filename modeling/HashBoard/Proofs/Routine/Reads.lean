import HashBoard.Proofs.Routine.Only

/-!
# What was read

What a transcript tells of a register is what its first read was answered. A read that is mentioned,
or stands in for a fault, is told of all the same.
-/

namespace HashBoard

variable {ν : Type}

/-- What was answered to a read of a register. -/
def Answered.told? (addr : Word) : Answered ν → Option (Except LinkFault Word)
  | ⟨.call (.read a), x⟩ => if a = addr then some x else none
  | _ => none

/-- The word that was read first of a register; zero if the read failed. -/
def wordRead (addr : Word) (talk : List (Answered ν)) : Word :=
  match talk.findSome? (Answered.told? addr) with
  | some (.ok word) => word
  | _ => 0

namespace Routine

/-- What is asked in a run is what the routine may ask for. -/
theorem Only.of_run {α : Type} {P : Request ν → Prop} {p : Routine ν α} {talk : List (Answered ν)}
    {a : α} (run : Run p talk a) (h : p.Only P) : ∀ said ∈ talk, P said.request := by
  obtain ⟨q, hp, -⟩ := run
  exact h.of_path hp

variable {talk : List (Answered ν)} {addr addr' : Word} {x : Except LinkFault Word}

theorem told?_of_ne {said : Answered ν} (h : said.request ≠ .call (.read addr)) :
    said.told? addr = none := by
  unfold Answered.told?
  split
  · rename_i a x
    exact if_neg fun ha ↦ h (congrArg (fun a ↦ Request.call (.read a)) ha)
  · rfl

theorem findSome?_told?_append (h : ∀ said ∈ talk, said.request ≠ .call (.read addr))
    (more : List (Answered ν)) :
    (talk ++ more).findSome? (Answered.told? addr) = more.findSome? (Answered.told? addr) := by
  have hnone : talk.findSome? (Answered.told? addr) = none :=
    List.findSome?_eq_none_iff.mpr fun said hs ↦ told?_of_ne (h said hs)
  rw [List.findSome?_append, hnone, Option.none_or]

theorem wordRead_append (h : ∀ said ∈ talk, said.request ≠ .call (.read addr))
    (more : List (Answered ν)) : wordRead addr (talk ++ more) = wordRead addr more := by
  rw [wordRead, findSome?_told?_append h, wordRead]

/-! ## Runs of a single access -/

/-- A read, with what is mentioned of it. -/
theorem exists_of_run_read (run : Run (Routine.read addr) talk x) :
    ∃ rest, talk = ⟨.call (.read addr), x⟩ :: rest ∧
      ∀ said ∈ rest, ∃ event, said.request = .note event := by
  obtain ⟨y, rest, rfl, hrest⟩ := run_ask_iff.mp run
  cases y with
  | error fault =>
    obtain ⟨rfl, rfl⟩ := run_done_iff.mp hrest
    exact ⟨[], rfl, List.forall_mem_nil _⟩
  | ok value =>
    obtain ⟨u, last, rfl, hlast⟩ := run_ask_iff.mp hrest
    obtain ⟨rfl, rfl⟩ := run_done_iff.mp hlast
    exact ⟨_, rfl, List.forall_mem_singleton.mpr ⟨_, rfl⟩⟩

theorem told?_of_run_read (run : Run (Routine.read addr) talk x) (more : List (Answered ν)) :
    (talk ++ more).findSome? (Answered.told? addr) = some x := by
  obtain ⟨rest, rfl, -⟩ := exists_of_run_read run
  have htold : (⟨.call (.read addr), x⟩ : Answered ν).told? addr = some x := if_pos rfl
  rw [List.cons_append, List.findSome?_cons, htold]

theorem told?_of_run_read_ne (run : Run (Routine.read addr) talk x) (h : addr ≠ addr')
    (more : List (Answered ν)) :
    (talk ++ more).findSome? (Answered.told? addr') = more.findSome? (Answered.told? addr') := by
  refine findSome?_told?_append (fun said hs ↦ ?_) more
  obtain ⟨rest, rfl, hrest⟩ := exists_of_run_read run
  rcases List.mem_cons.mp hs with rfl | hs
  · exact fun heq ↦ h (by cases heq; rfl)
  · obtain ⟨event, hevent⟩ := hrest said hs
    rw [hevent]
    nofun

/-- A read that counts as zero if it fails, with what is mentioned of it. -/
theorem exists_of_run_readOr {what : String} {word : Word}
    (run : Run (readOr addr 0 what) talk word) :
    ∃ x rest, talk = ⟨.call (.read addr), x⟩ :: rest ∧
      word = wordRead addr [(⟨.call (.read addr), x⟩ : Answered ν)] ∧
      ∀ said ∈ rest, ∃ event, said.request = .note event := by
  obtain ⟨first, x, last, rfl, hread, hlast⟩ := run_bind_iff.mp run
  obtain ⟨rest, rfl, hrest⟩ := exists_of_run_read hread
  refine ⟨x, rest ++ last, List.cons_append, ?_, ?_⟩
  · have htold : (⟨.call (.read addr), x⟩ : Answered ν).told? addr = some x := if_pos rfl
    rw [wordRead, List.findSome?_cons, htold]
    cases x with
    | ok value => exact (run_done_iff.mp hlast).2.symm
    | error fault =>
      obtain ⟨_, _, _, rfl, -, hend⟩ := run_bind_iff.mp hlast
      exact (run_done_iff.mp hend).2.symm
  · refine List.forall_mem_append.mpr ⟨hrest, ?_⟩
    cases x with
    | ok value =>
      obtain ⟨rfl, -⟩ := run_done_iff.mp hlast
      exact List.forall_mem_nil _
    | error fault =>
      obtain ⟨u, more, rfl, hmore⟩ := run_ask_iff.mp hlast
      obtain ⟨rfl, -⟩ := run_done_iff.mp hmore
      exact List.forall_mem_singleton.mpr ⟨_, rfl⟩

theorem wordRead_of_run {what : String} {word : Word} (run : Run (readOr addr 0 what) talk word)
    (more : List (Answered ν)) : wordRead addr (talk ++ more) = word := by
  obtain ⟨x, rest, rfl, rfl, -⟩ := exists_of_run_readOr run
  have htold : (⟨.call (.read addr), x⟩ : Answered ν).told? addr = some x := if_pos rfl
  rw [wordRead, wordRead, List.cons_append, List.findSome?_cons, List.findSome?_cons, htold]

theorem wordRead_of_run_ne {what : String} {word : Word}
    (run : Run (readOr addr 0 what) talk word) (h : addr ≠ addr') (more : List (Answered ν)) :
    wordRead addr' (talk ++ more) = wordRead addr' more := by
  refine wordRead_append (fun said hs ↦ ?_) more
  obtain ⟨x, rest, rfl, -, hrest⟩ := exists_of_run_readOr run
  rcases List.mem_cons.mp hs with rfl | hs
  · exact fun heq ↦ h (by cases heq; rfl)
  · obtain ⟨event, hevent⟩ := hrest said hs
    rw [hevent]
    nofun

/-- A write, with what is mentioned of it before and after. -/
theorem exists_of_run_tryWrite {value : Word} {what : String} {u : Unit}
    (run : Run (tryWrite value addr what) talk u) :
    ∃ mention x later, talk = mention :: ⟨.call (.write value addr), x⟩ :: later ∧
      (∃ event, mention.request = .note event) ∧
      ∀ said ∈ later, ∃ event, said.request = .note event := by
  obtain ⟨v, rest, rfl, hrest⟩ := run_ask_iff.mp run
  obtain ⟨x, later, rfl, hlater⟩ := run_ask_iff.mp hrest
  refine ⟨_, x, later, rfl, ⟨_, rfl⟩, ?_⟩
  cases x with
  | ok =>
    obtain ⟨rfl, -⟩ := run_done_iff.mp hlater
    exact List.forall_mem_nil _
  | error fault =>
    obtain ⟨w, last, rfl, hlast⟩ := run_ask_iff.mp hlater
    obtain ⟨rfl, -⟩ := run_done_iff.mp hlast
    exact List.forall_mem_singleton.mpr ⟨_, rfl⟩

end Routine

end HashBoard
