import HashBoard.Proofs.Board.Answers
import HashBoard.Proofs.Epoch.Brief
import HashBoard.Proofs.Routine.Sifting
import HashBoard.Proofs.Spread.Memory
import HashBoard.Proofs.Stall.Detection

/-!
# Spreading a dataset

The pieces of the staged dataset are copied one after the other, each after a look for a shutdown,
and at last the image that they make up. A shutdown that is seen and a copy that fails end it. So
what is asked and answered is the same every time up to the point where it ends (`Course`), and the
copies that were made are the first so many of those that spread a dataset.
-/

namespace HashBoard

/-- Whether a request is a look for a shutdown or a copy within the memory. -/
def Request.isSpreading {ν : Type} : Request ν → Bool
  | .isCancelled | .call (.move ..) => true
  | _ => false

/-- A copy that was made. -/
def Answered.moved? {ν : Type} : Answered ν → Option Dag.Copy
  | ⟨.call (.move src dst length), .ok ()⟩ => some (src, dst, length)
  | _ => none

namespace Spread

open Board Routine

variable {ν : Type}

/-- The looks for a shutdown and the copies that were tried. -/
def spreads (talk : List (Answered ν)) : List (Answered ν) := sift Request.isSpreading talk

/-- The copies that were made, in order. -/
def made (talk : List (Answered ν)) : List Dag.Copy := talk.filterMap Answered.moved?

/-- A copy is tried. -/
def tried (c : Dag.Copy) (x : Except LinkFault Unit) : Answered ν :=
  ⟨.call (.move c.1 c.2.1 c.2.2), x⟩

/-- The first pieces are copied, and no shutdown is seen. -/
def legs (k : ℕ) : List (Answered ν) :=
  (List.range k).flatMap fun i ↦ [⟨.isCancelled, false⟩, tried (Dag.pieceCopy i) (.ok ())]

/-- The copy of the whole image. -/
def image : Dag.Copy := (0, Reg.imageTarget, Reg.imageLength)

/-- How spreading a dataset goes, by the number of copies that were made. -/
inductive Course : (k : ℕ) → List (Answered ν) → Except BoardError Unit → Prop
  /-- Everything is copied. -/
  | complete : Course 257 (legs 256 ++ [tried image (.ok ())]) (.ok ())
  /-- The image cannot be copied. -/
  | imageFailed (fault : LinkFault) : Course 256 (legs 256 ++ [tried image (.error fault)]) (.ok ())
  /-- Piece `k` cannot be copied. -/
  | pieceFailed {k : ℕ} (hk : k < 256) (fault : LinkFault) :
    Course k (legs k ++ [⟨.isCancelled, false⟩, tried (Dag.pieceCopy k) (.error fault)]) (.ok ())
  /-- A shutdown is seen before piece `k`. -/
  | cancelled {k : ℕ} (hk : k < 256) :
    Course k (legs k ++ [⟨.isCancelled, true⟩]) (.error .cancelled)

/-! ## Piece by piece -/

theorem legs_succ (k : ℕ) :
    legs (ν := ν) (k + 1) =
      legs k ++ [⟨.isCancelled, false⟩] ++ [tried (Dag.pieceCopy k) (.ok ())] := by
  simp [legs, List.range_succ]

/-- How copying the pieces goes. -/
inductive Pieces : List (Answered ν) → Except BoardError Bool → Prop
  | all : Pieces (legs 256) (.ok true)
  | failed {k : ℕ} (hk : k < 256) (fault : LinkFault) :
    Pieces (legs k ++ [⟨.isCancelled, false⟩, tried (Dag.pieceCopy k) (.error fault)]) (.ok false)
  | cancelled {k : ℕ} (hk : k < 256) :
    Pieces (legs k ++ [⟨.isCancelled, true⟩]) (.error .cancelled)

theorem ensures_spreadPieces {n i : ℕ} (h : i + n = 256) :
    (spreadPieces n i).Ensures (sifting (ν := ν) Request.isSpreading)
      (fun result t ↦ Pieces t result) (legs i) := by
  induction n generalizing i with
  | zero =>
    obtain rfl : i = 256 := h
    exact .all
  | succ n ih =>
    refine ensures_look rfl fun cancelled ↦ ?_
    cases cancelled with
    | true => exact .cancelled (by omega)
    | false =>
      refine ensures_look_move rfl (fun _ ↦ rfl) fun x ↦ ?_
      cases x with
      | ok =>
        have rest := ih (i := i + 1) (by omega)
        rw [legs_succ] at rest
        exact rest
      | error fault =>
        refine ensures_beside rfl fun _ ↦ ?_
        rw [List.append_assoc]
        exact .failed (by omega) fault

theorem ensures_spread :
    (spread : Routine ν _).Ensures (sifting Request.isSpreading)
      (fun result t ↦ ∃ k, Course k t result) [] := by
  refine ensures_aside (p := enter _) ⟨rfl, fun _ ↦ only_request rfl⟩ fun _ ↦ ?_
  refine ensures_beside rfl fun _ ↦ ?_
  refine ensures_beside rfl fun started ↦ ?_
  refine (ensures_spreadPieces (Nat.zero_add _)).seq fun result t pieces ↦ ?_
  cases pieces with
  | cancelled hk => exact ⟨_, .cancelled hk⟩
  | failed hk fault => exact ⟨_, .pieceFailed hk fault⟩
  | all =>
    refine ensures_look_move rfl (fun _ ↦ rfl) fun x ↦ ?_
    cases x with
    | error fault =>
      exact ensures_beside rfl fun _ ↦ ⟨_, .imageFailed fault⟩
    | ok =>
      refine ensures_beside rfl fun finished ↦ ?_
      exact ensures_beside rfl fun _ ↦ ⟨_, .complete⟩

/-! ## What was copied -/

theorem made_sift (talk : List (Answered ν)) :
    made (sift Request.isSpreading talk) = made talk := by
  refine filterMap_sift (fun said hsaid ↦ ?_) talk
  unfold Answered.moved?
  split
  · cases hsaid
  · rfl

theorem made_append (talk more : List (Answered ν)) :
    made (talk ++ more) = made talk ++ made more :=
  List.filterMap_append

theorem made_legs (k : ℕ) : made (legs (ν := ν) k) = Dag.pieceCopies k := by
  induction k with
  | zero => rfl
  | succ k ih =>
    rw [legs_succ, made_append, made_append, ih, Dag.pieceCopies_succ]
    exact congrArg (· ++ [Dag.pieceCopy k]) (List.append_nil _)

theorem take_copies {k : ℕ} (h : k ≤ 256) : Dag.copies.take k = Dag.pieceCopies k := by
  rw [Dag.copies, List.take_append_of_le_length (by rwa [Dag.length_pieceCopies]), Dag.pieceCopies,
    Dag.pieceCopies, ← List.map_take, List.take_range, Reg.chunkCount, Nat.min_eq_left h]

variable {k : ℕ} {talk : List (Answered ν)} {result : Except BoardError Unit}

/-- The copies that were made are the first ones of those that spread a dataset. -/
theorem Course.made_eq (h : Course k talk result) : made talk = Dag.copies.take k := by
  cases h with
  | complete =>
    rw [List.take_of_length_le Dag.length_copies.le, made_append, made_legs]
    rfl
  | imageFailed fault =>
    rw [take_copies (Nat.le_refl _), made_append, made_legs]
    exact List.append_nil _
  | pieceFailed hk | cancelled hk =>
    rw [take_copies hk.le, made_append, made_legs]
    exact List.append_nil _

theorem eq_of_tried_eq {c c' : Dag.Copy} {x x' : Except LinkFault Unit}
    (h : tried (ν := ν) c x = tried c' x') : c = c' := by
  have hcall := Request.call.inj (congrArg Answered.request h)
  obtain ⟨hsrc, hdst, hlength⟩ := Call.move.inj hcall
  exact Prod.ext hsrc (Prod.ext hdst hlength)

/-- No piece is staged where the image begins. -/
theorem tried_image_ne {i : ℕ} (hi : i < 256) (x y : Except LinkFault Unit) :
    tried (ν := ν) image x ≠ tried (Dag.pieceCopy i) y := by
  intro h
  obtain ⟨hsrc, -, -⟩ := toNat_pieceCopy hi
  rw [← eq_of_tried_eq h, image, UInt64.toNat_zero] at hsrc
  omega

theorem tried_image_notMem_legs {k : ℕ} (hk : k ≤ 256) (x : Except LinkFault Unit) :
    tried image x ∉ legs (ν := ν) k := by
  intro h
  obtain ⟨i, hi, hmem⟩ := List.mem_flatMap.mp h
  have hi : i < 256 := Nat.lt_of_lt_of_le (List.mem_range.mp hi) hk
  rcases List.mem_cons.mp hmem with hlook | hcopy
  · exact nomatch congrArg Answered.request hlook
  · exact tried_image_ne hi _ _ (List.mem_singleton.mp hcopy)

/-- The image is tried only after all pieces. -/
theorem Course.le_of_tried_image (h : Course k talk result) {x : Except LinkFault Unit}
    (hx : tried image x ∈ talk) : 256 ≤ k := by
  cases h with
  | complete | imageFailed => decide
  | pieceFailed hk fault =>
    rcases List.mem_append.mp hx with hlegs | hlast
    · exact absurd hlegs (tried_image_notMem_legs hk.le x)
    · rcases List.mem_cons.mp hlast with hlook | hcopy
      · exact nomatch congrArg Answered.request hlook
      · exact absurd (List.mem_singleton.mp hcopy) (tried_image_ne hk _ _)
  | cancelled hk =>
    rcases List.mem_append.mp hx with hlegs | hlook
    · exact absurd hlegs (tried_image_notMem_legs hk.le x)
    · exact nomatch congrArg Answered.request (List.mem_singleton.mp hlook)

end Spread

/-! ## What a simulated board records -/

namespace SimulatedBoard

variable {ν : Type} {b b' : SimulatedBoard}

theorem moves_setRegisters (words : List Word) (addr : Word) :
    (setRegisters addr words b).moves = b.moves := by
  induction words generalizing addr b with
  | nil => rfl
  | cons word rest ih => exact ih _

/-- Nothing but a copy adds to the copies. -/
theorem moves_perform (c : Call) (h : ∀ src dst length, c ≠ .move src dst length) :
    (b.perform c).1.moves = b.moves := by
  cases c with
  | setTimeout | enableInterrupts | kick | disconnect => rfl
  | read addr =>
    simp only [perform, read]
    repeat' split
    all_goals rfl
  | write value addr =>
    simp only [perform, write]
    split <;> rfl
  | writeBulk bytes addr swap =>
    simp only [perform, writeBulk]
    split
    · rfl
    · exact moves_setRegisters _ _
  | upload bytes addr =>
    simp only [perform, upload]
    split <;> rfl
  | move => exact absurd rfl (h _ _ _)
  | awaitInterrupt mask timeout =>
    obtain ⟨interrupt, hwait⟩ := perform_awaitInterrupt b mask timeout
    rw [hwait]
    split <;> rfl

theorem moved?_eq_none {c : Call} (h : ∀ src dst length, c ≠ .move src dst length) (x : c.Answer) :
    (⟨.call c, x⟩ : Answered ν).moved? = none := by
  cases c with
  | move => exact absurd rfl (h _ _ _)
  | _ => rfl

/-- A simulated board records the copies that were made. -/
theorem Answers.moves_eq {talk : List (Answered ν)} (answers : Answers b talk b') :
    b'.moves.reverse = b.moves.reverse ++ Spread.made talk := by
  induction answers with
  | nil => exact (List.append_nil _).symm
  | @made b b' talk c _ ih =>
    by_cases hmove : ∃ src dst length, c = .move src dst length
    · obtain ⟨src, dst, length, rfl⟩ := hmove
      by_cases hbroken : b.brokenMove = some b.moves.length
      · have hperform : b.perform (.move src dst length) = (b, .error (.io "copy engine fault")) :=
          if_pos hbroken
        rw [hperform] at ih ⊢
        exact ih
      · have hperform : b.perform (.move src dst length) =
            ({ b with moves := (src, dst, length) :: b.moves }, .ok ()) := if_neg hbroken
        rw [hperform] at ih ⊢
        rw [ih, List.reverse_cons, List.append_assoc]
        rfl
    · have hother : ∀ src dst length, c ≠ .move src dst length :=
        fun src dst length heq ↦ hmove ⟨src, dst, length, heq⟩
      rw [ih, moves_perform c hother, Spread.made, Spread.made,
        List.filterMap_cons_none (moved?_eq_none hother _)]
  | @failed b b' talk c fault _ _ ih =>
    have hnone : (⟨.call c, c.failing fault⟩ : Answered ν).moved? = none := by
      cases c <;> rfl
    rw [ih, Spread.made, Spread.made, List.filterMap_cons_none hnone]
  | @aside b b' talk r x hr _ ih =>
    have hnone : (⟨r, x⟩ : Answered ν).moved? = none := by
      cases r with
      | call c => exact absurd rfl (hr c)
      | _ => rfl
    rw [ih, Spread.made, Spread.made, List.filterMap_cons_none hnone]

end SimulatedBoard

/-! ## Main statement -/

open Routine Spread

/-- What holds where a dataset was to be spread and `k` copies were made: what was asked and
answered and how it ended, what was recorded, and what became of the memory. -/
structure Spread.Spreads {ν : Type} (k : ℕ) (talk : List (Answered ν))
    (result : Except BoardError Unit) : Prop where
  course : Course k (spreads talk) result
  copied : made talk = Dag.copies.take k
  recorded : ∀ b b' : SimulatedBoard, b.Answers talk b' →
    b'.moves.reverse = b.moves.reverse ++ Dag.copies.take k
  /-- Once everything is copied, every byte that was staged is in its place in both images. -/
  placed : k = 257 → ∀ (M : ℕ → UInt8) (i o : ℕ), i < 256 → o < 2 ^ 24 →
    after M (made talk) (swap i * 2 ^ 24 + o) = M (2 ^ 32 + i * 2 ^ 24 + o) ∧
    after M (made talk) (2 ^ 32 + swap i * 2 ^ 24 + o) = M (2 ^ 32 + i * 2 ^ 24 + o)
  /-- Until the image is copied back, nothing changes above it. -/
  kept : k < 257 → ∀ (M : ℕ → UInt8) (a : ℕ), 2 ^ 32 ≤ a → after M (made talk) a = M a
  /-- The image is tried only after all pieces were copied. -/
  imageLast : ∀ x, tried image x ∈ talk → 256 ≤ k

/-- **Spreading a dataset moves every piece to its place in both images**, or stops before it
changes what was staged: a copy that fails, or a shutdown, leaves it at the copies that were
made. -/
theorem spread_places_pieces (ν : Type) :
    (∀ reply : Answering ν, ∃ talk result,
      Run Board.spread talk result ∧ reply.Gives [] talk) ∧
    ∀ (talk : List (Answered ν)) (result : Except BoardError Unit), Run Board.spread talk result →
      ∃ k, Spreads k talk result := by
  refine ⟨fun reply ↦ Board.brief_spread.exists_run reply [], ?_⟩
  intro talk result run
  obtain ⟨k, course⟩ := ensures_spread.of_sifted_run run
  have hmade : made talk = Dag.copies.take k := (made_sift talk).symm.trans course.made_eq
  refine ⟨k, course, hmade, fun b b' answers ↦ ?_, ?_, ?_, ?_⟩
  · rw [answers.moves_eq, hmade]
  · rintro rfl M i o hi ho
    rw [hmade, List.take_of_length_le Dag.length_copies.le]
    exact after_copies hi ho
  · intro hk M a ha
    have hk : k ≤ 256 := Nat.le_of_lt_succ hk
    rw [hmade, take_copies hk]
    exact after_pieceCopies_of_le hk ha
  · intro x hx
    exact course.le_of_tried_image ((mem_sift_iff rfl).mpr hx)

/-! ### A board that copies everything -/

/-- If nobody complains everything is copied. -/
theorem Spread.Course.complete_of_told {k : ℕ} {talk : List (Answered Rat)}
    {result : Except BoardError Unit} (h : Course k talk result)
    (told : ∀ said ∈ talk, ∃ s, said.reply = Stall.unmoved s said.request) :
    k = 257 ∧ result = .ok () := by
  cases h with
  | complete => exact ⟨rfl, rfl⟩
  | imageFailed fault =>
    obtain ⟨_, h⟩ := told _ (List.mem_append_right _ (.head _))
    cases h
  | pieceFailed hk fault =>
    obtain ⟨_, h⟩ := told _ (List.mem_append_right _ (.tail _ (.head _)))
    cases h
  | cancelled hk =>
    obtain ⟨_, h⟩ := told _ (List.mem_append_right _ (.head _))
    cases h

/-- The sixth byte of piece 18 gets to place 33 in both images. -/
theorem placed_of_unmoved : ∃ talk : List (Answered Rat),
    Run Board.spread talk (.ok ()) ∧ made talk = Dag.copies ∧
    ∀ M : ℕ → UInt8, after M (made talk) 0x21000005 = M 0x112000005 ∧
      after M (made talk) 0x121000005 = M 0x112000005 := by
  obtain ⟨ends, account⟩ := spread_places_pieces Rat
  obtain ⟨talk, result, run, gives⟩ := ends Stall.unmoved
  obtain ⟨k, spreads⟩ := account talk result run
  obtain ⟨rfl, rfl⟩ := spreads.course.complete_of_told fun said hs ↦
    gives.reply_eq (List.mem_of_mem_filter hs)
  refine ⟨talk, run, ?_, fun M ↦ spreads.placed rfl M 0x12 5 (by decide) (by decide)⟩
  rw [spreads.copied, List.take_of_length_le Dag.length_copies.le]

end HashBoard
