import HashBoard.Proofs.Alone.Ranges
import HashBoard.Proofs.Epoch.Brief
import HashBoard.Proofs.Routine.Sifting
import HashBoard.Proofs.Stall.Detection

/-!
# Uploading the light cache

The light cache is offered piece by piece, each piece after a look for a shutdown, and once more if
it is not taken at first. How a piece fares is all that the rest depends on: the upload goes on to
the next piece unless the piece is lost, and then it ends with the offset of that piece.

The account keeps the looks and the uploads. Following it from piece to piece gives what was offered
as a function of how the pieces fared (`Sent`). What arrived after a complete upload are
neighbouring ranges that lead from the beginning of the cache to its end.
-/

namespace HashBoard

/-- Whether a request is a look for a shutdown or an upload. -/
def Request.isUploading {ν : Type} : Request ν → Bool
  | .isCancelled | .call (.upload ..) => true
  | _ => false

/-- What was copied to which address. -/
def Answered.uploaded? {ν : Type} : Answered ν → Option (ByteArray × UInt64)
  | ⟨.call (.upload bytes addr), .ok ()⟩ => some (bytes, addr)
  | _ => none

namespace Upload

open Board Routine

variable {ν : Type}

/-- The looks for a shutdown and the uploads. -/
def uploads (talk : List (Answered ν)) : List (Answered ν) := sift Request.isUploading talk

/-- The copies that were made, in order. -/
def copied (talk : List (Answered ν)) : List (ByteArray × UInt64) :=
  talk.filterMap Answered.uploaded?

/-- How a piece fares. -/
inductive Fare
  /-- It is taken at once. -/
  | taken
  /-- It is taken the second time. -/
  | retaken (fault : LinkFault)
  /-- It is not taken either time. -/
  | lost (fault again : LinkFault)

/-- Whether a piece arrives. -/
def Fare.arrives : Fare → Prop
  | .taken | .retaken _ => True
  | .lost .. => False

variable (cache : ByteArray)

/-- How many pieces of 65536 bytes a cache is cut into. -/
def pieceCount : ℕ := (cache.size + 65536 - 1) / 65536

/-- Where a piece begins and where it ends. -/
def pieceRange (i : ℕ) : ℕ × ℕ :=
  (i * 65536, min ((i + 1) * 65536) cache.size)

/-- A range of a cache, and the address it goes to. -/
def rangeCopy (range : ℕ × ℕ) : ByteArray × UInt64 :=
  (cache.extract range.1 range.2, UInt64.ofNat range.1)

/-- A piece is offered to its address. -/
def offer (i : ℕ) (x : Except LinkFault Unit) : Answered ν :=
  ⟨.call (.upload (rangeCopy cache (pieceRange cache i)).1
    (rangeCopy cache (pieceRange cache i)).2), x⟩

/-- The offers of a piece. -/
def offers (i : ℕ) : Fare → List (Answered ν)
  | .taken => [offer cache i (.ok ())]
  | .retaken fault => [offer cache i (.error fault), offer cache i (.ok ())]
  | .lost fault again => [offer cache i (.error fault), offer cache i (.error again)]

/-- No shutdown is seen, and a piece is offered. -/
def leg (i : ℕ) (fare : Fare) : List (Answered ν) := ⟨.isCancelled, false⟩ :: offers cache i fare

/-- The end of an upload that loses a piece. -/
def lostAt (i : ℕ) : BoardError := .uploadFailed (UInt64.ofNat (i * 65536))

/-- What the offers of a piece end with. -/
def outcome (i : ℕ) : Fare → Except BoardError Unit
  | .taken | .retaken _ => .ok ()
  | .lost .. => .error (lostAt i)

/-- What becomes of `n` pieces from piece `i` on: how those that are offered fare, what is asked and
answered, and what the upload ends with. -/
inductive Sent : (n i : ℕ) → List Fare → List (Answered ν) → Except BoardError Unit → Prop
  /-- No piece is left. -/
  | all {i : ℕ} : Sent 0 i [] [] (.ok ())
  /-- A shutdown is seen. -/
  | cancelled {n i : ℕ} : Sent (n + 1) i [] [⟨.isCancelled, true⟩] (.error .cancelled)
  /-- A piece is lost. -/
  | lost {n i : ℕ} {fault again : LinkFault} :
    Sent (n + 1) i [.lost fault again] (leg cache i (.lost fault again)) (.error (lostAt i))
  /-- A piece arrives. -/
  | arrived {n i : ℕ} {fare : Fare} {fares : List Fare} {talk : List (Answered ν)}
    {result : Except BoardError Unit} (arrives : fare.arrives) :
    Sent n (i + 1) fares talk result →
    Sent (n + 1) i (fare :: fares) (leg cache i fare ++ talk) result

/-- What is copied is in the account. -/
theorem copied_sift (talk : List (Answered ν)) :
    copied (sift Request.isUploading talk) = copied talk := by
  refine filterMap_sift (fun said hsaid ↦ ?_) talk
  unfold Answered.uploaded?
  split
  · cases hsaid
  · rfl

/-! ## Piece by piece -/

variable {cache}

theorem extract_piece (i : ℕ) :
    cache.extract (i * 65536) (i * 65536 + 65536) = (rangeCopy cache (pieceRange cache i)).1 := by
  have hdata (lo hi : ℕ) :
      cache.data.extract lo hi = cache.data.extract lo (min hi cache.size) := by
    have h : (cache.data.extract 0 cache.size).extract lo hi = _ := Array.extract_extract
    rwa [ByteArray.size, Array.extract_size, Nat.zero_add, Nat.zero_add] at h
  refine ByteArray.ext ?_
  rw [rangeCopy, pieceRange, Nat.succ_mul, ByteArray.data_extract, ByteArray.data_extract, hdata]

/-- A piece is offered, and once more if it is not taken at first. -/
theorem ensures_uploadPiece (i : ℕ) (s : List (Answered ν)) :
    (uploadPiece (cache.extract (i * 65536) (i * 65536 + 65536)) (i * 65536)).Ensures
      (sifting Request.isUploading)
      (fun result t ↦ ∃ fare, t = s ++ offers cache i fare ∧ result = outcome i fare) s := by
  rw [extract_piece]
  refine ensures_look rfl fun x ↦ ?_
  cases x with
  | ok => exact ⟨.taken, rfl, rfl⟩
  | error fault =>
    refine ensures_beside rfl fun _ ↦ ensures_look rfl fun y ↦ ?_
    cases y with
    | ok =>
      refine ⟨.retaken fault, ?_, rfl⟩
      rw [List.append_assoc]
      rfl
    | error again =>
      refine ensures_beside rfl fun _ ↦ ⟨.lost fault again, ?_, rfl⟩
      rw [List.append_assoc]
      rfl

theorem ensures_uploadPieces (n i : ℕ) (s : List (Answered ν)) :
    (uploadPieces cache n i).Ensures (sifting Request.isUploading) (fun result t ↦
      ∃ fares talk, t = s ++ talk ∧ Sent cache n i fares talk result) s := by
  induction n generalizing i s with
  | zero => exact ⟨[], [], (List.append_nil s).symm, .all⟩
  | succ n ih =>
    refine ensures_look rfl fun cancelled ↦ ?_
    cases cancelled with
    | true => exact ⟨[], _, rfl, .cancelled⟩
    | false =>
      refine (ensures_uploadPiece i _).seq ?_
      rintro _ _ ⟨fare, rfl, rfl⟩
      have rest (arrives : fare.arrives) :
          (uploadPieces cache n (i + 1)).Ensures (sifting Request.isUploading) (fun result t ↦
            ∃ fares talk, t = s ++ talk ∧ Sent cache (n + 1) i fares talk result)
            (s ++ [⟨.isCancelled, false⟩] ++ offers cache i fare) := by
        refine (ih (i + 1) _).mono ?_
        rintro result _ ⟨fares, talk, rfl, sent⟩
        refine ⟨fare :: fares, leg cache i fare ++ talk, ?_, .arrived arrives sent⟩
        simp only [leg, List.append_assoc, List.cons_append, List.nil_append]
      have mentioned (arrives : fare.arrives) : (do
          if i % piecesPerMention = 0 then
            note (.uploadProgress (i * Reg.uploadPiece) (cache.extract (i * Reg.uploadPiece)
              (i * Reg.uploadPiece + Reg.uploadPiece)).size cache.size)
          uploadPieces cache n (i + 1) : Routine ν _).Ensures (sifting Request.isUploading)
            (fun result t ↦ ∃ fares talk, t = s ++ talk ∧ Sent cache (n + 1) i fares talk result)
            (s ++ [⟨.isCancelled, false⟩] ++ offers cache i fare) := by
        dsimp only
        split
        · exact ensures_beside rfl fun _ ↦ rest arrives
        · exact rest arrives
      cases fare with
      | taken => exact mentioned trivial
      | retaken fault => exact mentioned trivial
      | lost fault again =>
        refine ⟨[.lost fault again], _, ?_, .lost⟩
        rw [List.append_assoc]
        rfl

/-! ## What was offered -/

variable {n i : ℕ} {fares : List Fare} {talk : List (Answered ν)} {result : Except BoardError Unit}

/-- The pieces are offered one after the other, as they fare. -/
theorem Sent.eq_flatten (h : Sent cache n i fares talk result)
    (unseen : ⟨.isCancelled, true⟩ ∉ talk) :
    talk = (fares.mapIdx fun j fare ↦ leg cache (i + j) fare).flatten := by
  induction h with
  | all => rfl
  | cancelled => exact absurd (List.mem_singleton_self _) unseen
  | lost => simp
  | arrived _ _ ih =>
    rw [ih fun seen ↦ unseen (List.mem_append_right _ seen), List.mapIdx_cons, List.flatten_cons]
    simp only [Nat.add_zero, Nat.add_assoc, Nat.add_comm 1]

/-- The pieces arrive until one is lost, or all of them. -/
theorem Sent.fate (h : Sent cache n i fares talk result) (unseen : ⟨.isCancelled, true⟩ ∉ talk) :
    (fares.length = n ∧ (∀ fare ∈ fares, fare.arrives) ∧ result = .ok ()) ∨
    ∃ before fault again, fares = before ++ [.lost fault again] ∧ before.length < n ∧
      (∀ fare ∈ before, fare.arrives) ∧ result = .error (lostAt (i + before.length)) := by
  induction h with
  | all => exact .inl ⟨rfl, List.forall_mem_nil _, rfl⟩
  | cancelled => exact absurd (List.mem_singleton_self _) unseen
  | lost => exact .inr ⟨[], _, _, rfl, Nat.succ_pos _, List.forall_mem_nil _, rfl⟩
  | @arrived n i fare fares talk result arrives _ ih =>
    rcases ih fun seen ↦ unseen (List.mem_append_right _ seen) with
      ⟨hlength, hall, rfl⟩ | ⟨before, fault, again, rfl, hlt, hall, rfl⟩
    · exact .inl ⟨congrArg (· + 1) hlength, List.forall_mem_cons.mpr ⟨arrives, hall⟩, rfl⟩
    · refine .inr ⟨fare :: before, fault, again, rfl, Nat.succ_lt_succ hlt,
        List.forall_mem_cons.mpr ⟨arrives, hall⟩, ?_⟩
      rw [List.length_cons, Nat.add_right_comm, Nat.add_assoc]

/-! ## What arrived -/

/-- A piece that arrives is copied once. -/
theorem copied_leg {fare : Fare} (arrives : fare.arrives) (i : ℕ) :
    copied (leg (ν := ν) cache i fare) = [rangeCopy cache (pieceRange cache i)] := by
  cases fare with
  | taken | retaken => rfl
  | lost => cases arrives

variable (cache) in
theorem copied_flatten (arrive : ∀ fare ∈ fares, fare.arrives) (i : ℕ) :
    copied (ν := ν) (fares.mapIdx fun j fare ↦ leg cache (i + j) fare).flatten =
      ((List.range' i fares.length).map (pieceRange cache)).map (rangeCopy cache) := by
  induction fares generalizing i with
  | nil => rfl
  | cons fare fares ih =>
    obtain ⟨arrives, rest⟩ := List.forall_mem_cons.mp arrive
    have hrest := ih rest (i + 1)
    simp only [Nat.add_assoc, Nat.add_comm 1] at hrest
    rw [List.mapIdx_cons, List.flatten_cons, copied, List.filterMap_append, ← copied, ← copied,
      hrest, Nat.add_zero, copied_leg arrives]
    rfl

theorem lt_size_of_lt_pieceCount {i : ℕ} (h : i < pieceCount cache) : i * 65536 < cache.size := by
  rw [pieceCount] at h
  omega

theorem size_le_pieceCount : cache.size ≤ pieceCount cache * 65536 := by
  rw [pieceCount]
  omega

variable (cache) in
/-- The ranges of neighbouring pieces tile what they cover. -/
theorem tiles_pieceRanges (i n : ℕ) (h : i + n ≤ pieceCount cache) :
    Dag.Tiles (min (i * 65536) cache.size)
      ((List.range' i n).map (pieceRange cache)) (min ((i + n) * 65536) cache.size) := by
  induction n generalizing i with
  | zero => rfl
  | succ n ih =>
    have hstart := lt_size_of_lt_pieceCount (Nat.lt_of_lt_of_le (Nat.lt_add_of_pos_right
      (Nat.succ_pos n)) h)
    rw [List.range'_succ, List.map_cons]
    refine ⟨(Nat.min_eq_left hstart.le).symm, ?_, ?_⟩
    · exact Nat.le_min.mpr ⟨Nat.mul_le_mul_right _ i.le_succ, hstart.le⟩
    · rw [← Nat.add_assoc, Nat.add_right_comm] at h ⊢
      exact ih (i + 1) h

/-- What arrived when all pieces did. -/
theorem exists_tiles_copied (arrive : ∀ fare ∈ fares, fare.arrives)
    (count : fares.length = pieceCount cache) :
    ∃ ranges, Dag.Tiles 0 ranges cache.size ∧
      copied (ν := ν) (fares.mapIdx (leg cache)).flatten = ranges.map (rangeCopy cache) := by
  refine ⟨(List.range' 0 fares.length).map (pieceRange cache), ?_, ?_⟩
  · have htiles := tiles_pieceRanges cache 0 fares.length (by omega)
    rwa [Nat.zero_mul, Nat.zero_min, Nat.zero_add, count, Nat.min_eq_right size_le_pieceCount,
      ← count] at htiles
  · have hcopied := copied_flatten (ν := ν) cache arrive 0
    simpa only [Nat.zero_add] using hcopied

/-! ## The whole upload -/

variable (cache) in
/-- How an upload ends, by how the pieces fared that were offered. -/
inductive Uploaded : List Fare → Except BoardError Unit → Prop
  /-- All pieces arrived. -/
  | complete {fares : List Fare} (count : fares.length = pieceCount cache)
    (arrive : ∀ fare ∈ fares, fare.arrives) : Uploaded fares (.ok ())
  /-- The piece after some that arrived was lost, and nothing was offered beyond it. -/
  | located {before : List Fare} {fault again : LinkFault}
    (early : before.length < pieceCount cache) (arrive : ∀ fare ∈ before, fare.arrives) :
    Uploaded (before ++ [.lost fault again])
      (.error (.uploadFailed (UInt64.ofNat (before.length * 65536))))

theorem ensures_uploadCache {ctx : EpochContext} (h : ctx.lightCache = some cache) :
    (uploadCache ctx).Ensures (sifting (ν := ν) Request.isUploading) (fun result t ↦
      ∃ fares, Sent cache (pieceCount cache) 0 fares t result) [] := by
  rw [uploadCache, h]
  refine ensures_beside rfl fun _ ↦ ?_
  refine ensures_beside rfl fun started ↦ ?_
  refine (ensures_uploadPieces (pieceCount cache) 0 []).seq ?_
  rintro result _ ⟨fares, talk, rfl, sent⟩
  cases result with
  | error e => exact ⟨fares, sent⟩
  | ok =>
    refine ensures_beside rfl fun finished ↦ ?_
    exact ensures_beside rfl fun _ ↦ ⟨fares, sent⟩

theorem Sent.uploaded (h : Sent cache (pieceCount cache) 0 fares talk result)
    (unseen : ⟨.isCancelled, true⟩ ∉ talk) : Uploaded cache fares result := by
  rcases h.fate unseen with ⟨hcount, hall, rfl⟩ | ⟨before, fault, again, rfl, hlt, hall, rfl⟩
  · exact .complete hcount hall
  · rw [Nat.zero_add]
    exact .located hlt hall

end Upload

open Routine Upload

/-- **A light cache is uploaded completely, or the failure is located.** Pieces are offered in
order, each with the bytes from its offset up to the next multiple of 65536 or the end, and a second
time exactly if it is not taken the first time. If every piece arrives the copies tile the cache; if
not, the upload ends with the offset of the first piece that was refused twice. -/
theorem uploaded_or_located {ν : Type} (ctx : EpochContext) (cache : ByteArray)
    (h : ctx.lightCache = some cache) :
    (∀ reply : Answering ν, ∃ talk result,
      Run (Board.uploadCache ctx) talk result ∧ reply.Gives [] talk) ∧
    ∀ (talk : List (Answered ν)) (result : Except BoardError Unit),
      Run (Board.uploadCache ctx) talk result → ⟨.isCancelled, true⟩ ∉ talk →
      ∃ fares, uploads talk = (fares.mapIdx (leg cache)).flatten ∧ Uploaded cache fares result ∧
        (result = .ok () → ∃ ranges, Dag.Tiles 0 ranges cache.size ∧
          copied talk = ranges.map (rangeCopy cache)) := by
  refine ⟨fun reply ↦ (Board.brief_uploadCache ctx).exists_run reply [], ?_⟩
  intro talk result run unseen
  obtain ⟨fares, sent⟩ := (ensures_uploadCache h).of_sifted_run run
  have unseen' : ⟨.isCancelled, true⟩ ∉ uploads talk := fun seen ↦
    unseen (List.mem_of_mem_filter seen)
  have hflat := sent.eq_flatten unseen'
  simp only [Nat.zero_add] at hflat
  refine ⟨fares, hflat, sent.uploaded unseen', fun hok ↦ ?_⟩
  obtain ⟨count, arrive⟩ : fares.length = pieceCount cache ∧ ∀ fare ∈ fares, fare.arrives := by
    subst hok
    cases sent.uploaded unseen' with
    | complete count arrive => exact ⟨count, arrive⟩
  obtain ⟨ranges, htiles, hcopied⟩ := exists_tiles_copied (ν := ν) arrive count
  refine ⟨ranges, htiles, ?_⟩
  rw [← hcopied, ← hflat, List.nil_append, copied_sift]

/-! ### A piece that is never taken -/

namespace Upload

/-- Somebody who refuses everything for one address, and has nothing else to complain of. -/
def refusing (addr : UInt64) : Answering Rat := fun s r ↦
  match r with
  | .call (.upload _ a) => if a = addr then .error .timeout else .ok ()
  | r => Stall.unmoved s r

/-- A cache of more than one piece. -/
def blankCache : ByteArray := ⟨Array.replicate 70000 0⟩

theorem pieceCount_blankCache : pieceCount blankCache = 2 := by
  rw [pieceCount, blankCache, ByteArray.size, Array.size_replicate]

variable {cache : ByteArray} {addr : UInt64} {i : ℕ} {fare : Fare}

/-- The piece that is refused is lost. -/
theorem eq_lost_of_told (h : UInt64.ofNat (i * 65536) = addr)
    (told : ∀ said ∈ leg cache i fare, ∃ s, said.reply = refusing addr s said.request) :
    fare = .lost .timeout .timeout := by
  have reply (x : Except LinkFault Unit)
      (hx : (offer cache i x : Answered Rat) ∈ leg cache i fare) : x = .error .timeout := by
    obtain ⟨_, hreply⟩ := told _ hx
    exact hreply.trans (if_pos h)
  cases fare with
  | taken => exact absurd (reply _ (.tail _ (.head _))) nofun
  | retaken fault => exact absurd (reply _ (.tail _ (.tail _ (.head _)))) nofun
  | lost fault again =>
    cases reply _ (.tail _ (.head _))
    cases reply _ (.tail _ (.tail _ (.head _)))
    rfl

/-- Other pieces are taken at once. -/
theorem eq_taken_of_told (h : UInt64.ofNat (i * 65536) ≠ addr)
    (told : ∀ said ∈ leg cache i fare, ∃ s, said.reply = refusing addr s said.request) :
    fare = .taken := by
  have reply (x : Except LinkFault Unit)
      (hx : (offer cache i x : Answered Rat) ∈ leg cache i fare) : x = .ok () := by
    obtain ⟨_, hreply⟩ := told _ hx
    exact hreply.trans (if_neg h)
  cases fare with
  | taken => rfl
  | retaken fault | lost fault => exact absurd (reply _ (.tail _ (.head _))) nofun

end Upload

/-- The second piece is offered twice, and the upload ends with its offset. -/
theorem located_of_refusing :
    ∃ talk : List (Answered Rat),
      Run (Board.uploadCache { plainEpoch with lightCache := some blankCache }) talk
        (.error (.uploadFailed 65536)) ∧
      uploads talk = leg blankCache 0 .taken ++ leg blankCache 1 (.lost .timeout .timeout) := by
  obtain ⟨ends, account⟩ := uploaded_or_located (ν := Rat)
    { plainEpoch with lightCache := some blankCache } blankCache rfl
  obtain ⟨talk, result, run, gives⟩ := ends (refusing 65536)
  have unseen : ⟨.isCancelled, true⟩ ∉ talk := fun seen ↦ by
    obtain ⟨_, h⟩ := gives.reply_eq seen
    cases h
  obtain ⟨fares, htalk, uploaded, -⟩ := account talk result run unseen
  have told (j : ℕ) (fare : Fare) (hj : fares[j]? = some fare) :
      ∀ said ∈ leg blankCache j fare, ∃ s, said.reply = refusing 65536 s said.request := by
    intro said hs
    have hleg : leg blankCache j fare ∈ fares.mapIdx (leg (ν := Rat) blankCache) := by
      refine List.mem_iff_getElem?.mpr ⟨j, ?_⟩
      rw [List.getElem?_mapIdx, hj, Option.map_some]
    have hsaid : said ∈ uploads talk := htalk ▸ List.mem_flatten.mpr ⟨_, hleg, hs⟩
    exact gives.reply_eq (List.mem_of_mem_filter hsaid)
  have taken (fare : Fare) (h : fares[0]? = some fare) : fare = .taken :=
    eq_taken_of_told (by decide) (told 0 fare h)
  have lost (fare : Fare) (h : fares[1]? = some fare) : fare = .lost .timeout .timeout :=
    eq_lost_of_told (by decide) (told 1 fare h)
  cases uploaded with
  | complete count arrive =>
    rw [pieceCount_blankCache] at count
    match fares, count with
    | [_, last], _ =>
      obtain rfl := lost last rfl
      exact (arrive _ (.tail _ (.head _))).elim
  | @located before _ _ early =>
    rw [pieceCount_blankCache] at early
    rcases before with _ | ⟨first, _ | ⟨second, rest⟩⟩
    · cases taken _ rfl
    · obtain rfl := taken first rfl
      cases lost _ rfl
      exact ⟨talk, run, htalk⟩
    · simp only [List.length_cons] at early
      omega

end HashBoard
