import HashBoard.Proofs.Epoch.Asks
import HashBoard.Proofs.Routine.Transcript

/-!
# Why an epoch change ends early

A call to a board may fail anywhere, and almost every failure is absorbed where it happens. What is
left are the causes below. Each is tied to what shows it in the transcript, so that an epoch change
that ends early can be explained from its transcript and the settings alone.

Evidence is never lost, because a transcript only grows. So a cause is established where it arises,
and every routine around it passes the error on as it is.
-/

namespace HashBoard

/-- An error is explained by a transcript; success needs no explanation. -/
def Explains {ν α : Type} (why : List (Answered ν) → BoardError → Prop) :
    Except BoardError α → List (Answered ν) → Prop
  | .error e, talk => why talk e
  | .ok _, _ => True

namespace Board

variable {ν : Type}

/-- A fault was made fatal, because the settings say so. -/
inductive Escalates (b : Board) (talk : List (Answered ν)) : BoardError → Prop
  | intro {what cause : String} : b.settings.dieOnError →
    ⟨.note (.escalated what cause), ()⟩ ∈ talk →
      Escalates b talk (.escalated (what ++ ": " ++ cause))

/-- Why an epoch change ends early. -/
inductive Abandons (b : Board) (ctx : EpochContext) (talk : List (Answered ν)) : BoardError → Prop
  /-- The board had halted itself. -/
  | halted {m : Memory ν} : m.halted → ⟨.memory, m⟩ ∈ talk → Abandons b ctx talk .halted
  /-- Shutdown was requested. -/
  | cancelled : ⟨.isCancelled, true⟩ ∈ talk → Abandons b ctx talk .cancelled
  /-- The light cache was to come with the epoch, and did not. -/
  | missingCache : b.settings.cacheStrategy = .upload → ctx.lightCache = none →
    Abandons b ctx talk (.missingCache ctx.epoch)
  /-- A piece of the light cache could not be uploaded, twice. -/
  | uploadFailed {bytes : ByteArray} {offset : UInt64} {fault fault' : LinkFault} :
    b.settings.cacheStrategy = .upload →
    [⟨.call (.upload bytes offset), .error fault⟩,
      ⟨.call (.upload bytes offset), .error fault'⟩].Sublist talk →
    Abandons b ctx talk (.uploadFailed offset)
  /-- A fault was made fatal. -/
  | escalated {e : BoardError} : b.Escalates talk e → Abandons b ctx talk e

variable {b : Board} {ctx : EpochContext} {s t : List (Answered ν)} {e : BoardError}

theorem Escalates.mono (h : b.Escalates s e) (hst : s <+: t) : b.Escalates t e := by
  obtain ⟨hdie, hnote⟩ := h
  exact ⟨hdie, hst.subset hnote⟩

theorem Abandons.mono (h : b.Abandons ctx s e) (hst : s <+: t) : b.Abandons ctx t e := by
  cases h with
  | halted hm hmem => exact .halted hm (hst.subset hmem)
  | cancelled hmem => exact .cancelled (hst.subset hmem)
  | missingCache hup hnone => exact .missingCache hup hnone
  | uploadFailed hup htwice => exact .uploadFailed hup (htwice.trans hst.sublist)
  | escalated h => exact .escalated (h.mono hst)

end Board

namespace Fault

open Routine Board

variable {ν : Type} {s : List (Answered ν)} (b : Board)

theorem ensures_escalate (what cause : String) :
    (b.escalate what cause).Ensures (transcript ν) (Explains b.Escalates) s := by
  rw [escalate]
  split
  · rename_i hdie
    refine (ensures_request _ s).seq ?_
    rintro - t rfl
    exact ⟨hdie, List.mem_append_right _ (.head _)⟩
  · trivial

variable (ctx : EpochContext)

/-- A routine that goes on after a fault unless the settings make it fatal. -/
theorem ensures_unlessFatal {α : Type} {what cause : String}
    {f : Except BoardError Unit → Routine ν (Except BoardError α)}
    (fatal : ∀ e, f (.error e) = pure (.error e))
    (goesOn : ∀ t, (f (.ok ())).Ensures (transcript ν) (Explains (b.Abandons ctx)) t) :
    ((b.escalate what cause).bind f).Ensures (transcript ν) (Explains (b.Abandons ctx)) s := by
  refine (ensures_escalate b what cause).seq ?_
  rintro (e | -) t ht
  · rw [fatal e]
    exact .escalated ht
  · exact goesOn t

theorem ensures_await (a : Awaited ν) (watch : Nat → Routine ν Unit) (n : Nat) (status : Word)
    (s : List (Answered ν)) :
    (b.await a watch n status).Ensures (transcript ν) (Explains (b.Abandons ctx)) s := by
  induction n generalizing status s with
  | zero =>
    rw [await]
    split
    · trivial
    · refine (ensures_request .isCancelled s).seq ?_
      rintro (- | -) t rfl
      · refine ensures_unlessFatal b ctx (fun _ ↦ rfl) fun t ↦ ?_
        exact Ensures.after fun _ _ _ ↦ trivial
      · exact .cancelled (List.mem_append_right _ (.head _))
  | succ n ih =>
    rw [await]
    split
    · trivial
    · refine (ensures_request .isCancelled s).seq ?_
      rintro (- | -) t rfl
      · refine Ensures.after fun _ t _ ↦ Ensures.after ?_
        rintro (fault | status) t -
        · refine ensures_unlessFatal b ctx (fun _ ↦ rfl) fun t ↦ ?_
          exact Ensures.after fun _ _ _ ↦ Ensures.after fun _ t _ ↦ ih status t
        · exact Ensures.after fun _ t _ ↦ ih status t
      · exact .cancelled (List.mem_append_right _ (.head _))

/-! ## The light cache -/

theorem ensures_deriveCache (parents : Word) :
    (b.deriveCache ctx parents).Ensures (transcript ν) (Explains (b.Abandons ctx)) s := by
  refine Ensures.after fun _ _ _ ↦ Ensures.after fun started _ _ ↦ Ensures.after fun _ _ _ ↦
    Ensures.after fun _ _ _ ↦ Ensures.after ?_
  -- whether the seed arrives makes no difference
  have rest (t : List (Answered ν)) :
      (awaitCache b started).Ensures (transcript ν) (Explains (b.Abandons ctx)) t := by
    refine Ensures.after fun _ t _ ↦ (ensures_await b ctx _ _ _ _ t).seq ?_
    rintro (e | status) t ht
    · exact ht
    · exact Ensures.after fun _ _ _ ↦ Ensures.after fun _ _ _ ↦ trivial
  rintro (fault | -) t -
  · exact Ensures.after fun _ t _ ↦ rest t
  · exact rest t

theorem ensures_uploadPiece (hup : b.settings.cacheStrategy = .upload) (piece : ByteArray)
    (offset : Nat) :
    (uploadPiece piece offset).Ensures (transcript ν) (Explains (b.Abandons ctx)) s := by
  refine (ensures_request (.call (.upload piece (UInt64.ofNat offset))) s).seq ?_
  rintro (fault | -) t rfl
  · refine Ensures.after fun _ t ht ↦ (ensures_request (.call (.upload piece _)) t).seq ?_
    rintro (fault' | -) u rfl
    · refine Ensures.after fun _ v hv ↦ ?_
      have first : [⟨.call (.upload piece (UInt64.ofNat offset)), .error fault⟩].Sublist t := by
        rw [List.singleton_sublist]
        exact ht.subset (List.mem_append_right _ (.head _))
      have second := first.append
        (.refl [(⟨.call (.upload piece (UInt64.ofNat offset)), .error fault'⟩ : Answered ν)])
      exact .uploadFailed hup (second.trans hv.sublist)
    · trivial
  · trivial

theorem ensures_uploadPieces (hup : b.settings.cacheStrategy = .upload) (cache : ByteArray)
    (n i : Nat) (s : List (Answered ν)) :
    (uploadPieces cache n i).Ensures (transcript ν) (Explains (b.Abandons ctx)) s := by
  induction n generalizing i s with
  | zero => trivial
  | succ n ih =>
    rw [uploadPieces]
    refine (ensures_request .isCancelled s).seq ?_
    rintro (- | -) t rfl
    · refine (ensures_uploadPiece b ctx hup _ _).seq ?_
      rintro (e | -) t ht
      · exact ht
      · dsimp only
        split
        · exact Ensures.after fun _ t _ ↦ ih (i + 1) t
        · exact ih (i + 1) t
    · exact .cancelled (List.mem_append_right _ (.head _))

theorem ensures_uploadCache (hup : b.settings.cacheStrategy = .upload) :
    (uploadCache ctx).Ensures (transcript ν) (Explains (b.Abandons ctx)) s := by
  rw [uploadCache]
  cases hcache : ctx.lightCache with
  | none => exact .missingCache hup hcache
  | some cache =>
    refine Ensures.after fun _ _ _ ↦ Ensures.after fun _ t _ ↦ ?_
    refine (ensures_uploadPieces b ctx hup cache _ _ t).seq ?_
    rintro (e | -) t ht
    · exact ht
    · exact Ensures.after fun _ _ _ ↦ Ensures.after fun _ _ _ ↦ trivial

theorem ensures_provideCache (parents : Word) (s : List (Answered ν)) :
    (b.provideCache ctx parents).Ensures (transcript ν) (Explains (b.Abandons ctx)) s := by
  rw [provideCache]
  cases hstrategy : b.settings.cacheStrategy with
  | onChip => exact Ensures.after fun _ t _ ↦ ensures_deriveCache b ctx parents
  | upload => exact Ensures.after fun _ t _ ↦ ensures_uploadCache b ctx hstrategy

/-! ## The dataset -/

theorem ensures_generate (s : List (Answered ν)) :
    (b.generate ctx).Ensures (transcript ν) (Explains (b.Abandons ctx)) s := by
  rw [generate_eq]
  refine Ensures.after fun ⟨started, status⟩ t _ ↦ ?_
  have wait (range : Nat) :
      (b.awaitDag range status).Ensures (transcript ν) (Explains (b.Abandons ctx)) t := by
    rw [awaitDag]
    split
    · exact Ensures.after fun _ _ _ ↦ trivial
    · exact ensures_await b ctx _ _ _ _ t
  refine (wait _).seq ?_
  rintro (e | status) u hu
  · exact hu
  · exact Ensures.after fun _ _ _ ↦ Ensures.after fun _ _ _ ↦ trivial

theorem ensures_spreadPieces (n i : Nat) (s : List (Answered ν)) :
    (spreadPieces n i).Ensures (transcript ν) (Explains (b.Abandons ctx)) s := by
  induction n generalizing i s with
  | zero => trivial
  | succ n ih =>
    rw [spreadPieces]
    refine (ensures_request .isCancelled s).seq ?_
    rintro (- | -) t rfl
    · refine Ensures.after ?_
      rintro (fault | -) t -
      · exact Ensures.after fun _ _ _ ↦ trivial
      · exact ih (i + 1) t
    · exact .cancelled (List.mem_append_right _ (.head _))

theorem ensures_spread (s : List (Answered ν)) :
    spread.Ensures (transcript ν) (Explains (b.Abandons ctx)) s := by
  refine Ensures.after fun _ _ _ ↦ Ensures.after fun _ _ _ ↦ Ensures.after fun started t _ ↦ ?_
  refine (ensures_spreadPieces b ctx _ _ t).seq ?_
  rintro (e | all) u hu
  · exact hu
  · cases all with
    | false => trivial
    | true =>
      refine Ensures.after ?_
      rintro (fault | -) _ -
      · exact Ensures.after fun _ _ _ ↦ trivial
      · exact Ensures.after fun _ _ _ ↦ Ensures.after fun _ _ _ ↦ trivial

theorem ensures_buildDataset (s : List (Answered ν)) :
    (b.buildDataset ctx).Ensures (transcript ν) (Explains (b.Abandons ctx)) s := by
  refine Ensures.after fun _ _ _ ↦ Ensures.after fun _ t _ ↦ ?_
  refine (ensures_provideCache b ctx _ t).seq ?_
  rintro (e | -) t ht
  · exact ht
  · refine Ensures.after fun _ t _ ↦ (ensures_generate b ctx t).seq ?_
    rintro (e | -) t ht
    · exact ht
    · refine (ensures_spread b ctx t).seq ?_
      rintro (e | -) t ht
      · exact ht
      · exact Ensures.after fun _ _ _ ↦ Ensures.after fun _ _ _ ↦ trivial

/-! ## The whole change -/

variable [Quantity ν]

theorem ensures_changeEpoch (s : List (Answered ν)) :
    (b.changeEpoch ctx).Ensures (transcript ν) (Explains (b.Abandons ctx)) s := by
  refine Ensures.after fun _ _ _ ↦ Ensures.after fun _ _ _ ↦ Ensures.after fun holds t _ ↦ ?_
  cases holds with
  | true => exact Ensures.after fun _ _ _ ↦ trivial
  | false =>
    refine (ensures_buildDataset b ctx t).seq ?_
    rintro (e | -) t ht
    · exact Ensures.after fun _ _ hu ↦ ht.mono hu
    · exact Ensures.after fun _ _ _ ↦ trivial

theorem ensures_trackedChange (s : List (Answered ν)) :
    (b.trackedChange ctx).Ensures (transcript ν) (Explains (b.Abandons ctx)) s := by
  refine Ensures.after fun _ t _ ↦ (ensures_changeEpoch b ctx t).seq ?_
  rintro (e | outcome) t ht
  · exact Ensures.after fun _ _ hu ↦ Ensures.after fun _ _ hv ↦ Ensures.after fun _ _ hw ↦
      ht.mono (hu.trans (hv.trans hw))
  · exact Ensures.after fun _ _ _ ↦ Ensures.after fun _ _ _ ↦ Ensures.after fun _ _ _ ↦ trivial

/-- Whatever an epoch change is answered, an error it ends with has one of a few causes. -/
theorem ensures_prepareEpoch (s : List (Answered ν)) :
    (b.prepareEpoch ctx).Ensures (transcript ν) (Explains (b.Abandons ctx)) s := by
  refine (ensures_request .memory s).seq ?_
  rintro m t rfl
  split
  · rename_i halted
    refine Ensures.after fun _ t ht ↦ .halted halted (ht.subset ?_)
    exact List.mem_append_right _ (.head _)
  · refine Ensures.after fun last t _ ↦ ?_
    split
    · trivial
    · exact ensures_trackedChange b ctx t

end Fault

end HashBoard
