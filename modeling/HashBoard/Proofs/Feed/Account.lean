import HashBoard.Proofs.Scene.Upkeep

/-!
# What the kicker owes the worker

A worker that searches does not look at the feed. It relies on a flag that it took back before its
last look, and on the kicker, which is to set the flag after every publication. Several publications
may come to one kick, the flag may be set for another reason, and it may be taken back in between;
what stays is that work newer than that of the last look is either announced by the flag or still on
the kicker's mind.

The ledger of a run holds what that takes: how far the kicker has got, and the publication the
worker looked at last. It is struck when the worker takes the flag back, because from there to its
next look nothing is owed to it.
-/

namespace HashBoard

variable {ν : Type}

/-! ## The kicker -/

/-- How far the kicker has got. -/
structure Kicking where
  /-- It was started and not stopped. -/
  started : Bool := false
  /-- It was told that no more publications will come. -/
  ended : Bool := false
  /-- Number of the publication it saw last. -/
  seen : Nat := 0
  /-- It saw a publication and has yet to set the flag. -/
  owes : Bool := false

namespace Kicking

/-- What a request of the kicker itself makes of it. -/
def after (k : Kicking) : Answered ν → Kicking
  | ⟨.nextChange _, some n⟩ => { k with seen := n, owes := true }
  | ⟨.nextChange _, none⟩ => { k with ended := true }
  | ⟨.revise _, _⟩ => { k with owes := false }
  | _ => k

/-- What a request of the worker makes of it. -/
def ordered (k : Kicking) : Request ν → Kicking
  | .startKicker seen => { started := true, seen }
  | .stopKicker => { k with started := false, owes := false }
  | _ => k

/-- What an occurrence makes of it. -/
def upon {R : Repertoire ν} (k : Kicking) : Occurrence R → Kicking
  | .talks .owner said => k.ordered said.request
  | .talks .kicker said => k.after said
  | _ => k

/-- There is nothing left to do: nothing is owed, and unless the kicker was stopped it was told that
no more publications will come. -/
def Over (k : Kicking) : Prop := k.owes = false ∧ (k.started → k.ended)

/-- The kicker is still to see a publication, or to set the flag for it. -/
def Pending (k : Kicking) (version : Nat) : Prop :=
  k.started ∧ ¬k.ended ∧ (k.seen ≠ version ∨ k.owes)

end Kicking

/-- How far the kicker has got after some occurrences. -/
def kicking {R : Repertoire ν} (es : List (Occurrence R)) : Kicking := es.foldl Kicking.upon {}

@[simp] theorem kicking_snoc {R : Repertoire ν} (es : List (Occurrence R)) (e : Occurrence R) :
    kicking (es ++ [e]) = (kicking es).upon e := by
  rw [kicking, List.foldl_append]
  rfl

/-! ## The ledger -/

/-- What is owed to a worker depends on. -/
structure Ledger where
  /-- How far the kicker has got. -/
  kicking : Kicking := {}
  /-- The publication the worker was told of when it began. -/
  subscribed : Option Nat := none
  /-- The publication the worker looked at last, unless it took the flag back since. -/
  looked : Option Nat := none

namespace Ledger

/-- A request that takes the flag back. -/
def Lowers (sh : Shared ν) : Request ν → Bool
  | .revise f => sh.memory.newWork && !(f sh.memory).newWork
  | _ => false

/-- What a request of the worker makes of the ledger. -/
def after (sh : Shared ν) (l : Ledger) (said : Answered ν) : Ledger where
  kicking := l.kicking.ordered said.request
  subscribed :=
    match said with
    | ⟨.subscribe, n⟩ => some n
    | _ => l.subscribed
  looked :=
    match said.request with
    | .latestWork => some sh.feed.version
    | .startKicker _ | .stopKicker => none
    | r => if Lowers sh r then none else l.looked

/-- What an occurrence makes of the ledger. -/
def upon {R : Repertoire ν} (sh : Shared ν) (l : Ledger) : Occurrence R → Ledger
  | .talks .owner said => l.after sh said
  | .talks .kicker said => { l with kicking := l.kicking.after said }
  | _ => l

/-- Nothing is lost: what is newer than the last look is announced or pending. The kicker has seen
nothing that was not published, and ends only when no more will come. -/
structure Sound (sh : Shared ν) (l : Ledger) : Prop where
  subscribed : ∀ n, l.subscribed = some n → n ≤ sh.feed.version
  seen : l.kicking.seen ≤ sh.feed.version
  ended : l.kicking.ended → sh.feed.isOpen = false
  started : ∀ v, l.looked = some v → l.kicking.started
  owed : ∀ v, l.looked = some v → v < sh.feed.version →
    sh.memory.newWork ∨ l.kicking.Pending sh.feed.version

end Ledger

/-- The ledger of a run. -/
def ledger {R : Repertoire ν} (sh : Shared ν) (es : List (Occurrence R)) : Ledger :=
  (es.foldl (fun p e ↦ (p.1.upon e, p.2.upon p.1 e)) (sh, ({} : Ledger))).2

theorem ledger_fold {R : Repertoire ν} (sh : Shared ν) (l : Ledger) (es : List (Occurrence R)) :
    (es.foldl (fun p e ↦ (p.1.upon e, p.2.upon p.1 e)) (sh, l)).1 = sh.afterAll es := by
  induction es generalizing sh l with
  | nil => rfl
  | cons e es ih => exact ih (sh.upon e) (l.upon sh e)

@[simp] theorem ledger_snoc {R : Repertoire ν} (sh : Shared ν) (es : List (Occurrence R))
    (e : Occurrence R) : ledger sh (es ++ [e]) = (ledger sh es).upon (sh.afterAll es) e := by
  rw [ledger, List.foldl_append, ← ledger_fold sh {} es]
  rfl

theorem kicking_ledger {R : Repertoire ν} (sh : Shared ν) (es : List (Occurrence R)) :
    (ledger sh es).kicking = kicking es := by
  have fold (sh : Shared ν) (l : Ledger) :
      (es.foldl (fun p e ↦ (p.1.upon e, p.2.upon p.1 e)) (sh, l)).2.kicking =
        es.foldl Kicking.upon l.kicking := by
    induction es generalizing sh l with
    | nil => rfl
    | cons e es ih =>
      have hkicking : (l.upon sh e).kicking = l.kicking.upon e := by
        unfold Ledger.upon Kicking.upon
        split <;> rfl
      rw [List.foldl_cons, List.foldl_cons, ih, hkicking]
  exact fold sh {}

/-! ## What is shared, growing -/

namespace Ledger

/-- The flag is not taken back, and publications come one after another until the feed is closed. -/
structure Grows (sh sh' : Shared ν) : Prop where
  version : sh.feed.version ≤ sh'.feed.version
  isOpen : sh'.feed.version ≠ sh.feed.version → sh.feed.isOpen
  closed : sh.feed.isOpen = false → sh'.feed.isOpen = false
  newWork : sh.memory.newWork → sh'.memory.newWork

variable {sh sh' : Shared ν} {l : Ledger} {p : Party} {r : Request ν} {x : Reply r}

/-- What is pending stays so: a publication that comes is one the kicker has not seen. -/
theorem Sound.grows (h : l.Sound sh) (hg : Grows sh sh') : l.Sound sh' where
  subscribed n hn := Nat.le_trans (h.subscribed n hn) hg.version
  seen := Nat.le_trans h.seen hg.version
  ended he := hg.closed (h.ended he)
  started := h.started
  owed v hv hlt := by
    by_cases hsame : sh'.feed.version = sh.feed.version
    · rw [hsame] at hlt ⊢
      exact (h.owed v hv hlt).imp_left hg.newWork
    · -- the kicker is not behind by more than it was, but it has not seen this publication
      have hopen := hg.isOpen hsame
      have hended : ¬l.kicking.ended := fun he ↦ by simp [h.ended he] at hopen
      have hseen : l.kicking.seen ≠ sh'.feed.version := by
        have := h.seen
        have := hg.version
        omega
      exact .inr ⟨h.started v hv, hended, .inl hseen⟩

theorem grows_of_not_lowers (h : Lowers sh r = false) : Grows sh (sh.after p r) := by
  have same {sh' : Shared ν} (hfeed : sh'.feed = sh.feed)
      (hflag : sh.memory.newWork → sh'.memory.newWork) : Grows sh sh' :=
    { version := Nat.le_of_eq (by rw [hfeed])
      isOpen := fun hne ↦ absurd (by rw [hfeed]) hne
      closed := fun hclosed ↦ by rw [hfeed, hclosed]
      newWork := hflag }
  cases r with
  | revise f =>
    refine same rfl fun hflag ↦ ?_
    have hkept : (f sh.memory).newWork := by simpa [Lowers, hflag] using h
    exact hkept
  | publish work =>
    rw [Shared.after]
    split
    · rename_i hopen
      exact ⟨Nat.le_succ _, fun _ ↦ hopen, fun hc ↦ by simp [hc] at hopen, id⟩
    · exact same rfl id
  | closeFeed => exact ⟨Nat.le_refl _, fun hne ↦ absurd rfl hne, fun _ ↦ rfl, id⟩
  | _ => exact same rfl id

end Ledger

end HashBoard
