import HashBoard.Proofs.Routine.Only

/-!
# Routines that come to an end

A routine without loops ends, whatever it is answered. That it does is more than a statement about
its runs, which might be none: for everybody who answers there is a run (`Brief.exists_run`).

What is left of a routine that is about to end may be long. `Settles P Q` says what it still asks
for, that it does come to its end, and what the answer is.
-/

namespace HashBoard

/-- Somebody who answers: the reply to each request, after what was said so far. -/
def Answering (ν : Type) : Type := List (Answered ν) → (r : Request ν) → Reply r

/-- Some things that were said after others got the replies that somebody gives. -/
def Answering.Gives {ν : Type} (reply : Answering ν) : (s talk : List (Answered ν)) → Prop
  | _, [] => True
  | s, said :: talk => said.reply = reply s said.request ∧ reply.Gives (s ++ [said]) talk

theorem Answering.gives_append {ν : Type} {reply : Answering ν} {s talk talk' : List (Answered ν)} :
    reply.Gives s (talk ++ talk') ↔ reply.Gives s talk ∧ reply.Gives (s ++ talk) talk' := by
  induction talk generalizing s with
  | nil => rw [List.nil_append, List.append_nil]; exact (and_iff_right trivial).symm
  | cons said talk ih =>
    rw [List.cons_append, Gives, Gives, ih, and_assoc, List.append_cons s said talk]

theorem Answering.Gives.reply_eq {ν : Type} {reply : Answering ν} {s talk : List (Answered ν)}
    (h : reply.Gives s talk) {said : Answered ν} (hs : said ∈ talk) :
    ∃ s', said.reply = reply s' said.request := by
  induction talk generalizing s with
  | nil => cases hs
  | cons said' talk ih =>
    rcases List.mem_cons.mp hs with rfl | hs
    · exact ⟨s, h.1⟩
    · exact ih h.2 hs

namespace Routine

variable {ν α β : Type} {P : Request ν → Prop} {Q : α → Prop} {p q : Routine ν α}
  {f : α → Routine ν β} {talk : List (Answered ν)}

/-- A routine without loops. -/
def Brief : {α : Type} → Routine ν α → Prop
  | _, .done _ => True
  | _, .ask _ next => ∀ x, (next x).Brief
  | _, .loop .. => False

/-- A routine that comes to an end where a condition holds, and asks only for what is allowed. -/
def Settles (P : Request ν → Prop) : {α : Type} → (Q : α → Prop) → Routine ν α → Prop
  | _, Q, .done a => Q a
  | _, Q, .ask r next => P r ∧ ∀ x, (next x).Settles P Q
  | _, _, .loop .. => False

/-! ## Rules -/

theorem brief_done (a : α) : (Routine.done a : Routine ν α).Brief := trivial

theorem brief_request (r : Request ν) : (request r).Brief := fun _ ↦ trivial

theorem Brief.bind (h : p.Brief) (hf : ∀ a, (f a).Brief) : (p.bind f).Brief := by
  induction p with
  | done a => exact hf a
  | ask r next ih => exact fun x ↦ ih x (h x) hf
  | loop => exact h.elim

theorem brief_forEach {ι : Type} {routine : ι → Routine ν Unit} (h : ∀ i, (routine i).Brief)
    (list : List ι) : (forEach routine list).Brief := by
  induction list with
  | nil => trivial
  | cons i rest ih => exact (h i).bind fun _ ↦ ih

/-- A routine without loops comes to its end. -/
theorem Brief.settles (h : p.Brief) (hP : p.Only P) : p.Settles P fun _ ↦ True := by
  induction p with
  | done => trivial
  | ask r next ih => exact ⟨hP.1, fun x ↦ ih x (h x) (hP.2 x)⟩
  | loop => exact h.elim

theorem settles_request {r : Request ν} (h : P r) : (request r).Settles P fun _ ↦ True :=
  ⟨h, fun _ ↦ trivial⟩

theorem Settles.bind {R : α → Prop} {Q : β → Prop} (h : p.Settles P R)
    (hf : ∀ a, R a → (f a).Settles P Q) : (p.bind f).Settles P Q := by
  induction p with
  | done a => exact hf a h
  | ask r next ih => exact ⟨h.1, fun x ↦ ih x (h.2 x) hf⟩
  | loop => exact h.elim

/-! ## Register access -/

theorem brief_note (event : Event ν) : (note event).Brief := brief_request _

theorem brief_read (addr : Word) : (read addr : Routine ν _).Brief := fun x ↦ by
  cases x with
  | ok value => exact (brief_note _).bind fun _ ↦ trivial
  | error fault => trivial

theorem brief_readOr (addr default : Word) (what : String) :
    (readOr addr default what : Routine ν _).Brief := by
  refine (brief_read addr).bind fun x ↦ ?_
  cases x with
  | ok value => trivial
  | error fault => exact (brief_note _).bind fun _ ↦ trivial

theorem brief_write (value addr : Word) : (write value addr : Routine ν _).Brief :=
  (brief_note _).bind fun _ _ ↦ trivial

theorem brief_tryWrite (value addr : Word) (what : String) :
    (tryWrite value addr what : Routine ν _).Brief := by
  refine (brief_write _ _).bind fun x ↦ ?_
  cases x with
  | ok => trivial
  | error fault => exact brief_note _

theorem brief_stopCore : (stopCore : Routine ν _).Brief := by
  refine (brief_read _).bind fun x ↦ ?_
  cases x with
  | ok flags =>
    exact (brief_forEach (fun _ ↦ brief_tryWrite _ _ _) _).bind fun _ ↦ brief_tryWrite _ _ _
  | error fault => exact (brief_note _).bind fun _ ↦ brief_tryWrite _ _ _

/-! ## What comes of it -/

/-- What is left of a routine that settles does so too. -/
theorem Settles.of_path (hp : Path p talk q) (h : p.Settles P Q) :
    (∀ said ∈ talk, P said.request) ∧ q.Settles P Q := by
  induction hp with
  | nil => exact ⟨List.forall_mem_nil _, h⟩
  | cons hs _ ih =>
    cases hs with
    | ask =>
      obtain ⟨htalk, hq⟩ := ih (h.2 _)
      exact ⟨List.forall_mem_cons.mpr ⟨h.1, htalk⟩, hq⟩
    | loop => exact h.elim

theorem Settles.of_ends {a : α} (he : Ends p a) (h : p.Settles P Q) : Q a := by
  cases he with
  | done a => exact h
  | loop => exact h.elim

/-- Where a routine that settles ends. -/
theorem Settles.of_run {a : α} (run : Run p talk a) (h : p.Settles P Q) :
    (∀ said ∈ talk, P said.request) ∧ Q a := by
  obtain ⟨q, hp, he⟩ := run
  obtain ⟨htalk, hq⟩ := h.of_path hp
  exact ⟨htalk, hq.of_ends he⟩

/-- A routine without loops comes to an end, whoever answers. -/
theorem Brief.exists_run (h : p.Brief) (reply : Answering ν) (s : List (Answered ν)) :
    ∃ talk a, Run p talk a ∧ reply.Gives s talk := by
  induction p generalizing s with
  | done a => exact ⟨[], a, run_done_iff.mpr ⟨rfl, rfl⟩, trivial⟩
  | ask r next ih =>
    obtain ⟨talk, a, run, gives⟩ := ih (reply s r) (h _) (s ++ [⟨r, reply s r⟩])
    exact ⟨⟨r, reply s r⟩ :: talk, a, run_ask_iff.mpr ⟨_, _, rfl, run⟩, rfl, gives⟩
  | loop => exact h.elim

end Routine

end HashBoard
