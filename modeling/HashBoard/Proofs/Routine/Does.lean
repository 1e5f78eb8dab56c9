import HashBoard.Board.Access
import HashBoard.Proofs.Routine.Sifting

/-!
# What a routine does

A routine without choices asks for the same things in the same order whatever it is answered, apart
from what it mentions. `Does p rs` says that the routine `p` does just `rs`, in every run.
-/

namespace HashBoard

variable {ν : Type}

/-- Whether a request is more than a mention. -/
def Request.isDeed : Request ν → Bool
  | .note _ => false
  | _ => true

/-- What was asked for, without the mentions. -/
def doings (talk : List (Answered ν)) : List (Request ν) :=
  (sift Request.isDeed talk).map Answered.request

theorem doings_append (talk talk' : List (Answered ν)) :
    doings (talk ++ talk') = doings talk ++ doings talk' := by
  rw [doings, sift_append, List.map_append]
  rfl

namespace Routine

variable {α β : Type} {p : Routine ν α} {f : α → Routine ν β} {rs rs' : List (Request ν)}

/-- A routine does certain things one after another, whatever it is answered, and nothing else. -/
def Does (p : Routine ν α) (rs : List (Request ν)) : Prop :=
  ∀ talk a, Run p talk a → doings talk = rs

theorem does_done (a : α) : (Routine.done a : Routine ν α).Does [] := by
  intro talk b run
  obtain ⟨rfl, -⟩ := run_done_iff.mp run
  rfl

theorem does_request {r : Request ν} (h : r.isDeed) : (request r).Does [r] := by
  intro talk a run
  obtain ⟨x, rest, rfl, ended⟩ := run_ask_iff.mp run
  obtain ⟨rfl, -⟩ := run_done_iff.mp ended
  rw [doings, sift_cons_of_pos h]
  rfl

theorem does_note (event : Event ν) : (note event).Does [] := by
  intro talk a run
  obtain ⟨x, rest, rfl, ended⟩ := run_ask_iff.mp run
  obtain ⟨rfl, -⟩ := run_done_iff.mp ended
  rfl

theorem Does.bind (h : p.Does rs) (hf : ∀ a, (f a).Does rs') : (p.bind f).Does (rs ++ rs') := by
  intro talk b run
  obtain ⟨first, a, second, rfl, hfirst, hsecond⟩ := run_bind_iff.mp run
  rw [doings_append, h first a hfirst, hf a second b hsecond]

theorem does_forEach {ι : Type} {routine : ι → Routine ν Unit} {each : ι → List (Request ν)}
    (h : ∀ i, (routine i).Does (each i)) (list : List ι) :
    (forEach routine list).Does (list.flatMap each) := by
  induction list with
  | nil => exact does_done ()
  | cons i rest ih =>
    rw [List.flatMap_cons]
    exact (h i).bind fun _ ↦ ih

/-- A write is tried once. -/
theorem does_write (value addr : Word) :
    (Routine.write value addr : Routine ν _).Does [.call (.write value addr)] :=
  (does_note _).bind fun _ ↦ does_request rfl

end Routine

end HashBoard
