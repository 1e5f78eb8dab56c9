import HashBoard.Board.Access
import HashBoard.Proofs.Routine.Ensures

/-!
# What a routine never asks

`Only P p` says that the routine `p` asks for nothing but what `P` allows, whatever it is answered.
It is the part of a proof about a routine that needs no account: where every request that is allowed
keeps some condition on the account, the whole routine keeps it (`Only.ensures`).

Most of what a driver asks has no effect that anybody else could notice. Such requests are *quiet*,
and the lemmas about what a routine asks take them for granted: what is left as their hypotheses is
what the routine does to the board, to its lock, to what is remembered of it and to the tuning, and
where it looks for a shutdown.
-/

namespace HashBoard

/-- An event that says what came of a clock change. -/
def Event.isClock {ν : Type} : Event ν → Bool
  | .clockSet .. | .clockTooFast .. | .clockTooSlow .. => true
  | _ => false

/-- An event that shows how far an operation has come. -/
def Event.isMilestone {ν : Type} : Event ν → Bool
  | .changingEpoch _ | .phase .preparing | .phase .generating | .clockSet .. | .clockTooFast ..
  | .clockTooSlow .. | .workProgrammed .. | .notWaitingAnyLonger _ => true
  | _ => false

/-- The nonce slots. -/
def Reg.slots : List Word :=
  [Reg.polledNonceHi 0, Reg.polledNonceHi 1, Reg.polledNonceHi 2, Reg.polledNonceHi 3,
    Reg.polledNonceLo 0, Reg.polledNonceLo 1, Reg.polledNonceLo 2, Reg.polledNonceLo 3]

/-- The two words of the check counter. -/
def Reg.checks : List Word := [Reg.checksLo, Reg.checksHi]

/-- The registers that tell how far the board has got: the status of the generator, the word that
says whether a dataset is resident, the stall counter, the nonce slots, and the check counter. -/
def Reg.telling : List Word :=
  [Reg.dagControl, Reg.dagStatus, Reg.stallCount] ++ Reg.slots ++ Reg.checks

/-- Whether a request has no effect on the board, its lock, what is remembered of it, the tuning and
the feed of work, hands nothing over, does not show how far an operation has come, and does not ask
for a shutdown. -/
def Request.isQuiet {ν : Type} : Request ν → Bool
  | .call (.read addr) => addr ∉ Reg.telling
  | .call .kick | .memory | .now | .sleep _ | .sleepUntil _ | .wake | .park _ | .intensityOverride
  | .errorRate | .tuningStage | .loadTune .. | .fileExists _ | .epochContext _ | .nextSerial
  | .tick _ => true
  | .note event => !event.isMilestone
  | _ => false

namespace Routine

variable {ν S α β σ : Type} {P P' : Request ν → Prop}

/-- A routine asks only for what is allowed. -/
def Only (P : Request ν → Prop) : {α : Type} → Routine ν α → Prop
  | _, .done _ => True
  | _, .ask r next => P r ∧ ∀ x, (next x).Only P
  | _, .loop _ step next => (∀ state, (step state).Only P) ∧ ∀ b, (next b).Only P

/-! ## Rules -/

@[simp] theorem only_done (a : α) : (Routine.done a : Routine ν α).Only P := trivial

theorem only_any (p : Routine ν α) : p.Only fun _ ↦ True := by
  induction p with
  | done => trivial
  | ask r next ih => exact ⟨trivial, ih⟩
  | loop state step next ihs ihn => exact ⟨ihs, ihn⟩

theorem Only.mono {p : Routine ν α} (h : p.Only P) (hP : ∀ r, P r → P' r) : p.Only P' := by
  induction p with
  | done => trivial
  | ask r next ih => exact ⟨hP r h.1, fun x ↦ ih x (h.2 x)⟩
  | loop state step next ihs ihn => exact ⟨fun s ↦ ihs s (h.1 s), fun b ↦ ihn b (h.2 b)⟩

theorem Only.bind {p : Routine ν α} {f : α → Routine ν β} (h : p.Only P)
    (hf : ∀ a, (f a).Only P) : (p.bind f).Only P := by
  induction p with
  | done a => exact hf a
  | ask r next ih => exact ⟨h.1, fun x ↦ ih x (h.2 x) hf⟩
  | loop state step next _ ihn => exact ⟨h.1, fun b ↦ ihn b (h.2 b) hf⟩

theorem only_request {r : Request ν} (h : P r) : (request r).Only P := ⟨h, fun _ ↦ trivial⟩

theorem only_repeating {state : σ} {step : σ → Routine ν (σ ⊕ β)} (h : ∀ s, (step s).Only P) :
    (repeating state step).Only P := ⟨h, fun _ ↦ trivial⟩

theorem only_forEach {ι : Type} {routine : ι → Routine ν Unit} {list : List ι}
    (h : ∀ i ∈ list, (routine i).Only P) : (forEach routine list).Only P := by
  induction list with
  | nil => trivial
  | cons i rest ih =>
    exact (h i (.head rest)).bind fun _ ↦ ih fun j hj ↦ h j (.tail i hj)

/-- What is left of a routine asks only for what the routine may ask for. -/
theorem Only.of_steps {p q : Routine ν α} {r : Request ν} {x : Reply r} (hs : Steps p r x q)
    (h : p.Only P) : P r ∧ q.Only P := by
  induction hs with
  | ask r next x => exact ⟨h.1, h.2 x⟩
  | loop _ ih =>
    refine ih ((h.1 _).bind ?_)
    rintro (state' | b)
    · exact h
    · exact h.2 b

/-- Along a path of a routine nothing is asked but what the routine may ask for. -/
theorem Only.of_path {p q : Routine ν α} {talk : List (Answered ν)} (hp : Path p talk q)
    (h : p.Only P) : ∀ said ∈ talk, P said.request := by
  induction hp with
  | nil => exact fun said hsaid ↦ absurd hsaid List.not_mem_nil
  | cons hs _ ih =>
    have hnext := h.of_steps hs
    exact List.forall_mem_cons.mpr ⟨hnext.1, ih hnext.2⟩

/-- What is asked after a path of a routine is what the routine may ask for. -/
theorem Only.asks_of_path {p q q' : Routine ν α} {talk : List (Answered ν)} {r : Request ν}
    {x : Reply r} (hp : Path p talk q) (hs : Steps q r x q') (h : p.Only P) : P r :=
  h.of_path (hp.append (.cons hs (.nil _))) ⟨r, x⟩ (List.mem_append_right _ (.head _))

/-- Where everything that is allowed keeps a condition on the account, so does the routine. -/
theorem Only.ensures {W : Watch ν S} {p : Routine ν α} (h : p.Only P) {R : S → Prop} {s : S}
    (hs : R s) (safe : ∀ t, R t → W.safe t) (allows : ∀ t r, R t → P r → W.allows t r)
    (moves : ∀ t r x u, R t → P r → W.moves t r x u → R u) : p.Ensures W (fun _ ↦ R) s := by
  induction p generalizing s with
  | done a => exact hs
  | ask r next ih =>
    exact ⟨safe s hs, allows s r hs h.1, fun x t hm ↦ ih x (h.2 x) (moves s r x t hs h.1 hm)⟩
  | loop state step next ihs ihn =>
    refine ⟨fun _ ↦ R, hs, fun state t ht ↦ ⟨safe t ht, (ihs state (h.1 state) ht).mono ?_⟩⟩
    rintro (state' | b) u hu
    · exact hu
    · exact ihn b (h.2 b) hu

/-! ## Register access -/

section Access

variable (quiet : ∀ r : Request ν, r.isQuiet → P r)
include quiet

theorem only_note {event : Event ν} (h : event.isMilestone = false) : (note event).Only P :=
  only_request (quiet _ (by simp [Request.isQuiet, h]))

theorem only_read {addr : Word} (h : P (.call (.read addr))) :
    (read addr : Routine ν _).Only P := by
  refine ⟨h, fun x ↦ ?_⟩
  cases x with
  | ok value => exact (only_note quiet rfl).bind fun _ ↦ trivial
  | error fault => trivial

theorem only_readOr {addr default : Word} {what : String} (h : P (.call (.read addr))) :
    (readOr addr default what : Routine ν _).Only P := by
  refine (only_read quiet h).bind fun x ↦ ?_
  cases x with
  | ok value => trivial
  | error fault => exact (only_note quiet rfl).bind fun _ ↦ trivial

theorem only_write {value addr : Word} (h : P (.call (.write value addr))) :
    (write value addr : Routine ν _).Only P :=
  (only_note quiet rfl).bind fun _ ↦ ⟨h, fun _ ↦ trivial⟩

theorem only_tryWrite {value addr : Word} {what : String} (h : P (.call (.write value addr))) :
    (tryWrite value addr what : Routine ν _).Only P := by
  refine (only_write quiet h).bind fun x ↦ ?_
  cases x with
  | ok => trivial
  | error fault => exact only_note quiet rfl

theorem only_move {src dst length : UInt64} (h : P (.call (.move src dst length))) :
    (move src dst length : Routine ν _).Only P :=
  (only_note quiet rfl).bind fun _ ↦ ⟨h, fun _ ↦ trivial⟩

theorem only_suspend {span : Micros} (acquire : P .acquire) (release : P .release) :
    (suspend span : Routine ν _).Only P :=
  ⟨release, fun _ ↦ ⟨quiet _ rfl, fun _ ↦ only_request acquire⟩⟩

theorem only_stopCore (flags : ∀ value, P (.call (.write value Reg.coreFlags)))
    (off : P (.call (.write Reg.coreOff Reg.coreEnable))) :
    (stopCore : Routine ν _).Only P := by
  refine (only_read quiet (quiet _ rfl)).bind fun x ↦ ?_
  cases x with
  | ok value =>
    exact (only_forEach fun _ _ ↦ only_tryWrite quiet (flags _)).bind fun _ ↦
      only_tryWrite quiet off
  | error fault => exact (only_note quiet rfl).bind fun _ ↦ only_tryWrite quiet off

end Access

end Routine

end HashBoard
