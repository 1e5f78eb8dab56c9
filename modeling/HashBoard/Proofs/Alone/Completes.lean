import HashBoard.Proofs.Alone.Board
import HashBoard.Proofs.Alone.Play

/-!
# What a routine comes to when nothing goes wrong

Somebody who is alone with an intact board sees nothing change but by what he does himself. A `View`
is what he can know: what the registers hold, what was written to the word that says which dataset
there is, what is remembered, and whether he has the lock. `Completes` says that a routine, started
where a view shows the simulated world as it is, comes to its end, and where; it is a program logic
for runs without faults and without others. There is one rule for each request that such routines
make.
-/

namespace HashBoard

open Routine Simulation

variable {ν α β : Type}

/-- What somebody who is alone with a board knows of it. -/
structure View (ν : Type) where
  /-- What the registers hold. -/
  register : Word → Word
  /-- What was written to the word that says which dataset there is, in order. -/
  marks : List Word
  /-- What is remembered of the board. -/
  memory : Memory ν
  /-- He has the lock. -/
  held : Bool

/-- What there is to see after a write. -/
def View.put (s : View ν) (addr value : Word) : View ν :=
  { s with
    register := fun addr' ↦
      if addr = addr' then SimulatedBoard.finished value addr else s.register addr'
    marks := if addr = Reg.dagStatus then s.marks ++ [value] else s.marks }

theorem View.register_put (s : View ν) (addr value addr' : Word) :
    (s.put addr value).register addr' =
      if addr = addr' then SimulatedBoard.finished value addr else s.register addr' := rfl

theorem View.register_put_self (s : View ν) (addr value : Word) :
    (s.put addr value).register addr = SimulatedBoard.finished value addr := if_pos rfl

/-- A board is intact and as a view says. -/
structure SimulatedBoard.Matches (b : SimulatedBoard) (s : View ν) : Prop where
  intact : b.Intact
  register : b.register = s.register
  marks : b.writesTo Reg.dagStatus = s.marks

theorem SimulatedBoard.Matches.congr {b : SimulatedBoard} {s t : View ν} (h : b.Matches s)
    (register : t.register = s.register) (marks : t.marks = s.marks) : b.Matches t :=
  ⟨h.intact, h.register.trans register.symm, h.marks.trans marks.symm⟩

variable [Quantity ν] {seat : Seat} {w w' : World ν} {s t : View ν}

/-- Somebody is alone in the world, which is as a view says. -/
structure World.Shows (seat : Seat) (w : World ν) (s : View ν) : Prop where
  present : seat.board < w.sites.size
  unplanned : (w.site seat.board).link.plan = []
  board : (w.site seat.board).link.board.Matches s
  memory : (w.site seat.board).memory = s.memory
  lock : (w.site seat.board).lock = { held := s.held }
  running : w.cancelled = false
  lonely : w.IsLonely

theorem Link.perform_of_unplanned {l : Link} (h : l.plan = []) (c : Call) :
    (l.perform c).2 = (l.board.perform c).2 ∧ (l.perform c).1.board = (l.board.perform c).1 ∧
      (l.perform c).1.plan = [] := by
  have hcount : (l.count c).2 = none ∧ (l.count c).1.board = l.board ∧ (l.count c).1.plan = [] := by
    rw [count]
    cases c.kind? with
    | none => exact ⟨rfl, rfl, h⟩
    | some kind =>
      refine ⟨?_, rfl, h⟩
      rw [h]
      rfl
  obtain ⟨hnone, hboard, hplan⟩ := hcount
  rw [perform]
  generalize l.count c = counted at hnone hboard hplan
  obtain ⟨l', fault⟩ := counted
  cases hnone
  dsimp only at hboard hplan ⊢
  rw [hboard]
  exact ⟨rfl, rfl, hplan⟩

namespace World

theorem site_setSite {i : Nat} (h : i < w.sites.size) (x : Site ν) :
    (w.setSite i x).site i = x := by
  simp [site, setSite, h]

/-- The world with another site for somebody who is alone. -/
theorem Shows.setSite (h : w.Shows seat s) {x : Site ν} (unplanned : x.link.plan = [])
    (board : x.link.board.Matches t) (memory : x.memory = t.memory)
    (lock : x.lock = { held := t.held }) : (w.setSite seat.board x).Shows seat t := by
  have hsite : (w.setSite seat.board x).site seat.board = x := site_setSite h.present x
  refine ⟨?_, ?_, ?_, ?_, ?_, h.running, ⟨h.lonely.alive, h.lonely.wishes⟩⟩
  · simpa [World.setSite] using h.present
  all_goals rw [hsite]; assumption

theorem Shows.mention (h : w.Shows seat s) (event : Event ν) :
    (w.mention seat event).Shows seat s :=
  ⟨h.present, h.unplanned, h.board, h.memory, h.lock, h.running, h.lonely.alive, h.lonely.wishes⟩

/-- A call over a connection whose calls are not planned to fail reaches the board. -/
theorem Shows.perform (h : w.Shows seat s) {c : Call}
    (board : ((w.site seat.board).link.board.perform c).1.Matches t) (memory : t.memory = s.memory)
    (held : t.held = s.held) : (w.perform seat c).1.Shows seat t ∧
      (w.perform seat c).2 = ((w.site seat.board).link.board.perform c).2 := by
  obtain ⟨hanswer, hboard, hplan⟩ := Link.perform_of_unplanned h.unplanned c
  have hset : (w.setSite seat.board { w.site seat.board with
      link := ((w.site seat.board).link.perform c).1 }).Shows seat t := by
    refine h.setSite hplan ?_ (h.memory.trans memory.symm) ?_
    · rw [hboard]
      exact board
    · rw [held]
      exact h.lock
  rw [World.perform]
  generalize (w.site seat.board).link.perform c = performed at hanswer hset
  obtain ⟨link, answer⟩ := performed
  dsimp only at hanswer hset ⊢
  generalize c.fault? answer = fault
  cases fault with
  | some fault => exact ⟨hset, hanswer⟩
  | none =>
    cases c with
    | write value addr => exact ⟨hset.mention _, hanswer⟩
    | _ => exact ⟨hset, hanswer⟩

theorem begin_call {c : Call} (hc : c.kind? ≠ some .awaitInterrupt) :
    w.begin seat (.call c) = ((w.perform seat c).1, .answered (w.perform seat c).2) := by
  cases c with
  | awaitInterrupt mask span => exact absurd rfl hc
  | _ => rfl

end World

namespace Routine

/-- Alone where a view shows the world as it is, a routine comes to its end, and a condition holds
of its answer and of what there is to see then. -/
def Completes (p : Routine ν α) (Q : α → View ν → Prop) (s : View ν) : Prop :=
  ∀ (seat : Seat) (w : World ν), w.Shows seat s →
    ∃ w' a t, w.Plays seat p w' a ∧ w'.Shows seat t ∧ Q a t

/-! ## Rules -/

variable {p : Routine ν α} {f : α → Routine ν β} {Q Q' : α → View ν → Prop} {R : β → View ν → Prop}

theorem Completes.mono (h : p.Completes Q s) (hQ : ∀ a t, Q a t → Q' a t) : p.Completes Q' s := by
  intro seat w hw
  obtain ⟨w', a, t, hplays, ht, ha⟩ := h seat w hw
  exact ⟨w', a, t, hplays, ht, hQ a t ha⟩

theorem completes_done {a : α} (h : Q a s) : (done a).Completes Q s :=
  fun _ w hw ↦ ⟨w, a, s, .done w a, hw, h⟩

theorem Completes.bind (h : p.Completes (fun a t ↦ (f a).Completes R t) s) :
    (p.bind f).Completes R s := by
  intro seat w hw
  obtain ⟨w₁, a, t, hplays, ht, ha⟩ := h seat w hw
  obtain ⟨w', b, u, hplays', hu, hb⟩ := ha seat w₁ ht
  exact ⟨w', b, u, hplays.bind hplays', hu, hb⟩

/-- One routine after another, with a condition in between. -/
theorem Completes.seq (h : p.Completes Q s) (hf : ∀ a t, Q a t → (f a).Completes R t) :
    (p.bind f).Completes R s := (h.mono hf).bind

/-- A request that is answered at once. -/
theorem completes_request {r : Request ν} {Q : Reply r → View ν → Prop}
    (h : ∀ (seat : Seat) (w : World ν), w.Shows seat s →
      ∃ w' x t, w.Serves seat r w' x ∧ w'.Shows seat t ∧ Q x t) : (request r).Completes Q s := by
  intro seat w hw
  obtain ⟨w', x, t, hserves, ht, hx⟩ := h seat w hw
  exact ⟨w', x, t, .ask hserves ht.lonely (.done w' x), ht, hx⟩

/-! ## Requests other than calls -/

theorem completes_note (event : Event ν) {Q : Unit → View ν → Prop} (h : Q () s) :
    (note event).Completes Q s :=
  completes_request fun seat w hw ↦
    ⟨w.mention seat event, (), s, .promptly rfl, hw.mention event, h⟩

theorem completes_now {Q : Micros → View ν → Prop} (h : ∀ time, Q time s) :
    (now : Routine ν _).Completes Q s :=
  completes_request fun _ w hw ↦ ⟨w, w.now, s, .promptly rfl, hw, h _⟩

theorem completes_isCancelled {Q : Bool → View ν → Prop} (h : Q false s) :
    (isCancelled : Routine ν _).Completes Q s :=
  completes_request fun _ w hw ↦
    ⟨w, false, s, .promptly (by rw [World.begin, hw.running]), hw, h⟩

theorem completes_memory {Q : Memory ν → View ν → Prop} (h : Q s.memory s) :
    (memory : Routine ν _).Completes Q s :=
  completes_request fun _ w hw ↦
    ⟨w, s.memory, s, .promptly (by rw [World.begin, hw.memory]), hw, h⟩

theorem completes_revise (g : Memory ν → Memory ν) {Q : Unit → View ν → Prop}
    (h : Q () { s with memory := g s.memory }) : (revise g).Completes Q s :=
  completes_request fun _ _ hw ↦
    ⟨_, (), { s with memory := g s.memory }, .promptly rfl,
      hw.setSite hw.unplanned (hw.board.congr rfl rfl) (congrArg g hw.memory) hw.lock, h⟩

theorem completes_acquire (free : s.held = false) {Q : Unit → View ν → Prop}
    (h : Q () { s with held := true }) : (acquire : Routine ν _).Completes Q s :=
  completes_request fun seat w hw ↦ by
    have hask : (w.site seat.board).lock.ask seat.role = ({ held := true }, true) := by
      rw [hw.lock, free]
      rfl
    refine ⟨_, (), { s with held := true }, .promptly (by rw [World.begin, hask]; rfl), ?_, h⟩
    exact hw.setSite hw.unplanned (hw.board.congr rfl rfl) hw.memory rfl

theorem completes_release {Q : Unit → View ν → Prop} (h : Q () { s with held := false }) :
    (release : Routine ν _).Completes Q s :=
  completes_request fun seat w hw ↦ by
    have hrelease : (w.site seat.board).lock.release = { held := false } := by
      rw [hw.lock]
      rfl
    refine ⟨_, (), { s with held := false }, .promptly rfl, ?_, h⟩
    exact hw.setSite hw.unplanned (hw.board.congr rfl rfl) hw.memory hrelease

theorem completes_sleep (span : Micros) {Q : Unit → View ν → Prop} (h : Q () s) :
    (sleep span : Routine ν _).Completes Q s :=
  completes_request fun seat w hw ↦ by
    by_cases hpast : World.wholeMillis (w.now + span) ≤ w.now
    · refine ⟨w, (), s, .promptly ?_, hw, h⟩
      rw [World.begin, World.awaitTime, if_pos hpast]
    · refine ⟨{ w with now := max w.now (World.wholeMillis (w.now + span)) }, (), s,
        .inTime (t := World.wholeMillis (w.now + span)) ?_ ?_ ?_, ?_, h⟩
      · rw [World.begin, World.awaitTime, if_neg hpast]
      · exact if_neg (by simpa [World.hasCome] using hpast)
      · exact if_pos (decide_eq_true (Nat.le_max_right ..))
      · exact ⟨hw.1, hw.2, hw.3, hw.4, hw.5, hw.6, hw.7.1, hw.7.2⟩

theorem completes_startTune (clock : ν) {Q : Unit → View ν → Prop} (h : Q () s) :
    (request (.startTune clock)).Completes Q s :=
  completes_request fun _ _ hw ↦
    ⟨_, (), s, .promptly rfl, hw.setSite hw.unplanned hw.board hw.memory hw.lock, h⟩

/-! ## Calls -/

/-- A call that takes no time. -/
theorem completes_call {c : Call} (hc : c.kind? ≠ some .awaitInterrupt)
    {Q : c.Answer → View ν → Prop}
    (h : ∀ b : SimulatedBoard, b.Matches s → ∃ t : View ν, (b.perform c).1.Matches t ∧
      t.memory = s.memory ∧ t.held = s.held ∧ Q (b.perform c).2 t) : (call c).Completes Q s :=
  completes_request (r := .call c) fun seat w hw ↦ by
    obtain ⟨t, hmatches, hmemory, hheld, hx⟩ := h _ hw.board
    obtain ⟨hshows, hanswer⟩ := hw.perform hmatches hmemory hheld
    refine ⟨_, _, t, .promptly (World.begin_call hc), hshows, ?_⟩
    rw [hanswer]
    exact hx

theorem completes_read {addr : Word} (haddr : addr ∈ Reg.consulted)
    {Q : Except LinkFault Word → View ν → Prop} (h : Q (.ok (s.register addr)) s) :
    (read addr).Completes Q s := by
  refine .bind (completes_call (by nofun) fun b hb ↦ ⟨s, ?_⟩)
  have hread := hb.intact.read_eq haddr
  rw [hb.register] at hread
  rw [SimulatedBoard.perform, hread]
  refine ⟨⟨hb.intact.recorded .., hb.register, hb.marks⟩, rfl, rfl, ?_⟩
  exact .bind (completes_note _ (completes_done h))

theorem completes_readOr {addr : Word} (haddr : addr ∈ Reg.consulted) {default : Word}
    {what : String} {Q : Word → View ν → Prop} (h : Q (s.register addr) s) :
    (readOr addr default what).Completes Q s :=
  .bind (completes_read haddr (completes_done h))

theorem completes_tryWrite {value addr : Word} (haddr : Reg.isProgrammed addr) {what : String}
    {Q : Unit → View ν → Prop} (h : Q () (s.put addr value)) :
    (tryWrite value addr what).Completes Q s := by
  refine .bind (.bind (completes_note _ ?_))
  refine completes_call (by nofun) fun b hb ↦ ⟨s.put addr value, ?_⟩
  rw [SimulatedBoard.perform, hb.intact.write_eq haddr]
  refine ⟨⟨hb.intact.recorded .., ?_, ?_⟩, rfl, rfl, completes_done h⟩
  · funext addr'
    have hset := b.register_setRegister addr (SimulatedBoard.finished value addr) addr'
    rw [hb.register] at hset
    exact hset
  · have hmarks := hb.marks
    rw [SimulatedBoard.writesTo] at hmarks ⊢
    by_cases hstatus : addr = Reg.dagStatus
    · simp [View.put, hstatus, ← hmarks]
    · simp [View.put, hstatus, ← hmarks]

theorem completes_upload (bytes : ByteArray) (addr : UInt64)
    {Q : Except LinkFault Unit → View ν → Prop} (h : Q (.ok ()) s) :
    (call (.upload bytes addr)).Completes Q s := by
  refine completes_call (by nofun) fun b hb ↦ ⟨s, ?_⟩
  rw [SimulatedBoard.perform, hb.intact.upload_eq]
  exact ⟨⟨hb.intact.recorded .., hb.register, hb.marks⟩, rfl, rfl, h⟩

theorem completes_move (src dst length : UInt64) {Q : Except LinkFault Unit → View ν → Prop}
    (h : Q (.ok ()) s) : (move src dst length).Completes Q s := by
  refine .bind (completes_note _ (completes_call (by nofun) fun b hb ↦ ⟨s, ?_⟩))
  rw [SimulatedBoard.perform, hb.intact.move_eq]
  exact ⟨⟨hb.intact.recorded .., hb.register, hb.marks⟩, rfl, rfl, h⟩

end Routine

end HashBoard
