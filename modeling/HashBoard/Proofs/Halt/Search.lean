import HashBoard.Proofs.Halt.EpochChange

/-!
# Halts during a search

A search may be halted by its own telemetry sample or, while it waits, by a guest's. It does not ask
whether the board is halted. Programming work lets the core run before it says so; emptying the
nonce slots, which is done with the word that runs the core, comes after the slots were read.
-/

namespace HashBoard.Revival

open Routine Board

variable {ν : Type} {s : Account}

/-! ## Programming the work -/

theorem revives_runWord (b : Board) :
    (Request.call (.write b.runWord Reg.coreEnable) : Request ν).Revives := by
  refine .inr (.inr ⟨rfl, ?_⟩)
  rw [runWord]
  cases b.settings.nonceReporting with
  | interrupt => exact .inl rfl
  | polled => exact .inr rfl

theorem ensures_programWork (b : Board) (work : Work) (hs : Even s) :
    (b.programWork work : Routine ν _).Ensures (watch ν) (fun _ ↦ Even) s := by
  have room := roomToDrive_steady (ν := ν)
  have flags {value : Word} : Calm (.call (.write value Reg.coreFlags) : Request ν) :=
    calm_of_addr (by decide) (by decide) (by decide)
  have job {P : Request ν → Prop} (quiet : ∀ r, r.isQuiet → P r)
      (calm : ∀ r, Calm r ∧ Steady r → P r) : (programJob work).Only P := by
    refine only_programJob quiet work (fun value addr h ↦ calm _ ⟨?_, steady_call _⟩)
      (calm _ ⟨calm_call id id, steady_call _⟩)
      (fun _ ↦ calm _ ⟨calm_call id id, steady_call _⟩)
    simp only [List.mem_cons, List.not_mem_nil, or_false] at h
    rcases h with rfl | rfl <;> exact calm_of_addr (by decide) (by decide) (by decide)
  rcases hs.braced_or_exposed with hb | he
  · refine (hb.ensures (job room.quiet fun _ h ↦ h.2)).seq fun _ t ht ↦ ?_
    refine (ht.ensures (only_pacing room.quiet b)).seq fun intensity t ht ↦ ?_
    have pace := only_programPacing room.quiet b intensity room.books fun _ ↦ steady_call _
    refine (ht.ensures pace).seq fun x t ht ↦ ?_
    cases x with
    | error e => exact ht.1
    | ok =>
      refine (ht.ensures (only_tryWrite room.quiet (steady_call _))).seq fun _ t ht ↦ ?_
      exact (ht.ensures (only_request (steady_note _))).seq fun _ t ht ↦ ht.1
  · have quiet : ∀ r : Request ν, r.isQuiet → Calm r ∧ Steady r :=
      fun _ h ↦ ⟨calm_of_isQuiet h, steady_of_isQuiet h⟩
    refine (he.ensures (job quiet fun _ h ↦ h)).seq fun _ t ht ↦ ?_
    refine (ht.ensures (only_pacing quiet b)).seq fun intensity t ht ↦ ?_
    have pace := only_programPacing quiet b intensity (fun f hf ↦ ⟨calm_revise f, steady_books hf⟩)
      fun _ ↦ ⟨flags, steady_call _⟩
    refine (ht.ensures pace).seq fun x t ht ↦ ?_
    cases x with
    | error e => exact ht.even
    | ok =>
      -- the core runs before it is said that there is work
      refine (ht.ensures_revive (revives_runWord b)).seq fun _ t ht ↦ ?_
      have advances : (Request.note (.workProgrammed work.header work.startNonce intensity) :
        Request ν).Advances := trivial
      exact (ht.ensures_advance advances).seq fun _ t ht ↦ ht.1

/-! ## Reading the slots -/

/-- A slot that is full is read: that is an advance. Without a full slot nothing comes of it. -/
theorem ensures_readSlots (flags : Word) {n k : Nat} (h : k + n ≤ Reg.polledSlots)
    (hs : Exposed s) :
    (readSlots flags n (UInt32.ofNat k) : Routine ν _).Ensures (watch ν)
      (fun nonces t ↦ if nonces.isEmpty then Exposed t else Ahead t) s := by
  have quiet : ∀ r : Request ν, r.isQuiet → Calm r ∧ Steady r :=
    fun _ h ↦ ⟨calm_of_isQuiet h, steady_of_isQuiet h⟩
  have steady : ∀ r : Request ν, r.isQuiet → Steady r := fun _ ↦ steady_of_isQuiet
  induction n generalizing k s with
  | zero => exact hs
  | succ n ih =>
    have hnext : UInt32.ofNat k + 1 = UInt32.ofNat (k + 1) := (UInt32.ofNat_add k 1).symm
    rw [readSlots, hnext]
    split
    · exact ih (by omega) hs
    · have first : (Routine.read (Reg.polledNonceHi (UInt32.ofNat k)) : Routine ν _).Ensures
          (watch ν) (fun _ ↦ Ahead) s := by
        refine ⟨.inl hs.1, trivial, fun x t hm ↦ ?_⟩
        obtain ⟨hlock, hhalt, -, hadv⟩ := locked_of_steady hs.1 (steady_call _) hm
        have advances : (Request.call (.read (Reg.polledNonceHi (UInt32.ofNat k))) :
          Request ν).Advances := ⟨k, by omega, rfl⟩
        have ht : Ahead t := ⟨hlock, hhalt ▸ hs.2.1, by simp [hadv, hs.2.1, advances]⟩
        cases x with
        | ok value => exact (ht.ensures (only_note steady rfl)).seq fun _ t ht ↦ ht
        | error fault => exact ht
      have upper : (readOr (Reg.polledNonceHi (UInt32.ofNat k)) 0 "nonce" : Routine ν _).Ensures
          (watch ν) (fun _ ↦ Ahead) s := by
        refine first.seq fun x t ht ↦ ?_
        cases x with
        | ok value => exact ht
        | error fault => exact (ht.ensures (only_note steady rfl)).seq fun _ t ht ↦ ht
      refine upper.seq fun hi t ht ↦ ?_
      refine (ht.ensures (only_readOr steady (steady_call _))).seq fun lo t ht ↦ ?_
      exact (ht.ensures (only_readSlots steady (fun _ _ ↦ steady_call _) flags
        (by omega))).seq fun rest t ht ↦ ht

theorem ensures_pollNonces (hs : Even s) :
    (pollNonces : Routine ν _).Ensures (watch ν) (fun _ ↦ Even) s := by
  have room := roomToDrive_steady (ν := ν)
  rcases hs.braced_or_exposed with hb | he
  · refine (hb.ensures (only_readOr room.quiet (steady_call _))).seq fun flags t ht ↦ ?_
    refine (ht.ensures (only_readSlots room.quiet (fun _ _ ↦ steady_call _) flags (k := 0)
      (by decide))).seq fun nonces t ht ↦ ?_
    split
    · exact (ht.ensures (only_tryWrite room.quiet (steady_call _))).seq fun _ t ht ↦ ht.1
    · exact ht.1
  · have quiet : ∀ r : Request ν, r.isQuiet → Calm r ∧ Steady r :=
      fun _ h ↦ ⟨calm_of_isQuiet h, steady_of_isQuiet h⟩
    refine (he.ensures (only_readOr quiet (quiet _ rfl))).seq fun flags t ht ↦ ?_
    refine (ensures_readSlots flags (k := 0) (n := Reg.polledSlots) (by omega) ht).seq
      fun nonces t ht ↦ ?_
    cases nonces with
    | nil => exact ht.even
    | cons nonce rest =>
      -- the word that clears the slots is the one that lets the core run
      have revives : (Request.call (.write Reg.coreClearNonces Reg.coreEnable) :
        Request ν).Revives := .inr (.inr ⟨rfl, .inr rfl⟩)
      exact (Ahead.ensures_revive revives ht).seq fun _ t ht ↦ ht.1

/-! ## Rounds -/

theorem ensures_awaitInterrupt (b : Board) (hs : Even s) :
    (b.awaitInterrupt : Routine ν _).Ensures (watch ν) (fun _ ↦ Even) s := by
  have quiet : ∀ r : Request ν, r.isQuiet → Calm r := fun _ ↦ calm_of_isQuiet
  refine (ensures_release hs).seq fun _ t ht ↦ ?_
  have wait : (call (.awaitInterrupt Reg.nonceInterrupt b.settings.workDelay) :
      Routine ν _).Ensures (watch ν) (fun _ ↦ Account.Sync) t := ht.ensures (only_request ⟨id, id⟩)
  refine wait.seq fun answer t ht ↦ ?_
  refine (ensures_acquire ht).seq fun _ t ht ↦ ?_
  rcases answer with fault | nonce
  · refine (ht.ensures (only_note quiet rfl)).seq fun _ t ht ↦ ?_
    refine (ht.ensures (only_escalate quiet b _ _)).seq fun x t ht ↦ ?_
    cases x <;> exact ht
  · cases nonce <;> exact ht

theorem ensures_gatherNonces (b : Board) (hs : Even s) :
    (b.gatherNonces : Routine ν _).Ensures (watch ν) (fun _ ↦ Even) s := by
  rw [gatherNonces]
  cases b.settings.nonceReporting with
  | interrupt => exact ensures_awaitInterrupt b hs
  | polled =>
    refine (ensures_suspend b.settings.workDelay hs).seq fun _ t ht ↦ ?_
    exact (ensures_pollNonces ht).seq fun nonces t ht ↦ ht

theorem roomToFinish_calm (work : Work) : RoomToFinish (Calm : Request ν → Prop) work where
  quiet _ := calm_of_isQuiet
  books := calm_books
  halt := calm_revise _
  coreFlags _ := calm_of_addr (by decide) (by decide) (by decide)
  coreOff := calm_coreOff
  powerOff := calm_powerOff
  stall := by
    refine calm_call id ?_
    rintro ⟨i, hi, heq⟩
    have all : ∀ i < Reg.polledSlots, Reg.polledNonceHi (UInt32.ofNat i) ≠ Reg.stallCount := by
      decide
    exact all i hi heq.symm
  checks addr h := by
    refine calm_call id ?_
    rintro ⟨i, hi, rfl⟩
    have all : ∀ i < Reg.polledSlots, Reg.polledNonceHi (UInt32.ofNat i) ∉ Reg.checks := by decide
    exact all i hi h
  tunes _ := ⟨id, id, nofun, nofun⟩
  averages f _ := calm_revise f
  submits _ _ := ⟨id, id, nofun, nofun⟩

variable [Quantity ν]

theorem ensures_searchRound (b : Board) (work : Work) (r : Round) (hs : Even s) :
    (b.searchRound work r : Routine ν _).Ensures (watch ν) (fun _ ↦ Even) s := by
  have quiet : ∀ r : Request ν, r.isQuiet → Calm r := fun _ ↦ calm_of_isQuiet
  refine (hs.ensures (only_request (quiet .memory rfl))).seq fun m t ht ↦ ?_
  split
  · exact ht
  · refine (ht.ensures (only_request calm_look)).seq fun cancelled t ht ↦ ?_
    split
    · exact ht
    · refine (ensures_gatherNonces b ht).seq fun x t ht ↦ ?_
      cases x with
      | error e => exact ht
      | ok nonces => exact ht.ensures (only_finishRound (roomToFinish_calm work) b r nonces)

theorem ensures_runSearch (b : Board) (work : Work) (hs : Even s) :
    (b.runSearch work : Routine ν _).Ensures (watch ν) (fun _ ↦ Even) s := by
  refine (ensures_programWork b work hs).seq fun x t ht ↦ ?_
  cases x with
  | error e => exact ht
  | ok =>
    refine (ht.ensures (only_request (calm_revise _))).seq fun _ t ht ↦ ?_
    refine (ht.ensures (only_request (calm_of_isQuiet (r := .now) rfl))).seq fun now t ht ↦ ?_
    refine ensures_repeating (fun _ ↦ Even) ht fun r t ht ↦ ⟨.inl ht.1, ?_⟩
    refine (ensures_searchRound b work r ht).mono ?_
    rintro (r | x) t ht <;> exact ht

theorem ensures_search (b : Board) (work : Work) (hs : s.Sync) :
    (b.search work : Routine ν _).Ensures (watch ν) (fun _ ↦ Account.Sync) s := by
  have quiet : ∀ r : Request ν, r.isQuiet → Calm r := fun _ ↦ calm_of_isQuiet
  have outside {r : Request ν} (h : Calm r) : ¬r.Revives ∧ ¬r.Advances := ⟨h.1, h.2.1⟩
  refine (ensures_acquire hs).seq fun _ t ht ↦ ?_
  refine (ensures_runSearch b work ht).seq fun result t ht ↦ ?_
  have stop := only_stopCore quiet (roomToFinish_calm work).coreFlags calm_coreOff
  refine (ht.ensures stop).seq fun _ t ht ↦ ?_
  refine (ensures_release ht).seq fun _ t ht ↦ ?_
  refine (ht.ensures (only_request (outside (calm_revise _)))).seq fun _ t ht ↦ ?_
  cases result with
  | ok exit => exact (ht.ensures (only_request (outside (quiet _ rfl)))).seq fun _ t ht ↦ ht
  | error e => exact (ht.ensures (only_request (outside (quiet _ rfl)))).seq fun _ t ht ↦ ht

end HashBoard.Revival
