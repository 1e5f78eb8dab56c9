import HashBoard.Proofs.Board.Blocks
import HashBoard.Proofs.Epoch.Brief
import HashBoard.Proofs.Stall.Detection

/-!
# What the registers of a search hold

Programming some work makes six accesses, whatever comes of them unless it is the write of the flags
that fails: header and boundary in bulk, the two halves of the first nonce, the flags, and the
switch of the core. Where none of them is refused, each register it is about holds in the end what
it stands for, and no other register is changed. The seed of a light cache is written the same way,
its bytes in reverse order.
-/

namespace HashBoard

open Routine Board

/-- The registers that programming some work writes. -/
def Reg.programmed : List Word :=
  Reg.block Reg.header ++ Reg.block Reg.target ++
    [Reg.startNonceHi, Reg.startNonceLo, Reg.coreFlags, Reg.coreEnable]

section

variable (ν : Type)

/-- How header, boundary and first nonce are programmed. -/
def Work.jobWrites (work : Work) : List (Request ν) :=
  [.call (.writeBulk work.header.bytes Reg.header true),
    .call (.writeBulk (Hash.effective work.boundary).bytes Reg.target true),
    .call (.write (work.startNonce >>> 32).toUInt32 Reg.startNonceHi),
    .call (.write work.startNonce.toUInt32 Reg.startNonceLo)]

/-- How some work is programmed at some pacing. -/
def Board.programming (b : Board) (work : Work) (intensity : Intensity) : List (Request ν) :=
  work.jobWrites ν ++
    [.call (.write intensity.controlWord Reg.coreFlags), .call (.write b.runWord Reg.coreEnable)]

end

/-- The registers stand for some work at some pacing. -/
structure SimulatedBoard.Stands (board : SimulatedBoard) (b : Board) (work : Work)
    (intensity : Intensity) : Prop where
  header : board.blockBytes Reg.header = work.header.bytes
  target : board.blockBytes Reg.target = (Hash.effective work.boundary).bytes
  nonce : (board.register Reg.startNonceHi).toNat * 2 ^ 32 +
    (board.register Reg.startNonceLo).toNat = work.startNonce.toNat
  flags : board.register Reg.coreFlags = intensity.controlWord
  runsInterrupt : b.settings.nonceReporting = .interrupt →
    board.register Reg.coreEnable = Reg.coreRunInterrupt
  runsPolled : b.settings.nonceReporting = .polled →
    board.register Reg.coreEnable = Reg.coreRunPolled

namespace Programmed

variable {ν : Type} {b : Board} {work : Work} {talk : List (Answered ν)}

/-! ### What is accessed -/

theorem accesses_call {c : Call} (h : (Request.call c : Request ν).isAccess)
    (s : List (Answered ν)) :
    (call c).Ensures (transcript ν) (fun _ t ↦ Accesses s t [.call c]) s := by
  refine (ensures_request (.call c) s).mono ?_
  rintro x t rfl
  refine ⟨[⟨.call c, x⟩], ?_, rfl⟩
  rw [accesses_append]
  exact congrArg _ (List.filter_cons_of_pos h)

theorem accesses_programTarget (work : Work) (boundary : Hash) (s : List (Answered ν)) :
    (programTarget work boundary).Ensures (transcript ν) (fun _ t ↦ Accesses s t
      [.call (.writeBulk boundary.bytes Reg.target true),
        .call (.write (work.startNonce >>> 32).toUInt32 Reg.startNonceHi),
        .call (.write work.startNonce.toUInt32 Reg.startNonceLo)]) s := by
  have nonce {t u : List (Answered ν)} (ht : Accesses s t
        [.call (.writeBulk boundary.bytes Reg.target true)]) (hu : Accesses t u []) :
      (do
        tryWrite (work.startNonce >>> 32).toUInt32 Reg.startNonceHi "start nonce"
        tryWrite work.startNonce.toUInt32 Reg.startNonceLo "start nonce" : Routine ν Unit).Ensures
        (transcript ν) (fun _ t ↦ Accesses s t
          [.call (.writeBulk boundary.bytes Reg.target true),
            .call (.write (work.startNonce >>> 32).toUInt32 Reg.startNonceHi),
            .call (.write work.startNonce.toUInt32 Reg.startNonceLo)]) u := by
    refine (accesses_tryWrite _ _ _ u).seq fun _ v hv ↦ ?_
    exact (accesses_tryWrite _ _ _ v).mono fun _ w hw ↦ ((ht.trans hu).trans hv).trans hw
  refine (accesses_call rfl s).seq ?_
  rintro (fault | -) t ht
  · exact (accesses_note _ t).seq fun _ u hu ↦ nonce ht hu
  · exact nonce ht ⟨[], (List.append_nil _).symm, rfl⟩

theorem accesses_programBoundary (work : Work) (boundary : Hash) (s : List (Answered ν)) :
    (programBoundary work boundary).Ensures (transcript ν) (fun _ t ↦ Accesses s t
      [.call (.writeBulk boundary.bytes Reg.target true),
        .call (.write (work.startNonce >>> 32).toUInt32 Reg.startNonceHi),
        .call (.write work.startNonce.toUInt32 Reg.startNonceLo)]) s := by
  rw [programBoundary]
  dsimp only
  split
  · refine (accesses_note _ s).seq fun _ t ht ↦ ?_
    exact (accesses_programTarget work boundary t).mono fun _ _ hu ↦ ht.trans hu
  · exact accesses_programTarget work boundary s

theorem accesses_programJob (work : Work) (s : List (Answered ν)) :
    (programJob work).Ensures (transcript ν)
      (fun _ t ↦ Accesses s t (work.jobWrites ν)) s := by
  rw [programJob_eq, Work.jobWrites]
  generalize Hash.effective work.boundary = boundary
  have header := accesses_call (ν := ν) (c := .writeBulk work.header.bytes Reg.header true) rfl s
  refine header.seq ?_
  rintro (fault | -) t ht
  · refine (accesses_note (.headerFailed fault) t).seq fun _ u hu ↦ ?_
    exact (accesses_programBoundary work boundary u).mono fun _ _ hv ↦ (ht.trans hu).trans hv
  · exact (accesses_programBoundary work boundary t).mono fun _ _ hu ↦ ht.trans hu

/-- Programming some work: the job, what the tuning wants, and the flags; and where the flags were
taken, the switch of the core. -/
theorem exists_of_run_programWork {x : Except BoardError Unit}
    (run : Run (b.programWork work) talk x) :
    ∃ job wanted f event answer last,
      talk = job ++ ⟨.intensityOverride, wanted⟩ :: ⟨.revise f, ()⟩ :: ⟨.note event, ()⟩ ::
        ⟨.call (.write (wanted.getD b.settings.intensity).controlWord Reg.coreFlags), answer⟩ ::
        last ∧
      (accesses job).map Answered.request = work.jobWrites ν ∧
      (answer = .ok () → x = .ok () ∧
        (accesses last).map Answered.request = [.call (.write b.runWord Reg.coreEnable)]) := by
  obtain ⟨job, _, _, rfl, hjob, hpace⟩ := run_bind_iff.mp run
  obtain ⟨wanted, _, rfl, hprogram⟩ := (run_ask_iff (r := .intensityOverride)).mp hpace
  obtain ⟨_, _, rfl, hmention⟩ := (run_ask_iff (r := .revise _)).mp hprogram
  obtain ⟨_, _, rfl, hwrite⟩ := (run_ask_iff (r := .note _)).mp hmention
  obtain ⟨answer, last, rfl, hlast⟩ := (run_ask_iff (r := .call _)).mp hwrite
  refine ⟨job, wanted, _, _, answer, last, rfl, ?_, ?_⟩
  · obtain ⟨more, hmore, hrequests⟩ := (accesses_programJob work []).of_run hjob
    rw [List.nil_append] at hmore
    rw [hmore]
    exact hrequests
  · rintro rfl
    have switched : (do
        tryWrite b.runWord Reg.coreEnable "core enable"
        note (.workProgrammed work.header work.startNonce (wanted.getD b.settings.intensity))
        pure (.ok ()) : Routine ν (Except BoardError Unit)).Ensures (transcript ν)
        (fun x t ↦ x = .ok () ∧ Accesses [] t [.call (.write b.runWord Reg.coreEnable)]) [] := by
      refine (accesses_tryWrite _ _ _ []).seq fun _ t ht ↦ ?_
      exact (accesses_note _ t).seq fun _ u hu ↦ ⟨rfl, ht.trans hu⟩
    obtain ⟨hx, more, hmore, hrequests⟩ := switched.of_run hlast
    rw [List.nil_append] at hmore
    rw [hmore]
    exact ⟨hx, hrequests⟩

/-- Where no write is refused, some work is programmed in full. -/
theorem programming_of_run {x : Except BoardError Unit} (run : Run (b.programWork work) talk x)
    (taken : ∀ said ∈ talk, said.isRefused = false) :
    x = .ok () ∧ ∃ wanted, ⟨.intensityOverride, wanted⟩ ∈ talk ∧
      (accesses talk).map Answered.request =
        b.programming ν work (wanted.getD b.settings.intensity) := by
  obtain ⟨job, wanted, f, event, answer, last, rfl, hjob, hlast⟩ := exists_of_run_programWork run
  cases answer with
  | error fault =>
    have hrefused := taken _ (List.mem_append_right job (.tail _ (.tail _ (.tail _ (.head _)))))
    cases hrefused
  | ok =>
    obtain ⟨hx, henable⟩ := hlast rfl
    refine ⟨hx, wanted, List.mem_append_right job (.head _), ?_⟩
    rw [accesses_append, List.map_append, hjob]
    change _ ++ Answered.request _ :: (accesses last).map Answered.request = _
    rw [henable]
    rfl

/-! ### What the registers hold -/

section Registers

variable {board board' : SimulatedBoard} {i : Intensity} {addr : Word}

/-- Programming some work reads nothing, and writes nothing but what it stands for. -/
theorem plainFor_of_programming
    (h : (accesses talk).map Answered.request = b.programming ν work i) (addr : Word) :
    ∀ said ∈ talk, board.PlainFor addr said.request := by
  intro said hs
  by_cases haccess : said.request.isAccess
  · have hmem : said.request ∈ b.programming ν work i :=
      h ▸ List.mem_map_of_mem (List.mem_filter.mpr ⟨hs, haccess⟩)
    have write (value : Word) {a : Word} (ha : a ∉ Reg.finishing)
        (hr : said.request = .call (.write value a)) : board.PlainFor addr said.request := by
      rw [hr]
      refine ⟨nofun, ?_, trivial⟩
      rintro _ ⟨⟩
      exact ha
    have hash (hash : Hash) {base : Word}
        (hr : said.request = .call (.writeBulk hash.bytes base true)) :
        board.PlainFor addr said.request := by
      rw [hr]
      exact ⟨nofun, nofun, fitsInBulk_hash hash.length_eq base⟩
    simp only [programming, Work.jobWrites, List.cons_append, List.nil_append, List.mem_cons,
      List.not_mem_nil, or_false] at hmem
    rcases hmem with hr | hr | hr | hr | hr | hr
    · exact hash _ hr
    · exact hash _ hr
    all_goals exact write _ (by decide) hr
  · refine ⟨fun hr ↦ ?_, fun value hr ↦ ?_, ?_⟩
    · exact absurd (hr ▸ rfl) haccess
    · exact absurd (hr ▸ rfl) haccess
    · unfold SimulatedBoard.FitsInBulk
      split
      · rename_i hr
        exact absurd (hr ▸ rfl) haccess
      · trivial

/-- Each register holds the word of the last access that reaches it. -/
theorem register_of_programming (answers : board.Answers talk board')
    (taken : ∀ said ∈ talk, said.isRefused = false)
    (h : (accesses talk).map Answered.request = b.programming ν work i) (addr : Word) :
    board'.register addr =
      ((.call (.write b.runWord Reg.coreEnable) : Request ν).puts addr).getD
        (((.call (.write i.controlWord Reg.coreFlags) : Request ν).puts addr).getD
          (((.call (.write work.startNonce.toUInt32 Reg.startNonceLo) : Request ν).puts addr).getD
            (((.call (.write (work.startNonce >>> 32).toUInt32 Reg.startNonceHi) :
                Request ν).puts addr).getD
              (((.call (.writeBulk (Hash.effective work.boundary).bytes Reg.target true) :
                  Request ν).puts addr).getD
                (((.call (.writeBulk work.header.bytes Reg.header true) : Request ν).puts addr).getD
                  (board.register addr)))))) := by
  rw [answers.register_eq (plainFor_of_programming h addr), contents_eq_overwritten taken, h]
  rfl

/-- The halves of a nonce make the nonce. -/
theorem toNat_halves (nonce : UInt64) :
    (nonce >>> 32).toUInt32.toNat * 2 ^ 32 + nonce.toUInt32.toNat = nonce.toNat := by
  have hlt := nonce.toNat_lt
  have hhi : (nonce >>> 32).toUInt32.toNat = nonce.toNat / 2 ^ 32 := by
    rw [UInt64.toNat_toUInt32, UInt64.toNat_shiftRight, Nat.shiftRight_eq_div_pow]
    exact Nat.mod_eq_of_lt (by change nonce.toNat / 2 ^ 32 < 2 ^ 32; omega)
  rw [hhi, UInt64.toNat_toUInt32]
  exact Nat.div_add_mod' _ _

/-- The registers stand for the work that was programmed. -/
theorem stands_of_programming (answers : board.Answers talk board')
    (taken : ∀ said ∈ talk, said.isRefused = false)
    (h : (accesses talk).map Answered.request = b.programming ν work i) :
    board'.Stands b work i := by
  have holds := register_of_programming answers taken h
  -- no two of the writes reach the same register, so their order does not matter
  let singles := [Reg.coreEnable, Reg.coreFlags, Reg.startNonceLo, Reg.startNonceHi]
  have single : ∀ k < 8, Reg.header + 4 * UInt32.ofNat k ∉ singles ∧
      Reg.target + 4 * UInt32.ofNat k ∉ singles := by decide
  have apart : ∀ k < 8, Reg.header + 4 * UInt32.ofNat k ∉ Reg.block Reg.target := by decide
  have enable : board'.register Reg.coreEnable = b.runWord := by
    rw [holds, puts_write_self]
    rfl
  refine ⟨?_, ?_, ?_, ?_, fun hmode ↦ ?_, fun hmode ↦ ?_⟩
  · refine SimulatedBoard.blockBytes_eq work.header.length_eq fun k hk word hword ↦ ?_
    have ne (a : Word) (ha : a ∈ singles) := ne_of_mem_of_not_mem ha (single k hk).1
    rw [holds, puts_write_of_ne (ne _ (by decide)), puts_write_of_ne (ne _ (by decide)),
      puts_write_of_ne (ne _ (by decide)), puts_write_of_ne (ne _ (by decide)),
      puts_hash_of_not_mem (Hash.effective _).length_eq (apart k hk), puts_hash_block _ _ hk, hword]
    rfl
  · refine SimulatedBoard.blockBytes_eq (Hash.effective _).length_eq fun k hk word hword ↦ ?_
    have ne (a : Word) (ha : a ∈ singles) := ne_of_mem_of_not_mem ha (single k hk).2
    rw [holds, puts_write_of_ne (ne _ (by decide)), puts_write_of_ne (ne _ (by decide)),
      puts_write_of_ne (ne _ (by decide)), puts_write_of_ne (ne _ (by decide)),
      puts_hash_block _ _ hk, hword]
    rfl
  · rw [holds, holds, puts_write_of_ne (by decide), puts_write_of_ne (by decide),
      puts_write_of_ne (by decide), puts_write_self, puts_write_of_ne (by decide),
      puts_write_of_ne (by decide), puts_write_self]
    exact toNat_halves work.startNonce
  · rw [holds, puts_write_of_ne (by decide), puts_write_self]
    rfl
  · rw [enable, runWord, hmode]
  · rw [enable, runWord, hmode]

/-- Registers that are not programmed are left alone. -/
theorem register_of_not_programmed (answers : board.Answers talk board')
    (taken : ∀ said ∈ talk, said.isRefused = false)
    (h : (accesses talk).map Answered.request = b.programming ν work i) {addr : Word}
    (haddr : addr ∉ Reg.programmed) : board'.register addr = board.register addr := by
  obtain ⟨⟨hheader, htarget⟩, hsingle⟩ :
      (addr ∉ Reg.block Reg.header ∧ addr ∉ Reg.block Reg.target) ∧
        addr ∉ [Reg.startNonceHi, Reg.startNonceLo, Reg.coreFlags, Reg.coreEnable] := by
    rwa [Reg.programmed, List.mem_append, List.mem_append, not_or, not_or] at haddr
  have ne (a : Word) (ha : a ∈ [Reg.startNonceHi, Reg.startNonceLo, Reg.coreFlags,
      Reg.coreEnable]) : a ≠ addr := fun heq ↦ hsingle (heq ▸ ha)
  rw [register_of_programming answers taken h, puts_write_of_ne (ne _ (by decide)),
    puts_write_of_ne (ne _ (by decide)), puts_write_of_ne (ne _ (by decide)),
    puts_write_of_ne (ne _ (by decide)), puts_hash_of_not_mem (Hash.effective _).length_eq htarget,
    puts_hash_of_not_mem work.header.length_eq hheader]
  rfl

end Registers

/-! ### The seed -/

/-- The seed of an epoch is written, and the board takes it. -/
def seedWritten (ctx : EpochContext) : Answered ν :=
  ⟨.call (.writeBulk ctx.seed.reversed Reg.cacheSeed true), .ok ()⟩

/-- Deriving a light cache writes the seed. -/
theorem seed_of_run {ctx : EpochContext} {parents : Word} {x : Except BoardError Unit}
    (run : Run (b.deriveCache ctx parents) talk x)
    (taken : ∀ said ∈ talk, said.isRefused = false) :
    ∃ before after, talk = before ++ seedWritten ctx :: after := by
  obtain ⟨_, _, rfl, hstart⟩ := (run_ask_iff (r := .note _)).mp run
  obtain ⟨started, _, rfl, hreset⟩ := (run_ask_iff (r := .now)).mp hstart
  obtain ⟨reset, _, _, rfl, -, hparents⟩ :=
    (run_bind_iff (p := tryWrite Reg.cacheReset Reg.cacheControl "cache reset")).mp hreset
  obtain ⟨nodes, _, _, rfl, -, hseed⟩ := run_bind_iff.mp hparents
  obtain ⟨answer, after, rfl, -⟩ :=
    (run_ask_iff (r := .call (.writeBulk ctx.seed.reversed Reg.cacheSeed true))).mp hseed
  cases answer with
  | error fault =>
    have hrefused := taken ⟨.call (.writeBulk ctx.seed.reversed Reg.cacheSeed true), .error fault⟩
      (by simp)
    cases hrefused
  | ok =>
    refine ⟨⟨.note .cacheStarted, ()⟩ :: ⟨.now, started⟩ :: (reset ++ nodes), after, ?_⟩
    rw [List.cons_append, List.cons_append, List.append_assoc]
    rfl

/-- The registers of the seed hold its bytes in reverse order once it is written. -/
theorem blockBytes_of_seedWritten {ctx : EpochContext} {board board' : SimulatedBoard}
    (answers : board.Answers [(seedWritten ctx : Answered ν)] board') :
    board'.blockBytes Reg.cacheSeed = ctx.seed.bytes.reverse := by
  have hlength : ctx.seed.reversed.length = 32 := by
    rw [Hash.reversed, List.length_reverse, ctx.seed.length_eq]
  refine SimulatedBoard.blockBytes_eq hlength fun k hk word hword ↦ ?_
  have plain : ∀ said ∈ [(seedWritten ctx : Answered ν)],
      board.PlainFor (Reg.cacheSeed + 4 * UInt32.ofNat k) said.request :=
    List.forall_mem_singleton.mpr ⟨nofun, nofun, fitsInBulk_hash hlength _⟩
  have taken : ∀ said ∈ [(seedWritten ctx : Answered ν)], said.isRefused = false :=
    List.forall_mem_singleton.mpr rfl
  rw [answers.register_eq plain, contents_eq_overwritten taken]
  change ((.call (.writeBulk ctx.seed.bytes.reverse Reg.cacheSeed true) : Request ν).puts
    (Reg.cacheSeed + 4 * UInt32.ofNat k)).getD _ = word
  rw [puts_hash_block _ _ hk, hword]
  rfl

end Programmed

/-! ### Nothing is lost -/

/-- What is programmed stands in the registers without loss. -/
structure Board.Encodes (ν : Type) (b : Board) : Prop where
  /-- Programming some work comes to its end on every board, and a board without broken writes
  refuses nothing meanwhile, whoever answers the rest. -/
  programs : ∀ work (board : SimulatedBoard) (others : Answering ν), board.brokenWrites = [] →
    ∃ talk x board', Run (b.programWork work) talk x ∧ board.Answers talk board' ∧
      (board.answering others).Gives [] talk ∧ ∀ said ∈ talk, said.isRefused = false
  /-- The work stands in the registers then, at the pacing that the tuning wants, or else at the
  configured one, and no other register is changed. -/
  stands : ∀ work (talk : List (Answered ν)) x (board board' : SimulatedBoard),
    Run (b.programWork work) talk x → board.Answers talk board' →
    (∀ said ∈ talk, said.isRefused = false) →
    x = .ok () ∧ (∃ wanted, ⟨.intensityOverride, wanted⟩ ∈ talk ∧
      board'.Stands b work (wanted.getD b.settings.intensity)) ∧
      ∀ addr ∉ Reg.programmed, board'.register addr = board.register addr
  /-- So does deriving a light cache. -/
  derives : ∀ ctx parents (board : SimulatedBoard) (others : Answering ν),
    board.brokenWrites = [] →
    ∃ talk x board', Run (b.deriveCache ctx parents) talk x ∧ board.Answers talk board' ∧
      (board.answering others).Gives [] talk ∧ ∀ said ∈ talk, said.isRefused = false
  /-- Right after the seed is written its registers hold the seed in reverse byte order. -/
  seeds : ∀ (ctx : EpochContext) parents (talk : List (Answered ν)) x
    (board board' : SimulatedBoard),
    Run (b.deriveCache ctx parents) talk x → board.Answers talk board' →
    (∀ said ∈ talk, said.isRefused = false) →
    ∃ before after between, talk = before ++ Programmed.seedWritten ctx :: after ∧
      board.Answers (before ++ [Programmed.seedWritten ctx]) between ∧
      between.Answers after board' ∧ between.blockBytes Reg.cacheSeed = ctx.seed.bytes.reverse

/-- **The registers encode what is programmed.** -/
theorem registers_encode (ν : Type) (b : Board) : b.Encodes ν where
  programs _ _ others hintact := SimulatedBoard.exists_taken brief_programWork hintact others
  stands := by
    intro work talk x board board' run answers taken
    obtain ⟨hx, wanted, hwanted, hprogramming⟩ := Programmed.programming_of_run run taken
    refine ⟨hx, ⟨wanted, hwanted, ?_⟩, fun addr haddr ↦ ?_⟩
    · exact Programmed.stands_of_programming answers taken hprogramming
    · exact Programmed.register_of_not_programmed answers taken hprogramming haddr
  derives ctx parents _ others hintact :=
    SimulatedBoard.exists_taken (brief_deriveCache ctx parents) hintact others
  seeds := by
    intro ctx parents talk x board board' run answers taken
    obtain ⟨before, after, rfl⟩ := Programmed.seed_of_run run taken
    rw [List.append_cons] at answers
    obtain ⟨between, hseed, hafter⟩ := answers.of_append
    obtain ⟨first, -, hwritten⟩ := hseed.of_append
    refine ⟨before, after, between, rfl, hseed, hafter, ?_⟩
    exact Programmed.blockBytes_of_seedWritten hwritten

/-! ### Work on a healthy board -/

/-- The bytes from 0 to 31. -/
def Programmed.unevenHash : Hash := ⟨(List.range 32).map UInt8.ofNat, rfl⟩

/-- Some work in which no byte is like another. -/
def Programmed.unevenWork : Work :=
  { plainWork with header := unevenHash, startNonce := 0x123456789abcdef0 }

/-- The tuning wants its own pacing, and everybody else has nothing to say. -/
def Programmed.pacedBy (intensity : Intensity) : Answering Rat := fun talk r ↦
  match r with
  | .intensityOverride => some intensity
  | r => Stall.unmoved talk r

/-- A healthy board is programmed with the pacing that the tuning wants, and with a seed. -/
theorem registers_encode_unevenWork :
    (∃ talk, ∃ board' : SimulatedBoard,
      Run (ν := Rat) (plainBoard.programWork Programmed.unevenWork) talk (.ok ()) ∧
      SimulatedBoard.healthy.Answers talk board' ∧
      board'.Stands plainBoard Programmed.unevenWork { numerator := 20, denominator := 40 } ∧
      board'.register Reg.itemCount = SimulatedBoard.healthy.register Reg.itemCount) ∧
    ∃ before, ∃ between : SimulatedBoard,
      SimulatedBoard.healthy.Answers (ν := Rat) before between ∧
      between.blockBytes Reg.cacheSeed = Programmed.unevenHash.bytes.reverse := by
  have encodes := registers_encode Rat plainBoard
  constructor
  · obtain ⟨talk, x, board', run, answers, gives, taken⟩ := encodes.programs Programmed.unevenWork
      .healthy (Programmed.pacedBy { numerator := 20, denominator := 40 }) rfl
    obtain ⟨rfl, ⟨wanted, hwanted, stands⟩, others⟩ :=
      encodes.stands _ talk x .healthy board' run answers taken
    obtain ⟨_, hreply⟩ := gives.reply_eq hwanted
    obtain rfl : wanted = some _ := hreply
    exact ⟨talk, board', run, answers, stands, others _ (by decide)⟩
  · obtain ⟨talk, x, board', run, answers, -, taken⟩ := encodes.derives
      { plainEpoch with seed := Programmed.unevenHash } 16 .healthy Stall.unmoved rfl
    obtain ⟨before, _, between, -, hbefore, -, hseed⟩ :=
      encodes.seeds _ 16 talk x .healthy board' run answers taken
    exact ⟨_, between, hbefore, hseed⟩

end HashBoard
