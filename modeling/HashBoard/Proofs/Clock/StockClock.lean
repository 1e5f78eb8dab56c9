import HashBoard.Proofs.Clock.Arrival
import HashBoard.Proofs.Scene.Rehearsal

/-!
# Keeping the stock clock

A board that is brought up without a configured clock is to return to its stock clock after every
epoch change. What it returns to is computed: each change that is made takes the setting of the
clock one return further, whatever searches, failed changes and guests there are in between. So the
stock divisor is kept if and only if no change was made, or programming the stock clock would leave
the divisor.
-/

namespace HashBoard

open Routine

variable {ν : Type} [Quantity ν]

/-- Bringing a board up, which may be done any number of times. -/
def Board.arrival (endpoint : Endpoint) (index : Nat) (settings : Settings) : Repertoire ν where
  Job := Unit
  Answer _ := Except BoardError Board
  routine _ := bringUp endpoint index settings

/-- The board is faithful about the two words of the clock generator in what was said. -/
def FaithfulClock (vcoWord clkWord : Word) (talk : List (Answered ν)) : Prop :=
  Faithful Reg.pllVco vcoWord talk ∧ Faithful Reg.pllClk0 clkWord talk

instance (vcoWord clkWord : Word) (talk : List (Answered ν)) :
    Decidable (FaithfulClock vcoWord clkWord talk) := inferInstanceAs (Decidable (_ ∧ _))

omit [Quantity ν] in
theorem faithfulClock_append {vcoWord clkWord : Word} {talk talk' : List (Answered ν)} :
    FaithfulClock vcoWord clkWord (talk ++ talk') ↔
      FaithfulClock vcoWord clkWord talk ∧
        FaithfulClock (contents Reg.pllVco vcoWord talk) (contents Reg.pllClk0 clkWord talk)
          talk' := by
  rw [FaithfulClock, faithful_append, faithful_append, and_and_and_comm]
  rfl

omit [Quantity ν] in
theorem FaithfulClock.of_prefix {vcoWord clkWord : Word} {talk talk' : List (Answered ν)}
    (h : FaithfulClock vcoWord clkWord talk) (hpre : talk' <+: talk) :
    FaithfulClock vcoWord clkWord talk' := by
  obtain ⟨rest, rfl⟩ := hpre
  exact (faithfulClock_append.mp h).1

/-- An epoch change ends that was made. -/
def Occurrence.makesChange {b : Board} : Occurrence (b.errands (ν := ν)) → Bool
  | .ends (.prepare _) x => Returning.isMade x
  | _ => false

/-- How many epoch changes were made; one that failed or was skipped was not. -/
def changesMade {b : Board} (es : List (Occurrence (b.errands (ν := ν)))) : Nat :=
  es.countP (·.makesChange)

theorem changesMade_snoc {b : Board} (es : List (Occurrence (b.errands (ν := ν))))
    (e : Occurrence (b.errands (ν := ν))) :
    changesMade (es ++ [e]) = changesMade es + if e.makesChange then 1 else 0 := by
  rw [changesMade, List.countP_append, List.countP_singleton, changesMade]

namespace Returning

open Board

variable {R : Repertoire ν} {vcoWord clkWord : Word} {sh : Shared ν} {made : Nat}
  {es : List (Occurrence R)}

/-! ## The account of a run -/

/-- The account of a run, from what the two words were at first. -/
def view (vcoWord clkWord : Word) (sh : Shared ν) (made : Nat) (es : List (Occurrence R)) :
    Account ν where
  vcoWord := contents Reg.pllVco vcoWord (talkOf es)
  baseline := (sh.afterAll es).memory.clock.baseline
  setting :=
    { clkWord := contents Reg.pllClk0 clkWord (talkOf es)
      target := (sh.afterAll es).memory.clock.target }
  made

omit [Quantity ν] in
theorem view_talks (party : Party) (said : Answered ν) :
    view vcoWord clkWord sh made (es ++ [.talks party said]) =
      (view vcoWord clkWord sh made es).after (sh.afterAll es).memory said := by
  simp only [view, Account.after, talkOf_snoc_talks, contents_snoc, Shared.afterAll_snoc,
    Shared.upon, Shared.memory_after]

omit [Quantity ν] in
theorem view_silent {e : Occurrence R} (he : e.said? = none) :
    view vcoWord clkWord sh made (es ++ [e]) = view vcoWord clkWord sh made es := by
  simp only [view, talkOf_snoc_silent es he, Shared.afterAll_snoc, Shared.upon_silent _ he]

omit [Quantity ν] in
theorem acts_view {r : Request ν} {x : Reply r} (hx : (sh.afterAll es).Permits r x)
    (faithful : FaithfulClock vcoWord clkWord (talkOf (es ++ [.talks .owner ⟨r, x⟩]))) :
    (watch ν).acts (view vcoWord clkWord sh made es) r x
      (view vcoWord clkWord sh made (es ++ [.talks .owner ⟨r, x⟩])) := by
  rw [FaithfulClock, talkOf_snoc_talks, faithful_append, faithful_append] at faithful
  refine ⟨?_, faithful.1.2.1, faithful.2.2.1, _, ⟨rfl, rfl⟩, view_talks _ _⟩
  cases r with
  | memory =>
    obtain rfl : x = _ := hx
    exact ⟨rfl, rfl⟩
  | _ => trivial

/-- Bystanders leave the clock alone. -/
theorem view_others {s₀ s t : Scene R} {e : Occurrence R} (orderly : s₀.Orderly)
    (run : Scene.Runs s₀ es s) (hs : Scene.Step s e t) (he : e.IsOthers) :
    view vcoWord clkWord s₀.shared made (es ++ [e]) = view vcoWord clkWord s₀.shared made es := by
  cases e with
  | begins | ends => exact he.elim
  | arrives n purpose => exact view_silent rfl
  | talks party said =>
    obtain ⟨r, x⟩ := said
    obtain ⟨hmodest, -⟩ := (run.orderly orderly).bystander_asks hs he
    rw [view_talks]
    exact after_of_spares (spares_of_modest hmodest) x ⟨rfl, rfl⟩

/-! ## Bringing up -/

/-- A board that was brought up is to return to its stock clock. -/
theorem arrived_of_runs {endpoint : Endpoint} {index : Nat} {settings : Settings}
    (stock : settings.targetClock = 0) {memory : Memory ν} {feed : Feed}
    {es : List (Occurrence (arrival (ν := ν) endpoint index settings))} {b : Board} {s : Scene _}
    (run : Scene.Runs (.quiet memory feed) (es ++ [.ends () (.ok b)]) s)
    (faithful : FaithfulClock vcoWord clkWord (talkOf es)) {pll : PllReading ν}
    (reads : Pll.decode vcoWord clkWord = some pll) :
    Arrived vcoWord clkWord pll (.ok b) (view vcoWord clkWord { memory, feed } 0 es) := by
  obtain ⟨t, run, last⟩ := run.of_snoc
  have standing : t.Standing (watch ν)
      (fun a ↦ a.vcoWord = vcoWord ∧ a.setting.clkWord = clkWord)
      (fun _ x ↦ Arrived vcoWord clkWord pll x) (view vcoWord clkWord { memory, feed } 0 es) := by
    refine run.upkeep_alone _ (fun _ _ h ↦ h) rfl ⟨rfl, rfl⟩ ?_ ?_ ?_ ?_
    · rintro pre job - ⟨hvco, hclk⟩
      rw [view_silent rfl]
      exact ensures_bringUp endpoint index stock reads hvco hclk
    · rintro pre job x - harrived
      rw [view_silent rfl]
      exact ⟨harrived.vco, harrived.clk⟩
    · intro pre t u r x hr _ hpre hx
      rw [hr.shared_eq] at hx
      exact acts_view hx (FaithfulClock.of_prefix faithful (hpre.filterMap _))
    · intro pre t u e hr hs _ he
      exact view_others (Scene.orderly_quiet memory feed) hr hs he
  cases last with
  | ends howner he => exact (standing.2 _ _ howner).of_ends he

/-! ## Returning -/

/-- The setting of the clock after some changes were made. -/
structure Settled (vcoWord : Word) (setting : Pll.Setting ν) (a : Account ν) : Prop where
  vco : a.vcoWord = vcoWord
  setting : a.setting = (Pll.Setting.returned vcoWord)^[a.made] setting

/-- How the account stands when an errand has ended: a change that was made is yet to be counted. -/
def Done {b : Board} (vcoWord : Word) (setting : Pll.Setting ν) :
    (job : (b.errands (ν := ν)).Job) → b.errands.Answer job → Account ν → Prop
  | .prepare _, x, a => ∃ a' : Account ν, Settled vcoWord setting a' ∧ Ended a' x a
  | .search _, _, a => Settled vcoWord setting a

theorem settled_of_done {b : Board} {setting : Pll.Setting ν} {sh : Shared ν} {n : Nat}
    {es : List (Occurrence (b.errands (ν := ν)))} {job : (b.errands (ν := ν)).Job}
    {x : b.errands.Answer job} (h : Done vcoWord setting job x (view vcoWord clkWord sh n es)) :
    Settled vcoWord setting (view vcoWord clkWord sh
      (n + if (.ends job x : Occurrence (b.errands (ν := ν))).makesChange then 1 else 0) es) := by
  cases job with
  | search work => exact h
  | prepare ctx =>
    obtain ⟨a, ⟨hvco, hset⟩, baseline, hview⟩ := h
    have hmakes : (.ends (.prepare ctx) x : Occurrence (b.errands (ν := ν))).makesChange =
        isMade x := rfl
    have hn : n = a.made := by
      refine (congrArg Account.made hview).trans ?_
      dsimp only
      split <;> rfl
    have hvco' : contents Reg.pllVco vcoWord (talkOf es) = a.vcoWord := by
      refine (congrArg Account.vcoWord hview).trans ?_
      dsimp only
      split <;> rfl
    have hset' := congrArg Account.setting hview
    refine ⟨hvco'.trans hvco, hset'.trans ?_⟩
    rw [hmakes]
    cases isMade x with
    | false =>
      rw [hn]
      exact hset
    | true =>
      simp only [if_true, view, hn, Function.iterate_succ_apply']
      rw [← hset, ← hvco]
      rfl

/-- Whenever nobody has the board, its clock is what the changes that were made have left. -/
theorem settled_of_runs {b : Board} {memory : Memory ν} {feed : Feed}
    {es : List (Occurrence (b.errands (ν := ν)))} {s : Scene (b.errands (ν := ν))}
    (run : Scene.Runs (.quiet memory feed) es s) (nobody : s.owner = none)
    (faithful : FaithfulClock vcoWord clkWord (talkOf es)) :
    Settled vcoWord ⟨clkWord, memory.clock.target⟩
      (view vcoWord clkWord { memory, feed } (changesMade es) es) := by
  have standing : s.Standing (watch ν) (Settled vcoWord ⟨clkWord, memory.clock.target⟩)
      (Done vcoWord ⟨clkWord, memory.clock.target⟩)
      (view vcoWord clkWord { memory, feed } (changesMade es) es) := by
    refine run.upkeep_alone (fun es ↦ view vcoWord clkWord { memory, feed } (changesMade es) es)
      (fun _ _ h ↦ h) rfl ⟨rfl, rfl⟩ ?_ ?_ ?_ ?_
    · rintro pre job - hsettled
      rw [changesMade_snoc, view_silent rfl]
      cases job with
      | prepare ctx => exact (ensures_prepareEpoch b ctx _).mono fun _ _ ht ↦ ⟨_, hsettled, ht⟩
      | search work =>
        refine (ensures_spares (only_search roomToSearch_spares b) _).mono ?_
        rintro - _ rfl
        exact hsettled
    · rintro pre job x - hdone
      rw [changesMade_snoc, view_silent rfl]
      exact settled_of_done hdone
    · intro pre t u r x hr _ hpre hx
      rw [hr.shared_eq] at hx
      rw [changesMade_snoc]
      exact acts_view hx (FaithfulClock.of_prefix faithful (hpre.filterMap _))
    · intro pre t u e hr hs _ he
      have hmade : e.makesChange = false := by
        cases e with
        | ends => exact he.elim
        | _ => rfl
      rw [changesMade_snoc, hmade]
      exact view_others (Scene.orderly_quiet memory feed) hr hs he
  exact standing.1 nobody

/-- The divisor word of a board that was brought up without a configured clock. -/
theorem clkWord_of_changes {endpoint : Endpoint} {index : Nat} {settings : Settings}
    (stock : settings.targetClock = 0) {memory : Memory ν} {feed feed' : Feed} {b : Board}
    {es₀ : List (Occurrence (arrival (ν := ν) endpoint index settings))} {s₀ : Scene _}
    (up : Scene.Runs (.quiet memory feed) (es₀ ++ [.ends () (.ok b)]) s₀)
    {es : List (Occurrence (b.errands (ν := ν)))} {s : Scene _}
    (run : Scene.Runs (.quiet s₀.shared.memory feed') es s) (nobody : s.owner = none)
    (faithful : FaithfulClock vcoWord clkWord (talkOf es₀ ++ talkOf es)) {pll : PllReading ν}
    (reads : Pll.decode vcoWord clkWord = some pll) :
    contents Reg.pllClk0 clkWord (talkOf es₀ ++ talkOf es) =
      ((Pll.Setting.returned vcoWord)^[changesMade es] (pll.stock clkWord)).clkWord := by
  obtain ⟨faithful₀, faithful⟩ := faithfulClock_append.mp faithful
  have arrived := arrived_of_runs stock up faithful₀ reads
  have hvco : contents Reg.pllVco vcoWord (talkOf es₀) = vcoWord := arrived.vco
  have hclk : contents Reg.pllClk0 clkWord (talkOf es₀) = clkWord := arrived.clk
  have hset : Pll.Setting.mk clkWord s₀.shared.memory.clock.target = pll.stock clkWord := by
    have htarget := congrArg Pll.Setting.target (arrived.setting b rfl)
    rw [up.shared_eq, Shared.afterAll_snoc]
    exact congrArg _ htarget
  rw [hvco, hclk] at faithful
  have settled := settled_of_runs run nobody faithful
  rw [contents_append, hclk, ← hset]
  exact congrArg Pll.Setting.clkWord settled.setting

end Returning

/-- **When the stock clock is kept.** A board that was brought up without a configured clock keeps
its stock divisor through any history of epoch changes, searches and guests if and only if no change
was made, or programming the stock clock would leave the divisor. -/
theorem keeps_stock_iff {endpoint : Endpoint} {index : Nat} {settings : Settings}
    (stock : settings.targetClock = 0) {memory : Memory Rat} {feed feed' : Feed} {b : Board}
    {es₀ : List (Occurrence (Board.arrival endpoint index settings))} {s₀ : Scene _}
    (up : Scene.Runs (.quiet memory feed) (es₀ ++ [.ends () (.ok b)]) s₀)
    {es : List (Occurrence (b.errands (ν := Rat)))} {s : Scene _}
    (run : Scene.Runs (.quiet s₀.shared.memory feed') es s) (nobody : s.owner = none)
    {vcoWord clkWord : Word}
    (faithful : FaithfulClock vcoWord clkWord (talkOf es₀ ++ talkOf es)) {pll : PllReading Rat}
    (reads : Pll.decode vcoWord clkWord = some pll) :
    Pll.divisor (contents Reg.pllClk0 clkWord (talkOf es₀ ++ talkOf es)) = pll.divisor ↔
      changesMade es = 0 ∨ pll.IsFixed := by
  rw [Returning.clkWord_of_changes stock up run nobody faithful reads]
  by_cases hmade : changesMade es = 0
  · rw [hmade]
    exact iff_of_true (Pll.decoded reads).divisor.symm (.inl rfl)
  · rw [divisor_returned_iff reads hmade]
    exact (or_iff_right hmade).symm

/-! ### A divisor in tenths -/

namespace Returning

/-- A healthy board that holds a dataset, with a stock divisor of 4.3. -/
def tenths : SimulatedBoard :=
  { SimulatedBoard.healthy with
    registers := (Reg.pllClk0, 0x12c04) :: (Reg.dagStatus, 0x8000_0001) ::
      SimulatedBoard.healthy.registers }

/-- Bringing a board up with the default settings. -/
def arrivals : Repertoire Rat := Board.arrival { host := "", port := 0 } 0 {}

/-- That board is brought up. -/
def arriving : Rehearsal arrivals :=
  .rehearse (.start 0 false) {} tenths [.begins (), .goes .owner 200]

/-- The board as it came up. -/
def raised : Board :=
  match arriving.occurred with
  | .ends () (.ok b) :: _ => b
  | _ => plainBoard

def isUp : Occurrence arrivals → Bool
  | .ends () (.ok _) => true
  | _ => false

/-- It is prepared for the epoch of its dataset. -/
def changing : Rehearsal (raised.errands (ν := Rat)) :=
  .rehearse arriving.scene.shared.memory {} arriving.board
    [.begins (.prepare plainEpoch), .goes .owner 200]

theorem arriving_occurrences :
    arriving.occurrences = arriving.before ++ [.ends () (.ok raised)] := by
  have up : arriving.lastPasses isUp := by decide +kernel
  rw [Rehearsal.lastPasses] at up
  rw [raised, Rehearsal.occurrences, Rehearsal.before]
  cases hoccurred : arriving.occurred with
  | nil =>
    rw [hoccurred] at up
    cases up
  | cons e rest =>
    rw [hoccurred] at up
    have htest : isUp e := up
    unfold isUp at htest
    split at htest
    · exact List.reverse_cons
    · cases htest

theorem arriving_runs : Scene.Runs (R := arrivals) (.quiet (.start 0 false) {})
    (arriving.before ++ [.ends () (.ok raised)]) arriving.scene := by
  rw [← arriving_occurrences]
  exact Rehearsal.rehearse_runs ..

theorem changing_runs : Scene.Runs (.quiet arriving.scene.shared.memory {}) changing.occurrences
    changing.scene := Rehearsal.rehearse_runs ..

theorem changing_ends : changing.scene.owner = none :=
  Option.isNone_iff_eq_none.mp (by decide +kernel)

/-- What was asked and answered in all. -/
def said : List (Answered Rat) := talkOf arriving.before ++ talkOf changing.occurrences

theorem said_answers : tenths.Answers said changing.board := by
  have arrived : tenths.Answers (talkOf arriving.occurrences) arriving.board :=
    Rehearsal.rehearse_answers ..
  have before : talkOf arriving.occurrences = talkOf arriving.before := by
    rw [arriving_occurrences]
    exact talkOf_snoc_ends ..
  exact (before ▸ arrived).append (Rehearsal.rehearse_answers ..)

theorem said_faithful :
    FaithfulClock (tenths.register Reg.pllVco) (tenths.register Reg.pllClk0) said := by
  decide +kernel

/-- The stock reading of that board: 2000 MHz over 4.3. -/
def stockOfTenths : PllReading Rat := ⟨0xa01, 2000, 43 / 10, 2000 / (43 / 10)⟩

theorem decode_tenths : Pll.decode (tenths.register Reg.pllVco) (tenths.register Reg.pllClk0) =
    some stockOfTenths := by
  decide +kernel

end Returning

/-- The equivalence at a stock divisor of 4.3, which is lost with the first change: programming the
stock clock gives 4.375. -/
theorem loses_stock_of_tenths :
    changesMade Returning.changing.occurrences = 1 ∧
      Pll.divisor (contents Reg.pllClk0 (Returning.tenths.register Reg.pllClk0) Returning.said) ≠
        Returning.stockOfTenths.divisor := by
  have made : changesMade Returning.changing.occurrences = 1 := by decide +kernel
  have moves : ¬Returning.stockOfTenths.IsFixed := by decide +kernel
  refine ⟨made, fun kept ↦ ?_⟩
  have either := (keeps_stock_iff rfl Returning.arriving_runs Returning.changing_runs
    Returning.changing_ends Returning.said_faithful Returning.decode_tenths).mp kept
  rcases either with none | fixed
  · rw [made] at none
    cases none
  · exact moves fixed

/-- Not every board without a configured clock stays at its stock clock. -/
theorem stock_not_kept :
    ¬∀ (endpoint : Endpoint) (index : Nat) (settings : Settings) (memory : Memory Rat) (b : Board)
      (board board' : SimulatedBoard)
      (es₀ : List (Occurrence (Board.arrival endpoint index settings))) (s₀ : Scene _)
      (es : List (Occurrence (b.errands (ν := Rat)))) (s : Scene _) (pll : PllReading Rat),
      settings.targetClock = 0 →
      Scene.Runs (.quiet memory {}) (es₀ ++ [.ends () (.ok b)]) s₀ →
      Scene.Runs (.quiet s₀.shared.memory {}) es s → s.owner = none →
      board.Answers (talkOf es₀ ++ talkOf es) board' →
      FaithfulClock (board.register Reg.pllVco) (board.register Reg.pllClk0)
        (talkOf es₀ ++ talkOf es) →
      Pll.decode (board.register Reg.pllVco) (board.register Reg.pllClk0) = some pll →
      Pll.divisor (board'.register Reg.pllClk0) = pll.divisor := by
  intro always
  have kept := always _ _ _ _ _ _ _ _ _ _ _ _ rfl Returning.arriving_runs Returning.changing_runs
    Returning.changing_ends Returning.said_answers Returning.said_faithful Returning.decode_tenths
  exact absurd kept (by decide +kernel)

end HashBoard
