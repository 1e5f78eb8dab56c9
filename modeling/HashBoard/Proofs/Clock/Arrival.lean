import HashBoard.Proofs.Board.Arrival
import HashBoard.Proofs.Clock.Returning

/-!
# The clock of a board that is brought up

Bringing a board up resets its clock and reads the stock clock. With no configured clock that is the
clock to return to.
-/

namespace HashBoard

open Routine Board

variable {ν α : Type} [Quantity ν]

namespace Returning

/-- The two words are what they were, and a board that came up is to return to its stock clock. -/
structure Arrived (vcoWord clkWord : Word) (pll : PllReading ν) (x : Except BoardError Board)
    (s : Account ν) : Prop where
  vco : s.vcoWord = vcoWord
  clk : s.setting.clkWord = clkWord
  setting : ∀ b, x = .ok b → s.setting = pll.stock clkWord

variable {s : Account ν}

theorem ensures_connect (endpoint : Endpoint) (index : Nat) (settings : Settings) (s : Account ν) :
    (connect endpoint index settings : Routine ν _).Ensures (watch ν)
      (fun x t ↦ (∀ b, x = .ok b → b.settings = settings) ∧ t.vcoWord = s.vcoWord ∧
        t.setting.clkWord = s.setting.clkWord) s := by
  have quiet : ∀ r : Request ν, r.isQuiet → Spares r := fun _ ↦ spares_of_isQuiet
  have attempts {c : Routine ν (Except LinkFault Unit)} (h : c.Only Spares)
      {failed : LinkFault → Event ν} : (attempt c failed).Only Spares :=
    only_attempt h fun _ ↦ spares_note _
  refine (ensures_spares (only_request (r := .connect endpoint) ?_) s).seq ?_
  · exact ⟨id, id, fun _ ↦ ⟨rfl, rfl⟩⟩
  rintro (fault | -) _ rfl
  · refine ⟨?_, rfl, rfl⟩
    rintro b ⟨⟩
  · refine (ensures_note _ _).seq ?_
    rintro - _ rfl
    refine (ensures_spares (attempts (only_request ⟨id, id, fun _ ↦ ⟨rfl, rfl⟩⟩)) _).seq ?_
    rintro - _ rfl
    refine (ensures_spares (attempts (only_request ⟨id, id, fun _ ↦ ⟨rfl, rfl⟩⟩)) _).seq ?_
    rintro - _ rfl
    refine (ensures_spares (only_readIdentity quiet) _).seq ?_
    rintro identity _ rfl
    refine (ensures_spares (only_request (quiet .now rfl)) _).seq ?_
    rintro now t rfl
    refine (ensures_request _ t).seq ?_
    rintro - _ ⟨-, -, -, m, -, rfl⟩
    refine ⟨?_, rfl, rfl⟩
    rintro _ ⟨⟩
    rfl

/-- Without a configured clock the stock clock is the one to return to. -/
theorem ensures_chooseTarget (b : Board) (h : b.settings.targetClock = 0) (s : Account ν) :
    (b.chooseTarget : Routine ν _).Ensures (watch ν)
      (fun _ t ↦ t = { s with setting := { s.setting with target := s.baseline } }) s := by
  refine (ensures_memory s).seq ?_
  rintro m t ⟨hm, rfl⟩
  refine (ensures_note _ t).seq ?_
  rintro - s rfl
  rw [if_pos h]
  refine (ensures_reviseClock _ s).mono ?_
  rintro - _ ⟨c, hc, rfl⟩
  simp only [hc.1, hm.1]

theorem ensures_configure (b : Board) (h : b.settings.targetClock = 0) {pll : PllReading ν}
    (hpll : Pll.decode s.vcoWord s.setting.clkWord = some pll) :
    (b.configure : Routine ν _).Ensures (watch ν)
      (fun _ t ↦ t.vcoWord = s.vcoWord ∧ t.setting = pll.stock s.setting.clkWord) s := by
  have quiet : ∀ r : Request ν, r.isQuiet → Spares r := fun _ ↦ spares_of_isQuiet
  have regulators : ∀ value, ∀ addr ∈ Reg.regulators,
      Spares (.call (.write value addr) : Request ν) := by
    intro value addr h
    refine spares_write ?_ ?_
    · rintro rfl
      exact absurd h (by decide)
    · rintro rfl
      exact absurd h (by decide)
  have tunes : (b.loadTune : Routine ν _).Only Spares :=
    only_loadTune quiet b (spares_revise fun _ ↦ ⟨rfl, rfl⟩)
  refine (ensures_note _ s).seq ?_
  rintro - _ rfl
  refine (ensures_spares (only_request spares_acquire) _).seq ?_
  rintro - _ rfl
  refine (ensures_spares (only_setVoltage quiet regulators _ _ _) _).seq ?_
  rintro - _ rfl
  refine (ensures_setClock_stock _).seq ?_
  rintro - _ rfl
  refine (ensures_chooseTarget b h _).seq ?_
  rintro - _ rfl
  refine (ensures_spares tunes _).seq ?_
  rintro - _ rfl
  refine (ensures_spares (only_request spares_release) _).seq ?_
  rintro - _ rfl
  refine (ensures_note _ _).mono ?_
  rintro - _ rfl
  simp only [hpll, true_and]
  rfl

theorem ensures_bringUp (endpoint : Endpoint) (index : Nat) {settings : Settings}
    (h : settings.targetClock = 0) {vcoWord clkWord : Word} {pll : PllReading ν}
    (hpll : Pll.decode vcoWord clkWord = some pll) (hvco : s.vcoWord = vcoWord)
    (hclk : s.setting.clkWord = clkWord) :
    (bringUp endpoint index settings : Routine ν _).Ensures (watch ν)
      (Arrived vcoWord clkWord pll) s := by
  subst hvco hclk
  refine (ensures_connect endpoint index settings s).seq ?_
  rintro (e | b) t ⟨hsettings, hvco, hclk⟩
  · refine ⟨hvco, hclk, ?_⟩
    rintro b ⟨⟩
  · rw [← hvco, ← hclk] at hpll ⊢
    refine (ensures_configure b (hsettings b rfl ▸ h) hpll).seq ?_
    rintro - u ⟨hvco', hset⟩
    exact ⟨hvco', by rw [hset]; rfl, fun _ _ ↦ hset⟩

end Returning

end HashBoard
