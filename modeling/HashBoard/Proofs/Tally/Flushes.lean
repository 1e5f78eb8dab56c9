import Mathlib.Algebra.GroupWithZero.Nat
import Mathlib.Data.List.DropRight
import HashBoard.Proofs.Tally.Averages

/-!
# What an averager makes of its entries

An averager keeps a counter, the time of its last flush and two windows. All of that is told by its
log, the entries with what recording each of them was answered: an entry that was answered is a
flush. The counter is what was recorded since the last flush, and the windows are the ends of one
history, the plausible rates of all flushes. `Keeps` is the invariant; one entry keeps it, and so
does any number of them, whatever their times are.
-/

namespace HashBoard

variable {ν : Type} [Quantity ν]

namespace Averager

/-- Entries with what recording each of them is answered. -/
def log (a : Averager ν) : List (Recorded ν) → List (Recorded ν × Option (Averages ν))
  | [] => []
  | e :: rest =>
    (e, (a.record e.delta e.time e.errorRate).2) ::
      (a.record e.delta e.time e.errorRate).1.log rest

theorem log_snoc (a : Averager ν) (entries : List (Recorded ν)) (e : Recorded ν) :
    a.log (entries ++ [e]) =
      a.log entries ++ [(e, ((a.recordAll entries).record e.delta e.time e.errorRate).2)] := by
  induction entries generalizing a with
  | nil => rfl
  | cons first rest ih =>
    rw [List.cons_append, log, ih, log, List.cons_append]
    rfl

/-! ## What a log tells -/

/-- When the last flush was; without one, when the averager was created. -/
def flushedAt (start : Micros) (log : List (Recorded ν × Option (Averages ν))) : Micros :=
  ((log.filter (·.2.isSome)).getLast?.map (·.1.time)).getD start

/-- The deltas since the last flush. -/
def pending (log : List (Recorded ν × Option (Averages ν))) : List UInt64 :=
  (log.rtakeWhile (·.2.isNone)).map (·.1.delta)

/-- The averages of all flushes. -/
def flushes (log : List (Recorded ν × Option (Averages ν))) : List (Averages ν) :=
  log.filterMap Prod.snd

/-- The plausible one-minute rates of all flushes: those strictly between 10 and 100 MH/s. -/
def history (log : List (Recorded ν × Option (Averages ν))) : List ν :=
  ((flushes log).map Averages.oneMinute).filter fun rate ↦
    Quantity.lt (Quantity.ofNat 10) rate && Quantity.lt rate (Quantity.ofNat 100)

/-- The sum of some counts, or the greatest count. -/
def total (deltas : List UInt64) : UInt64 :=
  UInt64.ofNat (min (deltas.map UInt64.toNat).sum (UInt64.size - 1))

section Telling

variable {start : Micros} {log : List (Recorded ν × Option (Averages ν))} {e : Recorded ν}
  {x : Averages ν}

omit [Quantity ν]

theorem flushedAt_snoc_none : flushedAt start (log ++ [(e, none)]) = flushedAt start log := by
  simp [flushedAt]

theorem flushedAt_snoc_some : flushedAt start (log ++ [(e, some x)]) = e.time := by
  simp [flushedAt]

theorem pending_snoc_none : pending (log ++ [(e, none)]) = pending log ++ [e.delta] := by
  rw [pending, List.rtakeWhile_concat_pos _ _ _ rfl, List.map_append]
  rfl

theorem pending_snoc_some : pending (log ++ [(e, some x)]) = [] := by
  rw [pending, List.rtakeWhile_concat_neg _ _ _ Bool.false_ne_true]
  rfl

theorem flushes_snoc_none : flushes (log ++ [(e, none)]) = flushes log := by
  rw [flushes, List.filterMap_append]
  exact List.append_nil _

theorem flushes_snoc_some : flushes (log ++ [(e, some x)]) = flushes log ++ [x] :=
  List.filterMap_append

end Telling

theorem history_snoc_some (log : List (Recorded ν × Option (Averages ν))) (e : Recorded ν)
    (x : Averages ν) : history (log ++ [(e, some x)]) =
      history log ++ if isPlausible x.oneMinute then [x.oneMinute] else [] := by
  rw [history, flushes_snoc_some, List.map_append, List.filter_append]
  congr 1
  exact List.filter_cons

/-! ## Counting and averaging -/

/-- Adding one by one and adding up come to the same, be it the greatest count. -/
theorem addSaturating_total (deltas : List UInt64) (delta : UInt64) :
    addSaturating (total deltas) delta = total (deltas ++ [delta]) := by
  have hsize : UInt64.size = 18446744073709551616 := rfl
  have hdelta := delta.toNat_lt
  have htotal (sum : Nat) :
      (UInt64.ofNat (min sum (UInt64.size - 1))).toNat = min sum (UInt64.size - 1) :=
    UInt64.toNat_ofNat_of_lt' (by omega)
  have hmax : (0xffff_ffff_ffff_ffff : UInt64).toNat = UInt64.size - 1 := rfl
  rw [← UInt64.toNat_inj, total, total, htotal, List.map_append, List.sum_append, addSaturating,
    htotal]
  split
  · rename_i hfits
    rw [UInt64.toNat_add, htotal]
    simp only [List.map_cons, List.map_nil, List.sum_cons, List.sum_nil]
    omega
  · rw [hmax]
    simp only [List.map_cons, List.map_nil, List.sum_cons, List.sum_nil]
    omega

/-- A time before the last flush is within a minute of it, as is one less than a minute after it. -/
theorem sub_lt_flushInterval_iff (now last : Nat) :
    now - last < flushInterval ↔ now < last + 60_000_000 := by
  have hinterval : flushInterval = (60_000_000 : Nat) := rfl
  rw [hinterval]
  omega

omit [Quantity ν] in
/-- What joins a window of the end of a list joins the list. -/
theorem join_rtake (size : Nat) (rates : List ν) (rate : ν) :
    join size (rates.rtake size) rate = (rates ++ [rate]).rtake size := by
  rw [join, List.rtake, ← List.drop_append_of_le_length (Nat.sub_le _ _), List.drop_drop,
    List.rtake, List.length_drop, List.length_append, List.length_singleton]
  congr 1
  omega

/-- A rate joins the windows of a history as it joins the history. -/
theorem rtake_history (size : Nat) (log : List (Recorded ν × Option (Averages ν)))
    (e : Recorded ν) (x : Averages ν) : (history (log ++ [(e, some x)])).rtake size =
      if isPlausible x.oneMinute then join size ((history log).rtake size) x.oneMinute
      else (history log).rtake size := by
  rw [history_snoc_some]
  split
  · exact (join_rtake ..).symm
  · rw [List.append_nil]

/-- The mean of some rates: what they add up to, over their number; zero where there are none. -/
structure IsMean (rates : List ν) (x : ν) : Prop where
  empty : rates = [] → x = Quantity.ofNat 0
  others : rates ≠ [] → x = rates.foldl (· + ·) (Quantity.ofNat 0) / Quantity.ofNat rates.length

theorem isMean_mean (rates : List ν) : IsMean rates (mean rates) := by
  cases rates with
  | nil => exact ⟨fun _ ↦ rfl, fun h ↦ absurd rfl h⟩
  | cons rate rates => exact ⟨nofun, fun _ ↦ rfl⟩

/-! ## The invariant -/

/-- An averager keeps what a log tells. -/
structure Keeps (start : Micros) (log : List (Recorded ν × Option (Averages ν)))
    (a : Averager ν) : Prop where
  counter : a.counter = total (pending log)
  lastFlush : a.lastFlush = flushedAt start log
  short : a.short = (history log).rtake 10
  long : a.long = (history log).rtake 60
  latest : a.latest = (flushes log).getLast?.getD
    ⟨Quantity.ofNat 0, Quantity.ofNat 0, Quantity.ofNat 0, Quantity.ofNat 0⟩
  tenMinutes : IsMean a.short a.latest.tenMinutes
  sixtyMinutes : IsMean a.long a.latest.sixtyMinutes

/-- The averages of a flush: the rate in MH/s of all that was recorded since the flush before, and
the means of the last plausible rates, with this one among them. -/
structure IsFlush (log : List (Recorded ν × Option (Averages ν))) (e : Recorded ν)
    (x : Averages ν) : Prop where
  oneMinute : x.oneMinute =
    Quantity.ofNat (total (pending log ++ [e.delta])).toNat / Quantity.ofNat 60 /
      Quantity.ofNat 1_000_000
  tenMinutes : IsMean ((history (log ++ [(e, some x)])).rtake 10) x.tenMinutes
  sixtyMinutes : IsMean ((history (log ++ [(e, some x)])).rtake 60) x.sixtyMinutes
  errorPercent : x.errorPercent = e.errorRate * Quantity.ofNat 100

theorem keeps_start (start : Micros) : (Averager.start start : Averager ν).Keeps start [] :=
  ⟨rfl, rfl, rfl, rfl, rfl, isMean_mean [], isMean_mean []⟩

variable {start : Micros} {log : List (Recorded ν × Option (Averages ν))} {a : Averager ν}

/-- An entry within a minute of the last flush is only counted. -/
theorem Keeps.record_early (h : a.Keeps start log) {e : Recorded ν}
    (early : e.time < flushedAt start log + 60_000_000) :
    (a.record e.delta e.time e.errorRate).2 = none ∧
      (a.record e.delta e.time e.errorRate).1.Keeps start (log ++ [(e, none)]) := by
  have hsoon : e.time - a.lastFlush < flushInterval := by
    rw [h.lastFlush, sub_lt_flushInterval_iff]
    exact early
  rw [record, if_pos hsoon]
  refine ⟨rfl, ?_, ?_, ?_, ?_, ?_, h.tenMinutes, h.sixtyMinutes⟩
  · rw [pending_snoc_none, ← addSaturating_total, ← h.counter]
  · rw [flushedAt_snoc_none, ← h.lastFlush]
  · rw [history, flushes_snoc_none]
    exact h.short
  · rw [history, flushes_snoc_none]
    exact h.long
  · rw [flushes_snoc_none]
    exact h.latest

/-- A later one makes a flush. -/
theorem Keeps.record_due (h : a.Keeps start log) {e : Recorded ν}
    (due : flushedAt start log + 60_000_000 ≤ e.time) :
    ∃ x, (a.record e.delta e.time e.errorRate).2 = some x ∧ IsFlush log e x ∧
      (a.record e.delta e.time e.errorRate).1.Keeps start (log ++ [(e, some x)]) := by
  have hlate : ¬e.time - a.lastFlush < flushInterval := by
    rw [h.lastFlush, sub_lt_flushInterval_iff]
    exact Nat.not_lt.mpr due
  -- both windows are the end of one history, and a new rate joins them as it joins the history
  have hwindow (size : Nat) (x : Averages ν)
      (hx : x.oneMinute = rate (addSaturating a.counter e.delta)) :
      (if isPlausible (rate (addSaturating a.counter e.delta) : ν) then
          join size ((history log).rtake size) (rate (addSaturating a.counter e.delta))
        else (history log).rtake size) = (history (log ++ [(e, some x)])).rtake size := by
    rw [rtake_history, hx]
  rw [record, if_neg hlate]
  dsimp only [shortWindow, longWindow]
  rw [h.short, h.long]
  refine ⟨_, rfl, ⟨?_, ?_, ?_, rfl⟩, ?_, ?_, ?_, ?_, ?_, isMean_mean _, isMean_mean _⟩
  · rw [h.counter, addSaturating_total, rate]
  · rw [← hwindow 10 _ rfl]
    exact isMean_mean _
  · rw [← hwindow 60 _ rfl]
    exact isMean_mean _
  · rw [pending_snoc_some]
    rfl
  · exact flushedAt_snoc_some.symm
  · exact hwindow 10 _ rfl
  · exact hwindow 60 _ rfl
  · rw [flushes_snoc_some, List.getLast?_concat]
    rfl

/-- However many entries there are, the averager keeps what its log tells. -/
theorem keeps_recordAll (start : Micros) (entries : List (Recorded ν)) :
    ((Averager.start start).recordAll entries).Keeps start
      ((Averager.start start).log entries) := by
  induction entries using List.reverseRecOn with
  | nil => exact keeps_start start
  | append_singleton entries e ih =>
    rw [log_snoc, recordAll_snoc]
    rcases Nat.lt_or_ge e.time (flushedAt start ((Averager.start start).log entries) + 60_000_000)
      with early | due
    · obtain ⟨hnone, hkeeps⟩ := ih.record_early early
      rw [hnone]
      exact hkeeps
    · obtain ⟨x, hsome, -, hkeeps⟩ := ih.record_due due
      rw [hsome]
      exact hkeeps

end Averager

open Averager

/-- **What an averager makes of its entries.** After any entries at any times the averager keeps
what its log tells: its short window is the end of its long one, and the means of windows that are
empty are zero. The next entry is answered exactly if it comes a minute after the last flush or
later, with the averages of a flush. -/
theorem averager_counts (start : Micros) (entries : List (Recorded ν)) (e : Recorded ν) :
    let log := (Averager.start start).log entries
    let a := (Averager.start start).recordAll entries
    a.Keeps start log ∧ a.short <:+ a.long ∧
      (a.short = [] → a.latest.tenMinutes = Quantity.ofNat 0) ∧
      (a.long = [] → a.latest.sixtyMinutes = Quantity.ofNat 0) ∧
      ((a.record e.delta e.time e.errorRate).2.isSome ↔
        flushedAt start log + 60_000_000 ≤ e.time) ∧
      ∀ x, (a.record e.delta e.time e.errorRate).2 = some x → IsFlush log e x := by
  intro log a
  have keeps : a.Keeps start log := keeps_recordAll start entries
  refine ⟨keeps, ?_, keeps.tenMinutes.empty, keeps.sixtyMinutes.empty, ?_⟩
  · rw [keeps.short, keeps.long]
    exact List.drop_suffix_drop_left _ (Nat.sub_le_sub_left (by decide) _)
  · rcases Nat.lt_or_ge e.time (flushedAt start log + 60_000_000) with early | due
    · rw [(keeps.record_early early).1]
      exact ⟨iff_of_false nofun (Nat.not_le.mpr early), nofun⟩
    · obtain ⟨x, hsome, hflush, -⟩ := keeps.record_due due
      rw [hsome]
      refine ⟨iff_of_true rfl due, ?_⟩
      rintro _ ⟨⟩
      exact hflush

end HashBoard
