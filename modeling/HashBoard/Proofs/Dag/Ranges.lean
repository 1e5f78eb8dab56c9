import HashBoard.Dag.Layout
import HashBoard.Proofs.Dag.Sizes

/-!
# The numbers cut into ranges

The ranges of the mixers tile the numbers below the count that is cut: each begins where the one
before ends. A tiling holds every number between its ends exactly once, so what is left to say about
the cut is how wide its ranges are.

The cut is computed in plain numbers, while a board does it in 64 bits with a position that moves
from range to range. `partition?` takes the same steps in words, and gives nothing as soon as a sum
or a product has no result there or goes beyond the count.
-/

namespace HashBoard.Dag

/-! ### Tilings -/

/-- Ranges that lead from one number to another, each beginning where the one before ends. -/
def Tiles : (lo : Nat) → List (Nat × Nat) → (hi : Nat) → Prop
  | lo, [], hi => lo = hi
  | lo, (start, stop) :: rest, hi => start = lo ∧ start ≤ stop ∧ Tiles stop rest hi

section Tilings

variable {lo hi : Nat} {ranges : List (Nat × Nat)}

theorem Tiles.le (h : Tiles lo ranges hi) : lo ≤ hi := by
  induction ranges generalizing lo with
  | nil => exact Nat.le_of_eq h
  | cons range rest ih =>
    obtain ⟨rfl, hle, hrest⟩ := h
    exact Nat.le_trans hle (ih hrest)

/-- No range goes beyond the end of the tiling. -/
theorem Tiles.le_of_mem (h : Tiles lo ranges hi) :
    ∀ range ∈ ranges, range.1 ≤ hi ∧ range.2 ≤ hi := by
  induction ranges generalizing lo with
  | nil => nofun
  | cons range rest ih =>
    obtain ⟨rfl, hle, hrest⟩ := h
    exact List.forall_mem_cons.mpr ⟨⟨Nat.le_trans hle hrest.le, hrest.le⟩, ih hrest⟩

theorem Tiles.head?_eq (h : Tiles lo ranges hi) (ne : ranges ≠ []) :
    ranges.head?.map Prod.fst = some lo := by
  obtain ⟨range, rest, rfl⟩ := List.exists_cons_of_ne_nil ne
  obtain ⟨rfl, -, -⟩ := h
  rfl

theorem Tiles.isChain (h : Tiles lo ranges hi) :
    ranges.IsChain fun range next ↦ range.2 = next.1 := by
  induction ranges generalizing lo with
  | nil => exact .nil
  | cons range rest ih =>
    obtain ⟨rfl, -, hrest⟩ := h
    cases rest with
    | nil => exact .singleton _
    | cons next rest => exact List.isChain_cons_cons.mpr ⟨hrest.1.symm, ih hrest⟩

theorem Tiles.getLast?_eq (h : Tiles lo ranges hi) (ne : ranges ≠ []) :
    ranges.getLast?.map Prod.snd = some hi := by
  induction ranges generalizing lo with
  | nil => exact absurd rfl ne
  | cons range rest ih =>
    obtain ⟨rfl, hle, hrest⟩ := h
    by_cases hnil : rest = []
    · subst hnil
      exact congrArg some hrest
    · rw [List.getLast?_cons_of_ne_nil hnil]
      exact ih hrest hnil

/-- Between its ends a tiling holds every number once, and beyond them none. -/
theorem Tiles.countP_eq (h : Tiles lo ranges hi) (k : Nat) :
    ranges.countP (fun range ↦ range.1 ≤ k ∧ k < range.2) = if lo ≤ k ∧ k < hi then 1 else 0 := by
  induction ranges generalizing lo with
  | nil =>
    have : lo = hi := h
    rw [List.countP_nil, if_neg (by omega)]
  | cons range rest ih =>
    obtain ⟨rfl, hle, hrest⟩ := h
    have := hrest.le
    simp only [List.countP_cons, ih hrest, decide_eq_true_eq]
    split_ifs <;> omega

end Tilings

theorem length_evenRanges (step n start : Nat) : (evenRanges step n start).length = n := by
  induction n generalizing start with
  | zero => rfl
  | succ n ih => simp [evenRanges, ih]

theorem width_of_mem_evenRanges {step n start : Nat} :
    ∀ range ∈ evenRanges step n start, range.2 = range.1 + step := by
  induction n generalizing start with
  | zero => nofun
  | succ n ih => exact List.forall_mem_cons.mpr ⟨rfl, ih⟩

theorem tiles_evenRanges (step n start : Nat) :
    Tiles start (evenRanges step n start) (start + step * n) := by
  induction n generalizing start with
  | zero => rfl
  | succ n ih =>
    refine ⟨rfl, Nat.le_add_right .., ?_⟩
    rw [Nat.mul_succ, ← Nat.add_assoc, Nat.add_right_comm]
    exact ih (start + step)

/-! ### The cut -/

theorem length_partition (items mixers : Nat) : (partition items mixers).length = max mixers 1 := by
  simp only [partition, List.length_cons, length_evenRanges]
  have : 1 ≤ max mixers 1 := Nat.le_max_right ..
  omega

theorem partition_eq (items mixers : Nat) :
    partition items mixers =
      (0, items / max mixers 1 + items % max mixers 1) ::
        evenRanges (items / max mixers 1) (max mixers 1 - 1)
          (items / max mixers 1 + items % max mixers 1) := by
  rw [partition, Nat.mod_eq_sub_div_mul]

/-- The ranges of the mixers tile the nodes. -/
theorem tiles_partition (items mixers : Nat) : Tiles 0 (partition items mixers) items := by
  rw [partition_eq]
  have hpos : 1 ≤ max mixers 1 := Nat.le_max_right ..
  generalize max mixers 1 = n at hpos
  obtain ⟨n, rfl⟩ := Nat.exists_eq_add_of_le' hpos
  have hend : items / (n + 1) + items % (n + 1) + items / (n + 1) * n = items := by
    have := Nat.div_add_mod' items (n + 1)
    rw [Nat.mul_succ] at this
    omega
  refine ⟨rfl, Nat.zero_le _, ?_⟩
  have htiles := tiles_evenRanges (items / (n + 1)) n (items / (n + 1) + items % (n + 1))
  rwa [hend] at htiles

/-- Neighbouring ranges that hold each number below `items` once, all equally wide but for the
first, which is wider by what does not divide evenly. -/
structure Shares (items count : Nat) (ranges : List (Nat × Nat)) : Prop where
  length_eq : ranges.length = count
  head?_eq : ranges.head?.map Prod.fst = some 0
  getLast?_eq : ranges.getLast?.map Prod.snd = some items
  isChain : ranges.IsChain fun range next ↦ range.2 = next.1
  widths : ∃ first rest, ranges = first :: rest ∧
    first.2 = first.1 + (items / count + items % count) ∧
    ∀ range ∈ rest, range.2 = range.1 + items / count
  once : ∀ k < items, ranges.countP (fun range ↦ range.1 ≤ k ∧ k < range.2) = 1
  beyond : ∀ k, items ≤ k → ranges.countP (fun range ↦ range.1 ≤ k ∧ k < range.2) = 0

theorem shares_partition (items mixers : Nat) :
    Shares items (max mixers 1) (partition items mixers) := by
  have tiles := tiles_partition items mixers
  have ne : partition items mixers ≠ [] := by
    rw [partition_eq]
    exact List.cons_ne_nil _ _
  refine ⟨length_partition items mixers, tiles.head?_eq ne, tiles.getLast?_eq ne, tiles.isChain,
    ?_, ?_, ?_⟩
  · exact ⟨_, _, partition_eq items mixers, (Nat.zero_add _).symm, width_of_mem_evenRanges⟩
  · intro k hk
    rw [tiles.countP_eq, if_pos ⟨Nat.zero_le k, hk⟩]
  · intro k hk
    rw [tiles.countP_eq, if_neg fun within ↦ Nat.not_lt.mpr hk within.2]

example : partition 5 3 = [(0, 3), (3, 4), (4, 5)] := by decide

/-! ### In 64-bit words -/

/-- A word that is there and does not go beyond a limit. -/
def upTo? (limit : UInt64) (word : Option UInt64) : Option UInt64 :=
  word.filter (· ≤ limit)

/-- The ranges from the `i`-th one on, in words. The first range takes in what is left over. -/
def rangesFrom? (limit share leftover : UInt64) :
    (i count : Nat) → (pos : UInt64) → Option (List (UInt64 × UInt64))
  | _, 0, _ => some []
  | i, count + 1, pos => do
    let stop ← upTo? limit (plus? pos share)
    let stop ← if i = 0 then upTo? limit (plus? stop leftover) else some stop
    let rest ← rangesFrom? limit share leftover (i + 1) count stop
    return (pos, stop) :: rest

/-- The cut of `partition`, in words. No sum and no product may go beyond the items. -/
def partition? (items : UInt64) (mixers : Word) : Option (List (UInt64 × UInt64)) := do
  let mixers := (max mixers 1).toUInt64
  let (share, _) ← divide? items mixers
  let taken ← upTo? items (times? share mixers)
  let leftover ← minus? items taken
  rangesFrom? items share leftover 0 mixers.toNat 0

section Words

variable (limit : UInt64) {a b : UInt64}

theorem upTo?_of_le {c : UInt64} (h : c.toNat ≤ limit.toNat) : upTo? limit (some c) = some c := by
  simp [upTo?, UInt64.le_iff_toNat_le.mpr h]

theorem upTo?_plus (h : a.toNat + b.toNat ≤ limit.toNat) :
    ∃ c, upTo? limit (plus? a b) = some c ∧ c.toNat = a.toNat + b.toNat := by
  have := limit.toNat_lt
  obtain ⟨c, hc⟩ : ∃ c, plus? a b = some c := by
    rw [← Option.ne_none_iff_exists', ne_eq, plus?_eq_none_iff]
    omega
  have value := toNat_of_plus? hc
  exact ⟨c, by rw [hc, upTo?_of_le limit (by omega)], value⟩

theorem upTo?_times (h : a.toNat * b.toNat ≤ limit.toNat) :
    ∃ c, upTo? limit (times? a b) = some c ∧ c.toNat = a.toNat * b.toNat := by
  have := limit.toNat_lt
  obtain ⟨c, hc⟩ : ∃ c, times? a b = some c := by
    rw [← Option.ne_none_iff_exists', ne_eq, times?_eq_none_iff]
    omega
  have value := toNat_of_times? hc
  exact ⟨c, by rw [hc, upTo?_of_le limit (by omega)], value⟩

end Words

/-- After the first range the position only moves by the even share. -/
theorem rangesFrom?_even {limit share leftover pos : UInt64} {i count : Nat}
    (h : pos.toNat + share.toNat * count ≤ limit.toNat) :
    ∃ ranges, rangesFrom? limit share leftover (i + 1) count pos = some ranges ∧
      ranges.map (Prod.map UInt64.toNat UInt64.toNat) = evenRanges share.toNat count pos.toNat := by
  induction count generalizing i pos with
  | zero => exact ⟨[], rfl, rfl⟩
  | succ count ih =>
    rw [Nat.mul_succ] at h
    obtain ⟨stop, hstop, stop_eq⟩ := upTo?_plus limit (a := pos) (b := share) (by omega)
    obtain ⟨rest, hrest, rest_eq⟩ := @ih stop (i + 1) (by omega)
    refine ⟨(pos, stop) :: rest, ?_, ?_⟩
    · simp only [rangesFrom?, hstop, hrest, Nat.add_one_ne_zero, ↓reduceIte, Option.bind_eq_bind,
        Option.bind_some, Option.pure_def]
    · rw [List.map_cons, rest_eq, evenRanges, ← stop_eq]
      rfl

/-- The first range also takes in what is left over. -/
theorem rangesFrom?_first {limit share leftover : UInt64} {count : Nat}
    (h : share.toNat * (count + 1) + leftover.toNat ≤ limit.toNat) :
    ∃ ranges, rangesFrom? limit share leftover 0 (count + 1) 0 = some ranges ∧
      ranges.map (Prod.map UInt64.toNat UInt64.toNat) =
        (0, share.toNat + leftover.toNat) ::
          evenRanges share.toNat count (share.toNat + leftover.toNat) := by
  rw [Nat.mul_succ] at h
  have zero : (0 : UInt64).toNat = 0 := rfl
  obtain ⟨even, heven, even_eq⟩ := upTo?_plus limit (a := 0) (b := share) (by omega)
  obtain ⟨stop, hstop, stop_eq⟩ :=
    upTo?_plus limit (a := even) (b := leftover) (by omega)
  rw [even_eq, zero, Nat.zero_add] at stop_eq
  obtain ⟨rest, hrest, rest_eq⟩ := @rangesFrom?_even limit share leftover stop 0 count (by omega)
  refine ⟨(0, stop) :: rest, ?_, ?_⟩
  · simp only [rangesFrom?, heven, hstop, hrest, ↓reduceIte, Option.bind_eq_bind, Option.bind_some,
      Option.pure_def]
  · rw [List.map_cons, rest_eq, ← stop_eq]
    rfl

theorem partition?_eq (items : UInt64) (mixers : Word) :
    ∃ ranges, partition? items mixers = some ranges ∧
      ranges.map (Prod.map UInt64.toNat UInt64.toNat) = partition items.toNat mixers.toNat := by
  have pos : 1 ≤ max mixers.toNat 1 := Nat.le_max_right ..
  have count : (max mixers 1).toUInt64.toNat = max mixers.toNat 1 := by
    rw [UInt32.toNat_toUInt64, UInt32.toNat_max]
    rfl
  have ne : (max mixers 1).toUInt64 ≠ 0 := by
    rw [ne_eq, ← UInt64.toNat_inj, count]
    exact Nat.ne_of_gt pos
  obtain ⟨⟨share, rest⟩, divided⟩ :
      ∃ parts, divide? items (max mixers 1).toUInt64 = some parts := by
    rwa [← Option.ne_none_iff_exists', ne_eq, divide?_eq_none_iff]
  have share_eq : share.toNat = items.toNat / max mixers.toNat 1 := by
    rw [(divide?_eq_some_iff.mp divided).2.1, UInt64.toNat_div, count]
  have cut := Nat.div_add_mod' items.toNat (max mixers.toNat 1)
  obtain ⟨taken, htaken, taken_eq⟩ :=
    upTo?_times items (a := share) (b := (max mixers 1).toUInt64)
      (by rw [share_eq, count]; omega)
  rw [share_eq, count] at taken_eq
  obtain ⟨leftover, hleftover⟩ : ∃ leftover, minus? items taken = some leftover := by
    rw [← Option.ne_none_iff_exists', ne_eq, minus?_eq_none_iff]
    omega
  have leftover_eq : leftover.toNat = items.toNat % max mixers.toNat 1 := by
    rw [toNat_of_minus? hleftover]
    omega
  simp only [partition?, divided, htaken, hleftover, count, Option.bind_eq_bind, Option.bind_some]
  rw [partition_eq, ← share_eq, ← leftover_eq]
  rw [← share_eq, ← leftover_eq] at cut
  generalize max mixers.toNat 1 = n at pos cut
  obtain ⟨n, rfl⟩ := Nat.exists_eq_add_of_le' pos
  exact rangesFrom?_first (Nat.le_of_eq cut)

/-- **The items are shared out among the mixers.** However many items and mixers there are, none
included, the numbers below the item count are cut into one range for each mixer and at least one:
from zero to the count, each range beginning where the one before ends, all as wide as the share of
a mixer, but for the first, which is wider by what does not divide evenly. So each item lies in
exactly one range. Taken in 64-bit words, no step on the way is without a result, and no sum or
product goes beyond the item count. -/
theorem mixers_share_items (items : UInt64) (mixers : Word) :
    Shares items.toNat (max mixers.toNat 1) (partition items.toNat mixers.toNat) ∧
    ∃ ranges, partition? items mixers = some ranges ∧
      ranges.map (Prod.map UInt64.toNat UInt64.toNat) = partition items.toNat mixers.toNat :=
  ⟨shares_partition .., partition?_eq items mixers⟩

end HashBoard.Dag
