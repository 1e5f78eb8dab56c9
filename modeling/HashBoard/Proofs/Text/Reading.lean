import HashBoard.Text.Blank
import HashBoard.Text.Numeral
import HashBoard.Text.Split
import Mathlib.Data.List.TakeWhile

/-!
# Trimmed text, numerals and entries

What the readers of settings and board lists have in common, described without them. A text is
trimmed to what stands between its blanks, and there is one such text (`trim_eq_iff`). A numeral
spells a number: an optional plus sign and decimal digits, as many as one likes, so a bound on what
is read is a bound on the number and not on its digits (`numeral?_eq_some_iff`). The pieces of a
text are the list's own split at the separator.
-/

namespace HashBoard.Text

/-! ### Trimming -/

/-- A text starts with no blank. -/
def Flush (cs : List Char) : Prop := ∀ c ∈ cs.head?, isBlank c = false

/-- A text is another with blanks on both sides, and the other neither starts nor ends with one. -/
structure TrimsTo (cs t : List Char) : Prop where
  /-- What is left out is blank. -/
  between : ∃ front back, cs = front ++ t ++ back ∧ (∀ c ∈ front, isBlank c = true) ∧
    ∀ c ∈ back, isBlank c = true
  /-- What is left starts with no blank. -/
  flush : Flush t
  /-- Nor does it end with one. -/
  flush_reverse : Flush t.reverse

theorem trimFront_append {front : List Char} (h : ∀ c ∈ front, isBlank c = true)
    (cs : List Char) : trimFront (front ++ cs) = trimFront cs :=
  List.dropWhile_append_of_pos h

theorem trimFront_of_flush {cs : List Char} (h : Flush cs) : trimFront cs = cs := by
  cases cs with
  | nil => rfl
  | cons c cs =>
    have : isBlank c = false := h c rfl
    rw [trimFront, List.dropWhile_cons_of_neg (by simp [this])]

theorem flush_trimFront (cs : List Char) : Flush (trimFront cs) := by
  induction cs with
  | nil => exact fun c hc ↦ nomatch hc
  | cons c cs ih =>
    by_cases blank : isBlank c = true
    · rw [trimFront, List.dropWhile_cons_of_pos blank]
      exact ih
    · rw [trimFront, List.dropWhile_cons_of_neg blank]
      rintro _ ⟨⟩
      exact Bool.eq_false_iff.mpr blank

/-- A text that starts with no blank has no part in front that does. -/
theorem Flush.of_prefix {cs more : List Char} (h : Flush more) (starts : cs <+: more) :
    Flush cs := by
  obtain ⟨rest, rfl⟩ := starts
  intro c hc
  obtain ⟨others, rfl⟩ := List.head?_eq_some_iff.mp hc
  exact h c rfl

theorem takeWhile_append_trimFront (cs : List Char) :
    cs.takeWhile isBlank ++ trimFront cs = cs :=
  List.takeWhile_append_dropWhile

theorem trimsTo_trim (cs : List Char) : TrimsTo cs (trim cs) := by
  -- the text without its front is the trimmed one with the blanks of its back
  have parts : trimFront cs = trim cs ++ ((trimFront cs).reverse.takeWhile isBlank).reverse := by
    have := takeWhile_append_trimFront (trimFront cs).reverse
    rw [trim, ← List.reverse_append, this, List.reverse_reverse]
  constructor
  · refine ⟨cs.takeWhile isBlank, ((trimFront cs).reverse.takeWhile isBlank).reverse, ?_,
      fun c hc ↦ List.mem_takeWhile_imp hc, fun c hc ↦ ?_⟩
    · rw [List.append_assoc, ← parts, takeWhile_append_trimFront]
    · exact List.mem_takeWhile_imp (List.mem_reverse.mp hc)
  · exact Flush.of_prefix (flush_trimFront cs) ⟨_, parts.symm⟩
  · rw [trim, List.reverse_reverse]
    exact flush_trimFront _

theorem TrimsTo.trim_eq {cs t : List Char} (h : TrimsTo cs t) : trim cs = t := by
  obtain ⟨front, back, rfl, hfront, hback⟩ := h.between
  rw [trim, List.append_assoc, trimFront_append hfront]
  have hback : ∀ c ∈ back.reverse, isBlank c = true := fun c hc ↦ hback c (List.mem_reverse.mp hc)
  cases t with
  | nil =>
    have : trimFront back = [] := by
      rw [← List.append_nil back, trimFront_append fun c hc ↦ hback c (List.mem_reverse.mpr hc)]
      rfl
    rw [List.nil_append, this]
    rfl
  | cons c t =>
    have flush : Flush (c :: t ++ back) := h.flush
    rw [trimFront_of_flush flush, List.reverse_append, trimFront_append hback,
      trimFront_of_flush h.flush_reverse, List.reverse_reverse]

/-- A text is trimmed to one text only. -/
theorem trim_eq_iff {cs t : List Char} : trim cs = t ↔ TrimsTo cs t := by
  constructor
  · rintro rfl
    exact trimsTo_trim cs
  · exact TrimsTo.trim_eq

theorem trim_eq_nil_iff {cs : List Char} : trim cs = [] ↔ ∀ c ∈ cs, isBlank c = true := by
  constructor
  · intro nothing
    obtain ⟨front, back, h, hfront, hback⟩ := (trim_eq_iff.mp nothing).between
    rw [List.append_nil] at h
    rw [h]
    exact List.forall_mem_append.mpr ⟨hfront, hback⟩
  · intro blank
    refine TrimsTo.trim_eq ⟨⟨cs, [], ?_, blank, fun c hc ↦ nomatch hc⟩, ?_, ?_⟩
    · rw [List.append_nil, List.append_nil]
    · exact fun c hc ↦ nomatch hc
    · exact fun c hc ↦ nomatch hc

/-! ### Numerals -/

/-- A numeral spells a number: an optional plus sign and one or more decimal digits. -/
def Spells (cs : List Char) (n : Nat) : Prop :=
  ∃ ds, (cs = ds ∨ cs = '+' :: ds) ∧ ds ≠ [] ∧ (∀ c ∈ ds, c.isDigit = true) ∧
    Nat.ofDigitChars 10 ds 0 = n

theorem digit?_eq_some_iff {c : Char} {d : Nat} :
    digit? c = some d ↔ c.isDigit = true ∧ c.toNat - '0'.toNat = d := by
  rw [digit?, Option.ite_none_right_eq_some, Option.some.injEq, Char.isDigit, Bool.and_eq_true,
    decide_eq_true_iff, decide_eq_true_iff]
  rfl

theorem digitsFrom?_eq_some_iff {acc n : Nat} {cs : List Char} :
    digitsFrom? acc cs = some n ↔
      (∀ c ∈ cs, c.isDigit = true) ∧ Nat.ofDigitChars 10 cs acc = n := by
  induction cs generalizing acc with
  | nil => simp [digitsFrom?]
  | cons c cs ih =>
    rw [digitsFrom?, Option.bind_eq_some_iff, List.forall_mem_cons, Nat.ofDigitChars_cons]
    constructor
    · rintro ⟨d, hd, rest⟩
      obtain ⟨digit, rfl⟩ := digit?_eq_some_iff.mp hd
      obtain ⟨digits, value⟩ := ih.mp rest
      exact ⟨⟨digit, digits⟩, value⟩
    · rintro ⟨⟨digit, digits⟩, value⟩
      exact ⟨_, digit?_eq_some_iff.mpr ⟨digit, rfl⟩, ih.mpr ⟨digits, value⟩⟩

theorem digits?_eq_some_iff {n : Nat} {cs : List Char} :
    digits? cs = some n ↔
      cs ≠ [] ∧ (∀ c ∈ cs, c.isDigit = true) ∧ Nat.ofDigitChars 10 cs 0 = n := by
  cases cs with
  | nil => simp [digits?]
  | cons c cs =>
    rw [digits?, digitsFrom?_eq_some_iff]
    · simp
    · exact List.cons_ne_nil c cs

/-- What is read within a bound is the number that is spelled, if it is within the bound. -/
theorem numeral?_eq_some_iff {bound n : Nat} {cs : List Char} :
    numeral? bound cs = some n ↔ Spells cs n ∧ n ≤ bound := by
  rw [numeral?.eq_def, Option.filter_eq_some_iff, decide_eq_true_iff]
  refine and_congr_left fun _ ↦ ?_
  have signed : '+'.isDigit ≠ true := by decide
  split
  · rename_i digits
    rw [digits?_eq_some_iff]
    constructor
    · exact fun h ↦ ⟨digits, .inr rfl, h⟩
    · rintro ⟨ds, rfl | same, nonempty, all, value⟩
      · exact absurd (all '+' List.mem_cons_self) signed
      · obtain rfl := List.tail_eq_of_cons_eq same
        exact ⟨nonempty, all, value⟩
  · rename_i unsigned
    rw [digits?_eq_some_iff]
    constructor
    · exact fun h ↦ ⟨cs, .inl rfl, h⟩
    · rintro ⟨ds, rfl | same, h⟩
      · exact h
      · exact absurd same (unsigned ds)

/-- A number in decimal digits spells it. -/
theorem spells_toDigits (n : Nat) : Spells (Nat.toDigits 10 n) n :=
  ⟨_, .inl rfl, Nat.toDigits_ne_nil,
    fun _ mem ↦ Nat.isDigit_of_mem_toDigits (by decide) (by decide) mem,
    Nat.ofDigitChars_ten_toDigits⟩

/-! ### Pieces -/

theorem pieces_eq_splitOn (sep : Char) (cs : List Char) : pieces sep cs = cs.splitOn sep := by
  have := List.splitOn_intercalate sep (fun p hp ↦ not_mem_of_mem_pieces hp) (pieces_ne_nil sep cs)
  rw [← this, intercalate_pieces]

end HashBoard.Text
