/-!
# Cutting text at a separator

Cutting at the first, the last and every occurrence of one character. The separator itself is in
no piece, and with it put back the pieces give the text again.
-/

namespace HashBoard.Text

/-- What stands before and after the first `sep`, if there is one. -/
def splitFirst? (sep : Char) : List Char → Option (List Char × List Char)
  | [] => none
  | c :: cs =>
    if c = sep then some ([], cs) else (splitFirst? sep cs).map fun p ↦ (c :: p.1, p.2)

/-- What stands before and after the last `sep`, if there is one. -/
def splitLast? (sep : Char) (cs : List Char) : Option (List Char × List Char) :=
  (splitFirst? sep cs.reverse).map fun p ↦ (p.2.reverse, p.1.reverse)

/-- The pieces between the occurrences of `sep`; always at least one. -/
def pieces (sep : Char) : List Char → List (List Char)
  | [] => [[]]
  | c :: cs =>
    if c = sep then [] :: pieces sep cs
    else match pieces sep cs with
      | [] => [[c]]
      | p :: ps => (c :: p) :: ps

/-! ## Putting the separator back -/

theorem splitFirst?_append {sep : Char} {a : List Char} (b : List Char) (h : sep ∉ a) :
    splitFirst? sep (a ++ sep :: b) = some (a, b) := by
  induction a with
  | nil => simp [splitFirst?]
  | cons c a ih =>
    rw [List.mem_cons, not_or] at h
    simp [splitFirst?, Ne.symm h.1, ih h.2]

theorem splitFirst?_eq_none_iff {sep : Char} {cs : List Char} :
    splitFirst? sep cs = none ↔ sep ∉ cs := by
  induction cs with
  | nil => simp [splitFirst?]
  | cons c cs ih =>
    by_cases h : c = sep
    · simp [splitFirst?, h]
    · simp [splitFirst?, h, ih, Ne.symm h]

theorem splitFirst?_eq_some_iff {sep : Char} {cs a b : List Char} :
    splitFirst? sep cs = some (a, b) ↔ cs = a ++ sep :: b ∧ sep ∉ a := by
  refine ⟨fun h ↦ ?_, fun h ↦ h.1 ▸ splitFirst?_append b h.2⟩
  induction cs generalizing a with
  | nil => simp [splitFirst?] at h
  | cons c cs ih =>
    by_cases hc : c = sep
    · simp only [splitFirst?, hc, if_true, Option.some.injEq, Prod.mk.injEq] at h
      obtain ⟨rfl, rfl⟩ := h
      simp [hc]
    · simp only [splitFirst?, hc, if_false, Option.map_eq_some_iff, Prod.mk.injEq] at h
      obtain ⟨⟨a', b'⟩, hcut, rfl, rfl⟩ := h
      obtain ⟨rfl, ha⟩ := ih hcut
      simp [ha, Ne.symm hc]

theorem splitLast?_eq_none_iff {sep : Char} {cs : List Char} :
    splitLast? sep cs = none ↔ sep ∉ cs := by
  simp [splitLast?, splitFirst?_eq_none_iff]

theorem splitLast?_eq_some_iff {sep : Char} {cs a b : List Char} :
    splitLast? sep cs = some (a, b) ↔ cs = a ++ sep :: b ∧ sep ∉ b := by
  have swap : cs.reverse = b.reverse ++ sep :: a.reverse ↔ cs = a ++ sep :: b := by
    rw [← List.reverse_inj]
    simp
  constructor
  · intro h
    obtain ⟨⟨x, y⟩, hcut, he⟩ := Option.map_eq_some_iff.1 h
    obtain ⟨rfl, rfl⟩ := Prod.mk.injEq .. ▸ he
    obtain ⟨hcs, hx⟩ := splitFirst?_eq_some_iff.1 hcut
    exact ⟨swap.1 (by simpa using hcs), by simpa using hx⟩
  · rintro ⟨hcs, hb⟩
    have hcut : splitFirst? sep cs.reverse = some (b.reverse, a.reverse) :=
      splitFirst?_eq_some_iff.2 ⟨swap.2 hcs, by simpa using hb⟩
    simp [splitLast?, hcut]

theorem pieces_ne_nil (sep : Char) (cs : List Char) : pieces sep cs ≠ [] := by
  cases cs with
  | nil => simp [pieces]
  | cons c cs =>
    rw [pieces]
    split
    · simp
    · split <;> simp

/-- With the separator between them the pieces are the text. -/
theorem intercalate_pieces (sep : Char) (cs : List Char) :
    [sep].intercalate (pieces sep cs) = cs := by
  induction cs with
  | nil => simp [pieces]
  | cons c cs ih =>
    obtain ⟨p, ps, hp⟩ := List.exists_cons_of_ne_nil (pieces_ne_nil sep cs)
    rw [hp] at ih
    by_cases h : c = sep
    · simp [pieces, h, hp, List.intercalate_cons_cons, ih]
    · cases ps <;> simp_all [pieces, List.intercalate_cons_cons]

theorem not_mem_of_mem_pieces {sep : Char} {cs p : List Char} (h : p ∈ pieces sep cs) :
    sep ∉ p := by
  induction cs generalizing p with
  | nil => simp_all [pieces]
  | cons c cs ih =>
    obtain ⟨q, qs, hq⟩ := List.exists_cons_of_ne_nil (pieces_ne_nil sep cs)
    by_cases hc : c = sep
    · rw [pieces, if_pos hc, List.mem_cons] at h
      obtain rfl | h := h
      · simp
      · exact ih h
    · simp only [pieces, hc, if_false, hq, List.mem_cons] at h
      obtain rfl | h := h
      · have := ih (p := q) (by simp [hq])
        simp [this, Ne.symm hc]
      · exact ih (by simp [hq, h])

end HashBoard.Text
