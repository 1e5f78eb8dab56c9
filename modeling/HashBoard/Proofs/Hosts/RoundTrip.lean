import HashBoard.Proofs.Hosts.Grammar

/-!
# Reading board lists back

The addresses of boards, written out and joined by commas, are read back as they were if each of
them can stand in a list (`Endpoint.Listable`): its host is there, holds no comma and starts with no
blank. Nothing else about a host matters: the last colon of a written address is the one in front of
its port, and the digits of a port hold no dash. What is read from a list is always of this kind, so
a list that was accepted can be written out and read again.

One address is read by itself, where a comma is a character like any other.
-/

namespace HashBoard.Endpoint

open Text

/-- An address that can stand in a list. -/
structure Listable (e : Endpoint) : Prop where
  /-- There is a host. -/
  named : e.host ≠ ""
  /-- No comma cuts the host. -/
  whole : ',' ∉ e.host.toList
  /-- Trimming leaves the host as it is. -/
  flush : Flush e.host.toList

/-- Addresses as they are written in a list. -/
def displayList (es : List Endpoint) : String := ",".intercalate (es.map display)

/-! ### One address -/

theorem toList_display (e : Endpoint) :
    e.display.toList = e.host.toList ++ ':' :: Nat.toDigits 10 e.port.toNat := by
  rw [display, String.toList_append, String.toList_append, Nat.toString_eq_ofList_toDigits,
    String.toList_ofList, String.toList_ofList, List.append_assoc]
  rfl

theorem notMem_digits {c : Char} (h : c.isDigit = false) (n : Nat) : c ∉ Nat.toDigits 10 n := by
  intro mem
  rw [Nat.isDigit_of_mem_toDigits (by decide) (by decide) mem] at h
  exact Bool.noConfusion h

theorem isBlank_of_isDigit {c : Char} (h : c.isDigit = true) : isBlank c = false := by
  rw [Char.isDigit, Bool.and_eq_true, decide_eq_true_iff, decide_eq_true_iff] at h
  have low : 48 ≤ c.toNat := h.1
  have high : c.toNat ≤ 57 := h.2
  simp [isBlank, inRanges, blankRanges]
  omega

/-- Digits start with no blank, in either direction. -/
theorem flush_of_digits {cs : List Char} (h : ∀ c ∈ cs, c.isDigit = true) : Flush cs :=
  fun c hc ↦ isBlank_of_isDigit (h c (List.mem_of_mem_head? hc))

theorem isDigit_of_mem_digits (n : Nat) : ∀ c ∈ Nat.toDigits 10 n, c.isDigit = true :=
  fun _ mem ↦ Nat.isDigit_of_mem_toDigits (by decide) (by decide) mem

theorem flush_reverse_digits (n : Nat) : Flush (Nat.toDigits 10 n).reverse :=
  flush_of_digits fun c hc ↦ isDigit_of_mem_digits n c (List.mem_reverse.mp hc)

/-- A text that starts and ends with no blank is what it is trimmed to. -/
theorem trimsTo_self {cs : List Char} (flush : Flush cs) (flush_reverse : Flush cs.reverse) :
    TrimsTo cs cs := by
  refine ⟨⟨[], [], ?_, List.forall_mem_nil _, List.forall_mem_nil _⟩, flush, flush_reverse⟩
  rw [List.nil_append, List.append_nil]

theorem isPort_digits (port : UInt16) : IsPort (Nat.toDigits 10 port.toNat) port.toNat := by
  have bound := port.toNat_lt
  exact ⟨_, trimsTo_self (flush_of_digits (isDigit_of_mem_digits _)) (flush_reverse_digits _),
    spells_toDigits _, by omega⟩

theorem toList_ne_nil {host : String} (named : host ≠ "") : host.toList ≠ [] :=
  fun h ↦ named (String.toList_inj.mp h)

theorem reads_display {e : Endpoint} (named : e.host ≠ "") : Reads e.display.toList (.ok [e]) := by
  rw [toList_display]
  refine .port (toList_ne_nil named) (notMem_digits (by decide) _) (notMem_digits (by decide) _)
    (isPort_digits e.port) ⟨?_, ?_⟩
  · intro e' he'
    rw [List.mem_singleton.mp he', String.ofList_toList]
  · rw [Nat.sub_self]
    rfl

theorem trimsTo_display {e : Endpoint} (named : e.host ≠ "") (flush : Flush e.host.toList) :
    TrimsTo e.display.toList e.display.toList := by
  rw [toList_display]
  refine trimsTo_self ?_ ?_
  · obtain ⟨c, cs, h⟩ := List.exists_cons_of_ne_nil (toList_ne_nil named)
    rw [h] at flush ⊢
    exact flush
  · obtain ⟨c, cs, h⟩ := List.exists_cons_of_ne_nil
      (List.reverse_ne_nil_iff.mpr (@Nat.toDigits_ne_nil e.port.toNat 10))
    have last := flush_reverse_digits e.port.toNat
    rw [List.reverse_append, List.reverse_cons, h]
    rw [h] at last
    exact last

theorem expand_display {e : Endpoint} (named : e.host ≠ "") (flush : Flush e.host.toList) :
    expand e.display = .ok [e] :=
  expand_eq_iff.mpr ⟨_, trimsTo_display named flush, reads_display named⟩

theorem Covers.host_eq {host : List Char} {first last : Nat} {boards : List Endpoint}
    (h : Covers host first last boards) : ∀ e ∈ boards, e.host.toList = host := fun e he ↦ by
  rw [h.hosts e he, String.toList_ofList]

/-- What is accepted names boards at a host that the entry starts with. -/
theorem Reads.host_prefix {entry : List Char} {boards : List Endpoint}
    (h : Reads entry (.ok boards)) : ∀ e ∈ boards, e.host ≠ "" ∧ e.host.toList <+: entry := by
  suffices ∃ host, host ≠ [] ∧ host <+: entry ∧ ∀ e ∈ boards, e.host.toList = host by
    obtain ⟨host, named, starts, same⟩ := this
    intro e he
    rw [same e he]
    refine ⟨fun none ↦ named ?_, starts⟩
    rw [← same e he, none]
    rfl
  cases h with
  | host alone named =>
    refine ⟨entry, named, List.prefix_refl entry, fun e he ↦ ?_⟩
    rw [List.mem_singleton.mp he, String.toList_ofList]
  | port named lastColon single isPort covers =>
    exact ⟨_, named, List.prefix_append _ _, covers.host_eq⟩
  | range named lastColon firstDash isFirst isLast inOrder covers =>
    exact ⟨_, named, List.prefix_append _ _, covers.host_eq⟩

theorem parse_eq_ok_iff {s : String} {e : Endpoint} : parse s = .ok e ↔ expand s = .ok [e] := by
  rw [parse]
  split
  · rename_i refused
    simp [refused]
  · rename_i board accepted
    simp [accepted]
  · rename_i boards several accepted
    have : boards ≠ [e] := fun single ↦ several e single
    simp [accepted, this]

/-- What an entry names is at a host, and the host starts with no blank. -/
theorem named_of_expand {s : String} {boards : List Endpoint} (h : expand s = .ok boards) :
    ∀ e ∈ boards, e.host ≠ "" ∧ Flush e.host.toList := by
  obtain ⟨t, trims, reads⟩ := expand_eq_iff.mp h
  intro e he
  obtain ⟨named, starts⟩ := reads.host_prefix e he
  exact ⟨named, trims.flush.of_prefix starts⟩

theorem parse_display_iff {e : Endpoint} :
    parse e.display = .ok e ↔ e.host ≠ "" ∧ Flush e.host.toList := by
  rw [parse_eq_ok_iff]
  constructor
  · exact fun h ↦ named_of_expand h e (List.mem_singleton_self e)
  · exact fun h ↦ expand_display h.1 h.2

/-! ### Lists -/

/-- The entries of a written list are the written addresses: each has a colon, so none is blank. -/
theorem entries_displayList {es : List Endpoint} (some : es ≠ [])
    (whole : ∀ e ∈ es, ',' ∉ e.host.toList) : entries (displayList es) = es.map display := by
  have cut : (displayList es).toList.splitOn ',' = es.map fun e ↦ e.display.toList := by
    have : (displayList es).toList = [','].intercalate (es.map fun e ↦ e.display.toList) := by
      rw [displayList, String.toList_intercalate, List.map_map]
      rfl
    rw [this, List.splitOn_intercalate]
    · rw [List.forall_mem_map]
      intro e he
      rw [toList_display, List.mem_append, List.mem_cons]
      have : ',' ≠ ':' := by decide
      simp [whole e he, this, notMem_digits (c := ',') (by decide)]
    · rwa [ne_eq, List.map_eq_nil_iff]
  have kept (e : Endpoint) : (!e.display.toList.all isBlank) = true := by
    have colon : ':' ∈ e.display.toList := by
      rw [toList_display]
      exact List.mem_append_right _ List.mem_cons_self
    rw [Bool.not_eq_true', List.all_eq_false]
    exact ⟨':', colon, by decide⟩
  rw [entries, cut, List.filter_eq_self.mpr, List.map_map]
  · simp [Function.comp_def]
  · rw [List.forall_mem_map]
    exact fun e _ ↦ kept e

theorem expandList_displayList {es : List Endpoint} (some : es ≠ [])
    (h : ∀ e ∈ es, e.Listable) : expandList (displayList es) = .ok es := by
  rw [expandList_eq_ok_iff, entries_displayList some fun e he ↦ (h e he).whole]
  refine ⟨by rwa [ne_eq, List.map_eq_nil_iff], es.map fun e ↦ [e], ?_, ?_⟩
  · rw [List.forall₂_map_left_iff, List.forall₂_map_right_iff, List.forall₂_same]
    exact fun e he ↦ expand_display (h e he).named (h e he).flush
  · rw [← List.flatMap_def, List.flatMap_singleton']

/-- What a list names one of its entries does. -/
theorem exists_entry {es : List String} {parts : List (List Endpoint)}
    (h : List.Forall₂ (fun e part ↦ expand e = .ok part) es parts) :
    ∀ part ∈ parts, ∃ entry ∈ es, expand entry = .ok part := by
  induction h with
  | nil => exact List.forall_mem_nil _
  | cons first all ih =>
    rw [List.forall_mem_cons]
    refine ⟨⟨_, List.mem_cons_self, first⟩, fun part hpart ↦ ?_⟩
    obtain ⟨entry, mem, accepted⟩ := ih part hpart
    exact ⟨entry, List.mem_cons_of_mem _ mem, accepted⟩

theorem notMem_of_mem_entries {list entry : String} (h : entry ∈ entries list) :
    ',' ∉ entry.toList := by
  obtain ⟨piece, kept, rfl⟩ := List.mem_map.mp h
  rw [String.toList_ofList]
  rw [← pieces_eq_splitOn] at kept
  exact not_mem_of_mem_pieces (List.mem_filter.mp kept).1

/-- What an entry without a comma names can stand in a list. -/
theorem listable_of_expand {entry : String} (whole : ',' ∉ entry.toList) {boards : List Endpoint}
    (h : expand entry = .ok boards) : ∀ e ∈ boards, e.Listable := by
  obtain ⟨t, trims, reads⟩ := expand_eq_iff.mp h
  obtain ⟨front, back, parts, -, -⟩ := trims.between
  intro e he
  obtain ⟨named, starts⟩ := reads.host_prefix e he
  refine ⟨named, fun comma ↦ whole ?_, trims.flush.of_prefix starts⟩
  rw [parts]
  exact List.mem_append_left _ (List.mem_append_right _ (starts.subset comma))

/-- What a list names can stand in a list. -/
theorem listable_of_expandList {list : String} {es : List Endpoint}
    (h : expandList list = .ok es) : ∀ e ∈ es, e.Listable := by
  obtain ⟨-, parts, all, rfl⟩ := expandList_eq_ok_iff.mp h
  intro e he
  obtain ⟨part, hpart, he⟩ := List.mem_flatten.mp he
  obtain ⟨entry, mem, accepted⟩ := exists_entry all part hpart
  exact listable_of_expand (notMem_of_mem_entries mem) accepted e he

theorem ne_nil_of_expandList {list : String} {es : List Endpoint}
    (h : expandList list = .ok es) : es ≠ [] := by
  rintro rfl
  obtain ⟨some, nothing⟩ := expandList_eq_ok_iff.mp h
  exact some (expandEntries_eq_ok_nil_iff.mp (expandEntries_eq_ok_iff.mpr nothing))

theorem expandList_displayList_iff {es : List Endpoint} :
    expandList (displayList es) = .ok es ↔ es ≠ [] ∧ ∀ e ∈ es, e.Listable :=
  ⟨fun h ↦ ⟨ne_nil_of_expandList h, listable_of_expandList h⟩,
    fun h ↦ expandList_displayList h.1 h.2⟩

/-- **Addresses are read back as they are written.** Boards written as a list are read back just
when there are some and each can stand in a list, and one address by itself just when it has a host
that starts with no blank. All boards that are read from a list are of this kind: the list they make
is read back, and each of them by itself. So is an address that was read by itself. -/
theorem lists_read_back :
    (∀ es : List Endpoint,
      expandList (displayList es) = .ok es ↔ es ≠ [] ∧ ∀ e ∈ es, e.Listable) ∧
    (∀ e : Endpoint, parse e.display = .ok e ↔ e.host ≠ "" ∧ Flush e.host.toList) ∧
    (∀ list es, expandList list = .ok es →
      (es ≠ [] ∧ ∀ e ∈ es, e.Listable) ∧ expandList (displayList es) = .ok es ∧
        ∀ e ∈ es, parse e.display = .ok e) ∧
    ∀ s e, parse s = .ok e → parse e.display = .ok e := by
  refine ⟨fun _ ↦ expandList_displayList_iff, fun _ ↦ parse_display_iff, fun list es read ↦ ?_,
    fun s e read ↦ ?_⟩
  · have some := ne_nil_of_expandList read
    have listable := listable_of_expandList read
    refine ⟨⟨some, listable⟩, expandList_displayList some listable, fun e he ↦ ?_⟩
    exact parse_display_iff.mpr ⟨(listable e he).named, (listable e he).flush⟩
  · rw [parse_eq_ok_iff] at read
    exact parse_display_iff.mpr (named_of_expand read e (List.mem_singleton_self e))

/-- A host may be made of separators: `:-` at every port from 9 to 11, and one with a blank at its
end at the last port. By itself, so may one with a comma. -/
theorem lists_read_back_of_separators :
    let list := ":-:9 - +11,-: :65535"
    let boards : List Endpoint := [⟨":-", 9⟩, ⟨":-", 10⟩, ⟨":-", 11⟩, ⟨"-: ", 65535⟩]
    let alone : Endpoint := ⟨",:", 7⟩
    (expandList list = .ok boards ∧ expandList (displayList boards) = .ok boards ∧
      parse "-: :65535" = .ok ⟨"-: ", 65535⟩) ∧
      parse " ,:: +7" = .ok alone ∧ parse alone.display = .ok alone := by
  have read : expandList ":-:9 - +11,-: :65535" =
      .ok [⟨":-", 9⟩, ⟨":-", 10⟩, ⟨":-", 11⟩, ⟨"-: ", 65535⟩] := by decide +kernel
  have alone : parse " ,:: +7" = .ok ⟨",:", 7⟩ := by decide +kernel
  obtain ⟨-, -, lists, single⟩ := lists_read_back
  obtain ⟨-, back, each⟩ := lists _ _ read
  exact ⟨⟨read, back, each ⟨"-: ", 65535⟩ (by decide)⟩, alone, single _ _ alone⟩

end HashBoard.Endpoint
