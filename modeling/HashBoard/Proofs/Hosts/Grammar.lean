import HashBoard.Endpoint
import HashBoard.Proofs.Text.Reading
import Mathlib.Data.UInt

/-!
# The grammar of board lists

How an entry is to be read is a relation between trimmed texts and outcomes (`Endpoint.Reads`), with
one rule for each form an entry can take and one for each way to be refused. Reading an entry is
this relation: every text has an outcome by one of the rules and no text has two.

The rules name separators by what is free of them. The colon of an entry is its last, so the ports
hold none; the dash of a range is the first, so the first port holds none. What is refused is quoted
as it stands after trimming, the ports of a range without further trimming.

A list is read entry by entry, so what is refused first decides. An entry that is accepted names a
board, so only a list of blanks names none.
-/

namespace HashBoard.Endpoint

open Text

/-! ### Ports -/

/-- A text is a port number between blanks. -/
def IsPort (cs : List Char) (n : Nat) : Prop := ∃ t, TrimsTo cs t ∧ Spells t n ∧ n ≤ 65535

theorem port?_eq_some_iff {cs : List Char} {n : Nat} : port? cs = some n ↔ IsPort cs n := by
  rw [port?, numeral?_eq_some_iff]
  constructor
  · exact fun h ↦ ⟨trim cs, trimsTo_trim cs, h⟩
  · rintro ⟨t, trims, h⟩
    rwa [trims.trim_eq]

theorem port?_eq_none_iff {cs : List Char} : port? cs = none ↔ ∀ n, ¬IsPort cs n := by
  simp only [← port?_eq_some_iff, Option.eq_none_iff_forall_ne_some, ne_eq]

theorem IsPort.le {cs : List Char} {n : Nat} (h : IsPort cs n) : n ≤ 65535 := by
  obtain ⟨t, -, -, le⟩ := h
  exact le

/-- Boards are those at one host with all ports from a first to a last, in order. -/
structure Covers (host : List Char) (first last : Nat) (boards : List Endpoint) : Prop where
  /-- All boards are at the host. -/
  hosts : ∀ e ∈ boards, e.host = String.ofList host
  /-- Their ports are the numbers from the first to the last. -/
  ports : boards.map (·.port.toNat) = List.range' first (last - first + 1)

variable {host : List Char} {first last : Nat}

theorem covers_onPorts (le : first ≤ last) (bound : last ≤ 65535) :
    Covers host first last (onPorts host first last) := by
  constructor
  · intro e he
    obtain ⟨p, -, rfl⟩ := List.mem_map.mp he
    rfl
  · rw [onPorts, List.map_map, ← Nat.sub_add_comm le]
    conv_rhs => rw [← List.map_id (List.range' first (last + 1 - first))]
    refine List.map_congr_left fun p hp ↦ ?_
    have := (List.mem_range'_1.mp hp).2
    exact UInt16.toNat_ofNat_of_lt' (show p < 2 ^ 16 by omega)

theorem Covers.eq_onPorts {boards : List Endpoint} (h : Covers host first last boards)
    (le : first ≤ last) : boards = onPorts host first last := by
  rw [onPorts, Nat.sub_add_comm le, ← h.ports, List.map_map]
  conv_lhs => rw [← List.map_id boards]
  refine List.map_congr_left fun e he ↦ ?_
  rw [Function.comp_apply, ← h.hosts e he, UInt16.ofNat_toNat]
  rfl

theorem onPorts_ne_nil (le : first ≤ last) : onPorts host first last ≠ [] := by
  rw [onPorts, ne_eq, List.map_eq_nil_iff, List.range'_eq_nil_iff]
  omega

/-! ### Entries -/

/-- How a trimmed entry is read. -/
inductive Reads : List Char → Except HostError (List Endpoint) → Prop
  /-- A host alone has the usual port. -/
  | host {host : List Char} (alone : ':' ∉ host) (named : host ≠ []) :
    Reads host (.ok [⟨String.ofList host, 2000⟩])
  /-- Nothing is no host. -/
  | nothing : Reads [] (.error (.invalidHost ""))
  /-- Before the last colon there has to be a host. -/
  | unnamed {ports : List Char} (lastColon : ':' ∉ ports) :
    Reads (':' :: ports) (.error (.invalidHost (String.ofList (':' :: ports))))
  /-- A host and a port. -/
  | port {host port : List Char} {n : Nat} {boards : List Endpoint} (named : host ≠ [])
    (lastColon : ':' ∉ port) (single : '-' ∉ port) (isPort : IsPort port n)
    (covers : Covers host n n boards) : Reads (host ++ ':' :: port) (.ok boards)
  /-- A host and something that is no port. -/
  | noPort {host port : List Char} (named : host ≠ []) (lastColon : ':' ∉ port)
    (single : '-' ∉ port) (noPort : ∀ n, ¬IsPort port n) :
    Reads (host ++ ':' :: port) (.error (.invalidHost (String.ofList (host ++ ':' :: port))))
  /-- A host and ports in order. -/
  | range {host first last : List Char} {m n : Nat} {boards : List Endpoint} (named : host ≠ [])
    (lastColon : ':' ∉ first ++ '-' :: last) (firstDash : '-' ∉ first) (isFirst : IsPort first m)
    (isLast : IsPort last n) (inOrder : m ≤ n) (covers : Covers host m n boards) :
    Reads (host ++ ':' :: (first ++ '-' :: last)) (.ok boards)
  /-- A host and what is no two ports, or two in the wrong order. -/
  | noRange {host first last : List Char} (named : host ≠ [])
    (lastColon : ':' ∉ first ++ '-' :: last) (firstDash : '-' ∉ first)
    (noRange : ∀ m n, IsPort first m → IsPort last n → n < m) :
    Reads (host ++ ':' :: (first ++ '-' :: last))
      (.error (.invalidPortRange (String.ofList (first ++ '-' :: last))))

theorem Reads.expandTrimmed_eq {entry : List Char} {r : Except HostError (List Endpoint)}
    (h : Reads entry r) : expandTrimmed entry = r := by
  cases h with
  | host alone named =>
    rw [expandTrimmed, splitLast?_eq_none_iff.mpr alone]
    simp [named, defaultPort]
  | nothing => rfl
  | @unnamed ports lastColon =>
    have cut : splitLast? ':' (':' :: ports) = some ([], ports) :=
      splitLast?_eq_some_iff.mpr ⟨rfl, lastColon⟩
    rw [expandTrimmed, cut]
    rfl
  | @port host port n boards named lastColon single isPort covers =>
    rw [expandTrimmed, splitLast?_eq_some_iff.mpr ⟨rfl, lastColon⟩]
    simp only [List.isEmpty_iff, named, if_false, splitFirst?_eq_none_iff.mpr single,
      port?_eq_some_iff.mpr isPort]
    rw [covers.eq_onPorts le_rfl]
  | @noPort host port named lastColon single noPort =>
    rw [expandTrimmed, splitLast?_eq_some_iff.mpr ⟨rfl, lastColon⟩]
    simp only [List.isEmpty_iff, named, if_false, splitFirst?_eq_none_iff.mpr single,
      port?_eq_none_iff.mpr noPort]
  | @range host first last m n boards named lastColon firstDash isFirst isLast inOrder covers =>
    rw [expandTrimmed, splitLast?_eq_some_iff.mpr ⟨rfl, lastColon⟩]
    simp only [List.isEmpty_iff, named, if_false, splitFirst?_append last firstDash,
      port?_eq_some_iff.mpr isFirst, port?_eq_some_iff.mpr isLast, not_lt.mpr inOrder]
    rw [covers.eq_onPorts inOrder]
  | @noRange host first last named lastColon firstDash noRange =>
    rw [expandTrimmed, splitLast?_eq_some_iff.mpr ⟨rfl, lastColon⟩]
    simp only [List.isEmpty_iff, named, if_false, splitFirst?_append last firstDash]
    cases hfirst : port? first with
    | none => rfl
    | some m =>
      cases hlast : port? last with
      | none => rfl
      | some n =>
        have := noRange m n (port?_eq_some_iff.mp hfirst) (port?_eq_some_iff.mp hlast)
        simp only [this, if_true]

theorem reads_expandTrimmed (entry : List Char) : Reads entry (expandTrimmed entry) := by
  -- each rule is found by cutting the entry as it is described, and read by the lemma before
  suffices ∃ r, Reads entry r by
    obtain ⟨r, reads⟩ := this
    rwa [reads.expandTrimmed_eq]
  cases colon : splitLast? ':' entry with
  | none =>
    have alone := splitLast?_eq_none_iff.mp colon
    by_cases named : entry = []
    · subst named
      exact ⟨_, .nothing⟩
    · exact ⟨_, .host alone named⟩
  | some parts =>
    obtain ⟨host, ports⟩ := parts
    obtain ⟨rfl, lastColon⟩ := splitLast?_eq_some_iff.mp colon
    by_cases named : host = []
    · subst named
      exact ⟨_, .unnamed lastColon⟩
    cases dash : splitFirst? '-' ports with
    | none =>
      have single := splitFirst?_eq_none_iff.mp dash
      by_cases port : ∃ n, IsPort ports n
      · obtain ⟨n, isPort⟩ := port
        exact ⟨_, .port named lastColon single isPort (covers_onPorts le_rfl isPort.le)⟩
      · exact ⟨_, .noPort named lastColon single (not_exists.mp port)⟩
    | some sides =>
      obtain ⟨first, last⟩ := sides
      obtain ⟨rfl, firstDash⟩ := splitFirst?_eq_some_iff.mp dash
      by_cases range : ∃ m n, IsPort first m ∧ IsPort last n ∧ m ≤ n
      · obtain ⟨m, n, isFirst, isLast, inOrder⟩ := range
        exact ⟨_, .range named lastColon firstDash isFirst isLast inOrder
          (covers_onPorts inOrder isLast.le)⟩
      · refine ⟨_, .noRange named lastColon firstDash fun m n isFirst isLast ↦ ?_⟩
        exact not_le.mp fun inOrder ↦ range ⟨m, n, isFirst, isLast, inOrder⟩

theorem expand_eq_iff {entry : String} {r : Except HostError (List Endpoint)} :
    expand entry = r ↔ ∃ t, TrimsTo entry.toList t ∧ Reads t r := by
  constructor
  · rintro rfl
    exact ⟨_, trimsTo_trim entry.toList, reads_expandTrimmed _⟩
  · rintro ⟨t, trims, reads⟩
    rw [expand, trims.trim_eq, reads.expandTrimmed_eq]

theorem Reads.ne_nil {entry : List Char} {boards : List Endpoint} (h : Reads entry (.ok boards)) :
    boards ≠ [] := by
  cases h with
  | host => exact List.cons_ne_nil _ _
  | port named lastColon single isPort covers =>
    rw [covers.eq_onPorts le_rfl]
    exact onPorts_ne_nil le_rfl
  | range named lastColon firstDash isFirst isLast inOrder covers =>
    rw [covers.eq_onPorts inOrder]
    exact onPorts_ne_nil inOrder

theorem expand_ne_nil {entry : String} {boards : List Endpoint} (h : expand entry = .ok boards) :
    boards ≠ [] := by
  obtain ⟨t, -, reads⟩ := expand_eq_iff.mp h
  exact reads.ne_nil

/-- No entry is refused for want of a board. -/
theorem expand_ne_noHosts (entry : String) : expand entry ≠ .error .noHosts := by
  intro h
  obtain ⟨t, -, reads⟩ := expand_eq_iff.mp h
  cases reads

/-! ### Lists -/

/-- The entries of a list: what stands between its commas, blanks apart. -/
def entries (list : String) : List String :=
  ((list.toList.splitOn ',').filter fun e ↦ !e.all isBlank).map String.ofList

theorem expandEntries_cons (e : String) (es : List String) :
    expandEntries ((e :: es).map String.toList) =
      match expand e with
      | .error error => .error error
      | .ok boards => (expandEntries (es.map String.toList)).map (boards ++ ·) := rfl

/-- Entries are accepted together when each is, and name the boards of the first and so on. -/
theorem expandEntries_eq_ok_iff {es : List String} {boards : List Endpoint} :
    expandEntries (es.map String.toList) = .ok boards ↔
      ∃ parts, List.Forall₂ (fun e part ↦ expand e = .ok part) es parts ∧
        parts.flatten = boards := by
  induction es generalizing boards with
  | nil =>
    constructor
    · rintro ⟨⟩
      exact ⟨[], .nil, rfl⟩
    · rintro ⟨parts, ⟨⟩, rfl⟩
      rfl
  | cons e es ih =>
    rw [expandEntries_cons]
    constructor
    · intro h
      cases first : expand e with
      | error error => simp [first] at h
      | ok part =>
        cases rest : expandEntries (es.map String.toList) with
        | error error => simp [first, rest, Except.map] at h
        | ok others =>
          obtain ⟨parts, all, rfl⟩ := ih.mp rest
          simp only [first, rest, Except.map, Except.ok.injEq] at h
          exact ⟨part :: parts, .cons first all, h⟩
    · rintro ⟨parts, all, rfl⟩
      cases all with
      | cons first all =>
        rw [first, ih.mpr ⟨_, all, rfl⟩]
        rfl

/-- Entries that name no board are none. -/
theorem expandEntries_eq_ok_nil_iff {es : List String} :
    expandEntries (es.map String.toList) = .ok [] ↔ es = [] := by
  constructor
  · intro h
    obtain ⟨parts, all, nothing⟩ := expandEntries_eq_ok_iff.mp h
    cases all with
    | nil => rfl
    | cons first all =>
      exact absurd (List.append_eq_nil_iff.mp nothing).1 (expand_ne_nil first)
  · rintro rfl
    rfl

/-- The first of some things of one kind after only things of another is the first of all, or comes
after one of the other kind. -/
theorem exists_first_cons_iff {α : Type} {p q : α → Prop} {x : α} {xs : List α} :
    (∃ front y back, x :: xs = front ++ y :: back ∧ (∀ z ∈ front, p z) ∧ q y) ↔
      q x ∨ p x ∧ ∃ front y back, xs = front ++ y :: back ∧ (∀ z ∈ front, p z) ∧ q y := by
  constructor
  · rintro ⟨front, y, back, h, others, found⟩
    cases front with
    | nil =>
      obtain ⟨rfl, rfl⟩ := List.cons.inj h
      exact .inl found
    | cons z front =>
      obtain ⟨rfl, rfl⟩ := List.cons.inj h
      obtain ⟨first, others⟩ := List.forall_mem_cons.mp others
      exact .inr ⟨first, front, y, back, rfl, others, found⟩
  · rintro (found | ⟨first, front, y, back, rfl, others, found⟩)
    · exact ⟨[], x, xs, rfl, List.forall_mem_nil p, found⟩
    · exact ⟨x :: front, y, back, rfl, List.forall_mem_cons.mpr ⟨first, others⟩, found⟩

/-- Entries are refused as the first of them that is. -/
theorem expandEntries_eq_error_iff {es : List String} {error : HostError} :
    expandEntries (es.map String.toList) = .error error ↔
      ∃ front e back, es = front ++ e :: back ∧
        (∀ x ∈ front, ∃ boards, expand x = .ok boards) ∧ expand e = .error error := by
  induction es with
  | nil => simp [expandEntries]
  | cons e es ih =>
    rw [expandEntries_cons, exists_first_cons_iff, ← ih]
    cases expand e with
    | error => simp
    | ok part => cases expandEntries (es.map String.toList) <;> simp [Except.map]

/-- What is read of a list are its entries; some of them has to name a board. -/
theorem expandList_eq (list : String) :
    expandList list =
      match expandEntries ((entries list).map String.toList) with
      | .error error => .error error
      | .ok [] => .error .noHosts
      | .ok boards => .ok boards := by
  have test (cs : List Char) : (!(trim cs).isEmpty) = !cs.all isBlank := by
    rw [Bool.eq_iff_iff, Bool.not_eq_true', Bool.not_eq_true', ← Bool.not_eq_true,
      ← Bool.not_eq_true, List.isEmpty_iff, trim_eq_nil_iff, List.all_eq_true]
  have same : (entries list).map String.toList =
      (pieces ',' list.toList).filter fun e ↦ !(trim e).isEmpty := by
    rw [entries, List.map_map, ← pieces_eq_splitOn]
    simp [test, Function.comp_def]
  rw [same]
  rfl

theorem expandList_eq_ok_iff {list : String} {boards : List Endpoint} :
    expandList list = .ok boards ↔
      entries list ≠ [] ∧ ∃ parts,
        List.Forall₂ (fun e part ↦ expand e = .ok part) (entries list) parts ∧
          parts.flatten = boards := by
  rw [← expandEntries_eq_ok_iff, expandList_eq, ne_eq, ← expandEntries_eq_ok_nil_iff]
  cases expandEntries ((entries list).map String.toList) with
  | error => simp
  | ok read => cases read <;> simp

theorem expandList_eq_error_iff {list : String} {error : HostError} :
    expandList list = .error error ↔
      (entries list = [] ∧ error = .noHosts) ∨
        ∃ front e back, entries list = front ++ e :: back ∧
          (∀ x ∈ front, ∃ boards, expand x = .ok boards) ∧ expand e = .error error := by
  rw [← expandEntries_eq_error_iff, expandList_eq, ← expandEntries_eq_ok_nil_iff]
  cases expandEntries ((entries list).map String.toList) with
  | error => simp
  | ok read => cases read <;> simp [eq_comm]

theorem expandList_eq_noHosts_iff {list : String} :
    expandList list = .error .noHosts ↔
      ∀ e ∈ list.toList.splitOn ',', ∀ c ∈ e, isBlank c = true := by
  have blank : entries list = [] ↔ ∀ e ∈ list.toList.splitOn ',', ∀ c ∈ e, isBlank c = true := by
    simp [entries]
  rw [expandList_eq_error_iff, ← blank]
  constructor
  · rintro (⟨none, -⟩ | ⟨front, e, back, -, -, refused⟩)
    · exact none
    · exact absurd refused (expand_ne_noHosts e)
  · exact fun none ↦ .inl ⟨none, rfl⟩

/-- **What a list of boards says.** An entry is read by the rules of the grammar, each text in one
way. A list is accepted if it has entries and each of them is, and then names the boards of the
first entry, those of the second and so on; it is refused as the first entry that is refused. Only a
list of blanks is refused for naming no board. -/
theorem expands_grammar :
    (∀ entry r, expand entry = r ↔ ∃ t, TrimsTo entry.toList t ∧ Reads t r) ∧
    (∀ list boards, expandList list = .ok boards ↔
      entries list ≠ [] ∧ ∃ parts,
        List.Forall₂ (fun e part ↦ expand e = .ok part) (entries list) parts ∧
          parts.flatten = boards) ∧
    (∀ list error, expandList list = .error error ↔
      (entries list = [] ∧ error = .noHosts) ∨
        ∃ front e back, entries list = front ++ e :: back ∧
          (∀ x ∈ front, ∃ boards, expand x = .ok boards) ∧ expand e = .error error) ∧
    ∀ list, expandList list = .error .noHosts ↔
      ∀ e ∈ list.toList.splitOn ',', ∀ c ∈ e, isBlank c = true :=
  ⟨fun _ _ ↦ expand_eq_iff, fun _ _ ↦ expandList_eq_ok_iff, fun _ _ ↦ expandList_eq_error_iff,
    fun _ ↦ expandList_eq_noHosts_iff⟩

end HashBoard.Endpoint
