import HashBoard.Settings
import HashBoard.Proofs.Text.Reading
import Mathlib.Data.UInt
import Mathlib.Data.List.Nodup
import Mathlib.Logic.Function.Basic

/-!
# Settings and their variables

Apart from the boards, each field of the settings has a variable of its own: a number, a flag or the
name of a file. What a variable has to hold to be read is a relation (`Knob.Reads`), and a field is
what its variable is read as, or the default if it cannot be read. So a field depends on no other
variable, and a variable that cannot be read may as well be unset. Only the list of boards decides
whether there are settings at all.

Numbers are compared as they come out, in the unit of the field and within its range, so that one
statement serves fields of every width.
-/

namespace HashBoard

open Text

namespace Settings

/-! ### Fields -/

/-- A number among the settings. -/
inductive Number
  | transportTimeout | railA | railB | targetClock | mixers | workDelay | patience | numerator
  | denominator | autoTune | telemetryInterval
  deriving DecidableEq, Repr

/-- A flag among the settings. -/
inductive Flag
  | skipStallDetection | dieOnError | forceDag | skipDagWait | cacheUpload | polledNonces
  | showStackStats
  deriving DecidableEq, Repr

/-- A field of the settings, the boards aside. -/
inductive Knob
  | number (n : Number)
  | flag (f : Flag)
  | tuneFile
  deriving DecidableEq, Repr

/-- What a field holds. -/
inductive Value
  | number (n : Nat)
  | flag (on : Bool)
  | path (file : Option String)
  deriving DecidableEq, Repr

/-- The variable of a number. -/
def Number.name : Number → String
  | .transportTimeout => "HBM_TIMEOUT_MS"
  | .railA => "HBM_RAIL_A_MV"
  | .railB => "HBM_RAIL_B_MV"
  | .targetClock => "HBM_CLOCK_MHZ"
  | .mixers => "HBM_DAG_MIXERS"
  | .workDelay => "HBM_WORK_DELAY_US"
  | .patience => "HBM_PATIENCE"
  | .numerator => "HBM_INTENSITY_N"
  | .denominator => "HBM_INTENSITY_D"
  | .autoTune => "HBM_AUTOTUNE"
  | .telemetryInterval => "HBM_TELEMETRY_SECS"

/-- The greatest number that is read: times have 64 bits, patience, intensity and tuning eight, all
others 32. -/
def Number.bound : Number → Nat
  | .transportTimeout | .workDelay | .telemetryInterval => 2 ^ 64 - 1
  | .patience | .numerator | .denominator | .autoTune => 2 ^ 8 - 1
  | .railA | .railB | .targetClock | .mixers => 2 ^ 32 - 1

/-- What a number that is read comes to: times are kept in microseconds, and there are from one to
21 mixers. -/
def Number.scaled : Number → Nat → Nat
  | .transportTimeout, m => 1_000 * m
  | .telemetryInterval, m => 1_000_000 * m
  | .mixers, m => max 1 (min m 21)
  | _, m => m

/-- A number of the settings. -/
def Number.get (s : Settings) : Number → Nat
  | .transportTimeout => s.transportTimeout
  | .railA => s.railA.toNat
  | .railB => s.railB.toNat
  | .targetClock => s.targetClock.toNat
  | .mixers => s.mixers.toNat
  | .workDelay => s.workDelay
  | .patience => s.intensity.patience.toNat
  | .numerator => s.intensity.numerator.toNat
  | .denominator => s.intensity.denominator.toNat
  | .autoTune => s.autoTune.toNat
  | .telemetryInterval => s.telemetryInterval

/-- The variable of a flag. -/
def Flag.name : Flag → String
  | .skipStallDetection => "HBM_SKIP_STALL_DETECT"
  | .dieOnError => "HBM_DIE_ON_ERROR"
  | .forceDag => "HBM_FORCE_DAG"
  | .skipDagWait => "HBM_SKIP_DAG_WAIT"
  | .cacheUpload => "HBM_CACHE_UPLOAD"
  | .polledNonces => "HBM_POLLED_NONCES"
  | .showStackStats => "HBM_SHOW_STACK_STATS"

/-- Whether a flag of the settings is on. -/
def Flag.get (s : Settings) : Flag → Bool
  | .skipStallDetection => s.skipStallDetection
  | .dieOnError => s.dieOnError
  | .forceDag => s.forceDag
  | .skipDagWait => s.skipDagWait
  | .cacheUpload => s.cacheStrategy = .upload
  | .polledNonces => s.nonceReporting = .polled
  | .showStackStats => s.showStackStats

/-- The variable of a field. -/
def Knob.name : Knob → String
  | .number n => n.name
  | .flag f => f.name
  | .tuneFile => "HBM_TUNE_FILE"

/-- A field of the settings. -/
def Knob.get (s : Settings) : Knob → Value
  | .number n => .number (n.get s)
  | .flag f => .flag (f.get s)
  | .tuneFile => .path s.tuneFile

/-- All fields. -/
def Knob.all : List Knob :=
  [.number .transportTimeout, .number .railA, .number .railB, .number .targetClock, .number .mixers,
    .number .workDelay, .number .patience, .number .numerator, .number .denominator,
    .number .autoTune, .number .telemetryInterval, .flag .skipStallDetection, .flag .dieOnError,
    .flag .forceDag, .flag .skipDagWait, .flag .cacheUpload, .flag .polledNonces,
    .flag .showStackStats, .tuneFile]

theorem Knob.mem_all (k : Knob) : k ∈ all := by
  cases k with
  | number n => cases n <;> decide
  | flag f => cases f <;> decide
  | tuneFile => decide

/-- The settings are the boards and the fields. -/
theorem eq_iff_get {s t : Settings} :
    s = t ↔ s.hosts = t.hosts ∧ ∀ k : Knob, k.get s = k.get t := by
  constructor
  · rintro rfl
    exact ⟨rfl, fun _ ↦ rfl⟩
  · rintro ⟨hosts, fields⟩
    have number (n : Number) : n.get s = n.get t := Value.number.inj (fields (.number n))
    have flag (f : Flag) : f.get s = f.get t := Value.flag.inj (fields (.flag f))
    have upload : s.cacheStrategy = t.cacheStrategy := by
      have := flag .cacheUpload
      cases hs : s.cacheStrategy <;> cases ht : t.cacheStrategy <;>
        simp [Flag.get, hs, ht] at this ⊢
    have polled : s.nonceReporting = t.nonceReporting := by
      have := flag .polledNonces
      cases hs : s.nonceReporting <;> cases ht : t.nonceReporting <;>
        simp [Flag.get, hs, ht] at this ⊢
    have intensity : s.intensity = t.intensity := by
      have eta (i : Intensity) : i = ⟨i.patience, i.numerator, i.denominator⟩ := rfl
      rw [eta s.intensity, eta t.intensity, UInt8.toNat_inj.mp (number .patience),
        UInt8.toNat_inj.mp (number .numerator), UInt8.toNat_inj.mp (number .denominator)]
    cases s
    cases t
    simp only [mk.injEq]
    exact ⟨hosts, number .transportTimeout, UInt32.toNat_inj.mp (number .railA),
      UInt32.toNat_inj.mp (number .railB), UInt32.toNat_inj.mp (number .targetClock),
      UInt32.toNat_inj.mp (number .mixers), number .workDelay, intensity,
      flag .skipStallDetection, flag .dieOnError, flag .forceDag, flag .skipDagWait, upload, polled,
      flag .showStackStats, UInt8.toNat_inj.mp (number .autoTune),
      Value.path.inj (fields .tuneFile), number .telemetryInterval⟩

/-- No two fields share a variable. -/
theorem name_injective : Function.Injective Knob.name := by
  have nodup : (Knob.all.map Knob.name).Nodup := by decide +kernel
  intro j k same
  exact List.inj_on_of_nodup_map nodup j.mem_all k.mem_all same

/-- No field has the variable of the boards. -/
theorem name_ne_hosts (k : Knob) : k.name ≠ "HBM_HOSTS" := by
  have others : ∀ k ∈ Knob.all, k.name ≠ "HBM_HOSTS" := by decide +kernel
  exact others k k.mem_all

/-! ### Reading a variable -/

/-- The number in a variable that is text and, trimmed, spells it. -/
def NumberIn (bound : Nat) (v : Variable) (m : Nat) : Prop :=
  ∃ text t, v = .text text ∧ TrimsTo text.toList t ∧ Spells t m ∧ m ≤ bound

/-- A variable that is text and, trimmed, one of the words for yes in any case. -/
def SaysYes (v : Variable) : Prop :=
  ∃ text t, v = .text text ∧ TrimsTo text.toList t ∧
    String.ofList (t.map Char.toLower) ∈ ["1", "true", "yes"]

/-- A variable can be read for a field, and the field then holds a value. A flag cannot be read as
off: it is off when it does not say yes. -/
inductive Knob.Reads (v : Variable) : Knob → Value → Prop
  | number {n : Number} {m : Nat} (holds : NumberIn n.bound v m) :
    Reads v (.number n) (.number (n.scaled m))
  | flag {f : Flag} (yes : SaysYes v) : Reads v (.flag f) (.flag true)
  | tuneFile {file : String} (text : v = .text file) : Reads v .tuneFile (.path (some file))

/-- Nothing that is not text can be read. -/
theorem Knob.not_reads {v : Variable} (raw : ∀ text, v ≠ .text text) (k : Knob) (x : Value) :
    ¬ k.Reads v x := by
  rintro (⟨text, _, held, _⟩ | ⟨text, _, held, _⟩ | held)
  · exact raw text held
  · exact raw text held
  · exact raw _ held

theorem text?_eq_some_iff {env : Environment} {name text : String} :
    env.text? name = some text ↔ env name = .text text := by
  rw [Environment.text?]
  cases env name <;> simp

theorem number?_eq_some_iff {env : Environment} {bound m : Nat} {name : String} :
    env.number? bound name = some m ↔ NumberIn bound (env name) m := by
  rw [Environment.number?, Option.bind_eq_some_iff]
  constructor
  · rintro ⟨text, held, read⟩
    obtain ⟨spells, le⟩ := numeral?_eq_some_iff.mp read
    exact ⟨text, _, text?_eq_some_iff.mp held, trimsTo_trim _, spells, le⟩
  · rintro ⟨text, t, held, trims, spells, le⟩
    refine ⟨text, text?_eq_some_iff.mpr held, ?_⟩
    rw [trims.trim_eq]
    exact numeral?_eq_some_iff.mpr ⟨spells, le⟩

theorem unread_number_iff {env : Environment} {n : Number} :
    (∀ x, ¬ Knob.Reads (env n.name) (.number n) x) ↔ env.number? n.bound n.name = none := by
  constructor
  · intro unread
    rw [Option.eq_none_iff_forall_ne_some]
    exact fun m read ↦ unread _ (.number (number?_eq_some_iff.mp read))
  · rintro none _ ⟨holds⟩
    rw [number?_eq_some_iff.mpr holds] at none
    exact Option.some_ne_none _ none

theorem lowered_eq_toLower (c : Char) : Environment.lowered c = c.toLower := by
  have same : 'A' ≤ c ∧ c ≤ 'Z' ↔ c.val ≥ 'A'.val ∧ c.val ≤ 'Z'.val := Iff.rfl
  rw [Environment.lowered]
  by_cases capital : 'A' ≤ c ∧ c ≤ 'Z'
  · have lower : c.toLower = _ := dif_pos (same.mp capital)
    have last : c.toNat ≤ 90 := capital.2
    have valid : (c.toNat + 32).isValidChar := .inl (by omega)
    rw [if_pos capital, lower, Char.ofNat, dif_pos valid, ← Char.toNat_inj]
    have : (c.val + ('a'.val - 'A'.val)).toNat = (c.toNat + 32) % 2 ^ 32 := UInt32.toNat_add _ _
    exact (this.trans (Nat.mod_eq_of_lt (by omega))).symm
  · have lower : c.toLower = c := dif_neg (mt same.mpr capital)
    rw [if_neg capital, lower]

theorem flag_eq_true_iff {env : Environment} {name : String} :
    env.flag name = true ↔ SaysYes (env name) := by
  have lowered : Environment.lowered = Char.toLower := funext lowered_eq_toLower
  rw [Environment.flag, lowered]
  constructor
  · intro on
    split at on
    · rename_i text held
      exact ⟨text, _, text?_eq_some_iff.mp held, trimsTo_trim _, List.contains_iff_mem.mp on⟩
    · exact absurd on Bool.false_ne_true
  · rintro ⟨text, t, held, trims, yes⟩
    rw [text?_eq_some_iff.mpr held]
    dsimp only
    rw [trims.trim_eq]
    exact List.contains_iff_mem.mpr yes

theorem unread_flag_iff {env : Environment} {f : Flag} :
    (∀ x, ¬ Knob.Reads (env f.name) (.flag f) x) ↔ env.flag f.name = false := by
  rw [← Bool.not_eq_true, flag_eq_true_iff]
  constructor
  · exact fun unread yes ↦ unread _ (.flag yes)
  · intro silent x reads
    cases reads with
    | flag yes => exact silent yes

/-! ### The fields of the settings of an environment -/

variable {env : Environment} {hosts : List Endpoint}

theorem NumberIn.le {bound m : Nat} {v : Variable} (h : NumberIn bound v m) : m ≤ bound := by
  obtain ⟨text, t, -, -, -, le⟩ := h
  exact le

theorem toNat_clampMixers (requested : Word) :
    (clampMixers requested).toNat = max 1 (min requested.toNat 21) := by
  have one : (1 : Word).toNat = 1 := rfl
  have most : Reg.maxMixers.toNat = 21 := rfl
  rw [clampMixers]
  simp only [UInt32.lt_iff_toNat_lt, one, most]
  split
  · omega
  · split
    · omega
    · omega

/-- A number that fits the type it is kept in comes out again. -/
theorem getD_map_of_fits {α : Type} {keep : Nat → α} {number : α → Nat} {o : Option Nat}
    (fits : ∀ m, o = some m → number (keep m) = m) (default : α) :
    number ((o.map keep).getD default) = o.getD (number default) := by
  cases o with
  | none => rfl
  | some m => exact fits m rfl

theorem toNat_getD_word (name : String) (default : Word) :
    ((word? env name).getD default).toNat = (env.number? (2 ^ 32 - 1) name).getD default.toNat := by
  have size : UInt32.size - 1 = 2 ^ 32 - 1 := rfl
  rw [word?, size]
  refine getD_map_of_fits (fun m read ↦ ?_) default
  have := (number?_eq_some_iff.mp read).le
  exact UInt32.toNat_ofNat_of_lt' (show m < 2 ^ 32 by omega)

theorem toNat_getD_byte (name : String) (default : UInt8) :
    ((byte? env name).getD default).toNat = (env.number? (2 ^ 8 - 1) name).getD default.toNat := by
  have size : UInt8.size - 1 = 2 ^ 8 - 1 := rfl
  rw [byte?, size]
  refine getD_map_of_fits (fun m read ↦ ?_) default
  have := (number?_eq_some_iff.mp read).le
  exact UInt8.toNat_ofNat_of_lt' (show m < 2 ^ 8 by omega)

/-- A number of the settings is the one in its variable, or the default. -/
theorem Number.get_withHosts (n : Number) :
    n.get (withHosts env hosts) = ((env.number? n.bound n.name).map n.scaled).getD (n.get {}) := by
  have unscaled (o : Option Nat) (default : Nat) : o.getD default = (o.map id).getD default := by
    rw [Option.map_id_fun, id]
  cases n with
  | transportTimeout | telemetryInterval => rfl
  | workDelay =>
    have same : (1 * ·) = Number.scaled .workDelay := funext Nat.one_mul
    rw [← same]
    rfl
  | railA | railB | targetClock => exact (toNat_getD_word _ _).trans (unscaled _ _)
  | patience | numerator | denominator | autoTune =>
    exact (toNat_getD_byte _ _).trans (unscaled _ _)
  | mixers =>
    -- the default is within the range, so it may as well be brought there too
    have kept : scaled .mixers (get {} .mixers) = get {} .mixers := rfl
    rw [← kept, Option.getD_map]
    exact (toNat_clampMixers _).trans (congrArg (scaled .mixers) (toNat_getD_word _ _))

theorem Flag.get_default (f : Flag) : f.get {} = false := by
  cases f <;> rfl

theorem Flag.get_withHosts (f : Flag) : f.get (withHosts env hosts) = env.flag f.name := by
  have upload (on : Bool) :
      decide ((if on then CacheStrategy.upload else .onChip) = .upload) = on := by
    cases on <;> rfl
  have polled (on : Bool) :
      decide ((if on then NonceReporting.polled else .interrupt) = .polled) = on := by
    cases on <;> rfl
  cases f with
  | cacheUpload => exact upload _
  | polledNonces => exact polled _
  | skipStallDetection | dieOnError | forceDag | skipDagWait | showStackStats => rfl

/-- A field is what its variable is read as. -/
theorem get_of_reads {k : Knob} {x : Value} (reads : k.Reads (env k.name) x) :
    k.get (withHosts env hosts) = x := by
  cases reads with
  | @number n m holds =>
    have read : env.number? n.bound n.name = some m := number?_eq_some_iff.mpr holds
    rw [Knob.get, Number.get_withHosts, read, Option.map_some, Option.getD_some]
  | @flag f yes =>
    have on : env.flag f.name = true := flag_eq_true_iff.mpr yes
    rw [Knob.get, Flag.get_withHosts, on]
  | tuneFile held => exact congrArg Value.path (text?_eq_some_iff.mpr held)

/-- A field whose variable cannot be read stays at its default. -/
theorem get_of_unread {k : Knob} (unread : ∀ x, ¬ k.Reads (env k.name) x) :
    k.get (withHosts env hosts) = k.get {} := by
  cases k with
  | number n =>
    have none : env.number? n.bound n.name = none := unread_number_iff.mp unread
    rw [Knob.get, Number.get_withHosts, none, Option.map_none, Option.getD_none, Knob.get]
  | flag f =>
    have off : env.flag f.name = false := unread_flag_iff.mp unread
    rw [Knob.get, Flag.get_withHosts, off, Knob.get, f.get_default]
  | tuneFile =>
    have none : env.text? "HBM_TUNE_FILE" = none :=
      Option.eq_none_iff_forall_ne_some.mpr fun _ held ↦
        unread _ (.tuneFile (text?_eq_some_iff.mp held))
    exact congrArg Value.path none

/-! ### Settings of an environment -/

/-- What settings have to do with the environment they come from. Nothing here speaks of more than
one variable at a time. -/
structure Describes (env : Environment) (s : Settings) : Prop where
  /-- The boards are those of the list. -/
  hosts : ∃ list, env "HBM_HOSTS" = .text list ∧ Endpoint.expandList list = .ok s.hosts
  /-- A field is what its variable is read as. -/
  read : ∀ k x, Knob.Reads (env k.name) k x → k.get s = x
  /-- If its variable cannot be read, it is the default. -/
  unread : ∀ k, (∀ x, ¬ Knob.Reads (env k.name) k x) → k.get s = k.get {}

theorem describes_withHosts {list : String} (held : env "HBM_HOSTS" = .text list)
    (accepted : Endpoint.expandList list = .ok hosts) : Describes env (withHosts env hosts) where
  hosts := ⟨list, held, accepted⟩
  read _ _ := get_of_reads
  unread _ := get_of_unread

/-- A field depends on its own variable only. -/
theorem Describes.get_eq {env' : Environment} {s t : Settings} {k : Knob} (hs : Describes env s)
    (ht : Describes env' t) (same : env k.name = env' k.name) : k.get s = k.get t := by
  by_cases readable : ∃ x, k.Reads (env k.name) x
  · obtain ⟨x, reads⟩ := readable
    rw [hs.read k x reads, ht.read k x (same ▸ reads)]
  · have unread := not_exists.mp readable
    rw [hs.unread k unread, ht.unread k (same ▸ unread)]

/-- An environment describes one list of boards at most. -/
theorem Describes.hosts_eq {env' : Environment} {s t : Settings} (hs : Describes env s)
    (ht : Describes env' t) (same : env "HBM_HOSTS" = env' "HBM_HOSTS") : s.hosts = t.hosts := by
  obtain ⟨list, held, accepted⟩ := hs.hosts
  obtain ⟨list', held', accepted'⟩ := ht.hosts
  obtain rfl : list = list' := Variable.text.inj (held.symm.trans (same.trans held'))
  exact Except.ok.inj (accepted.symm.trans accepted')

theorem Describes.unique {s t : Settings} (hs : Describes env s) (ht : Describes env t) : s = t :=
  eq_iff_get.mpr ⟨hs.hosts_eq ht rfl, fun _ ↦ hs.get_eq ht rfl⟩

theorem ofEnvironment_of_unset (unset : ∀ list, env "HBM_HOSTS" ≠ .text list) :
    ofEnvironment env = .ok none := by
  have none : env.text? "HBM_HOSTS" = none :=
    Option.eq_none_iff_forall_ne_some.mpr fun list held ↦ unset list (text?_eq_some_iff.mp held)
  rw [ofEnvironment, none]

theorem ofEnvironment_of_text {list : String} (held : env "HBM_HOSTS" = .text list) :
    ofEnvironment env = (Endpoint.expandList list).map fun hosts ↦ some (withHosts env hosts) := by
  rw [ofEnvironment, text?_eq_some_iff.mpr held]

/-- No list of boards, one that is refused, or settings: the list alone decides which. -/
theorem ofEnvironment_cases (env : Environment) :
    ((∀ list, env "HBM_HOSTS" ≠ .text list) ∧ ofEnvironment env = .ok none) ∨
    (∃ e, (∃ list, env "HBM_HOSTS" = .text list ∧ Endpoint.expandList list = .error e) ∧
      ofEnvironment env = .error e) ∨
    ∃ s, Describes env s ∧ ofEnvironment env = .ok (some s) := by
  by_cases text : ∃ list, env "HBM_HOSTS" = .text list
  · obtain ⟨list, held⟩ := text
    have outcome := ofEnvironment_of_text held
    cases expanded : Endpoint.expandList list with
    | error e =>
      rw [expanded] at outcome
      exact .inr (.inl ⟨e, ⟨list, held, expanded⟩, outcome⟩)
    | ok hosts =>
      rw [expanded] at outcome
      exact .inr (.inr ⟨_, describes_withHosts held expanded, outcome⟩)
  · have unset := not_exists.mp text
    exact .inl ⟨unset, ofEnvironment_of_unset unset⟩

theorem ofEnvironment_eq_none_iff :
    ofEnvironment env = .ok none ↔ ∀ list, env "HBM_HOSTS" ≠ .text list := by
  refine ⟨fun h ↦ ?_, ofEnvironment_of_unset⟩
  obtain ⟨unset, -⟩ | ⟨e, -, h'⟩ | ⟨s, -, h'⟩ := ofEnvironment_cases env
  · exact unset
  · cases h.symm.trans h'
  · cases h.symm.trans h'

theorem ofEnvironment_eq_error_iff {e : HostError} :
    ofEnvironment env = .error e ↔
      ∃ list, env "HBM_HOSTS" = .text list ∧ Endpoint.expandList list = .error e := by
  constructor
  · intro h
    obtain ⟨-, h'⟩ | ⟨e, refused, h'⟩ | ⟨s, -, h'⟩ := ofEnvironment_cases env
    · cases h.symm.trans h'
    · cases h.symm.trans h'
      exact refused
    · cases h.symm.trans h'
  · rintro ⟨list, held, refused⟩
    rw [ofEnvironment_of_text held, refused]
    rfl

/-- The settings of an environment are the ones that it describes. -/
theorem ofEnvironment_eq_some_iff {s : Settings} :
    ofEnvironment env = .ok (some s) ↔ Describes env s := by
  constructor
  · intro h
    obtain ⟨-, h'⟩ | ⟨e, -, h'⟩ | ⟨t, described, h'⟩ := ofEnvironment_cases env
    · cases h.symm.trans h'
    · cases h.symm.trans h'
    · cases h.symm.trans h'
      exact described
  · intro described
    obtain ⟨list, held, accepted⟩ := described.hosts
    rw [ofEnvironment_of_text held, accepted,
      described.unique (describes_withHosts held accepted)]
    rfl

/-- Another value in a variable other than the list of boards: there are still settings, with the
same boards, and only the field of the variable may differ. -/
theorem Describes.update {s : Settings} {name : String} (h : Describes env s)
    (other : name ≠ "HBM_HOSTS") (v : Variable) :
    ∃ t, Describes (Function.update env name v) t ∧ t.hosts = s.hosts ∧
      ∀ k : Knob, k.get t ≠ k.get s → k.name = name := by
  obtain ⟨list, held, accepted⟩ := h.hosts
  have same : Function.update env name v "HBM_HOSTS" = env "HBM_HOSTS" :=
    Function.update_of_ne other.symm _ _
  have described := describes_withHosts (same.trans held) accepted
  refine ⟨_, described, rfl, fun k differs ↦ ?_⟩
  by_contra elsewhere
  exact differs (described.get_eq h (Function.update_of_ne elsewhere _ _))

/-- Unsetting a variable that cannot be read changes nothing. -/
theorem Describes.unset {s : Settings} {k : Knob} (h : Describes env s)
    (unread : ∀ x, ¬ k.Reads (env k.name) x) :
    Describes (Function.update env k.name .unset) s := by
  obtain ⟨t, described, hosts, differs⟩ := h.update (name_ne_hosts k) .unset
  have fields (j : Knob) : j.get t = j.get s := by
    by_cases own : j.name = k.name
    · obtain rfl := name_injective own
      have blank : ∀ x, ¬ j.Reads (Function.update env j.name .unset j.name) x := by
        rw [Function.update_self]
        exact Knob.not_reads (fun _ ↦ Variable.noConfusion) j
      rw [h.unread j unread, described.unread j blank]
    · by_contra changed
      exact own (differs j changed)
  rwa [eq_iff_get.mpr ⟨hosts, fields⟩] at described

theorem Describes.flag_iff {s : Settings} {f : Flag} (h : Describes env s) :
    f.get s = true ↔ SaysYes (env f.name) := by
  constructor
  · intro on
    by_contra silent
    have off : env.flag f.name = false := Bool.eq_false_iff.mpr (mt flag_eq_true_iff.mp silent)
    have default : f.get s = f.get {} :=
      Value.flag.inj (h.unread (.flag f) (unread_flag_iff.mpr off))
    rw [default, f.get_default] at on
    exact Bool.false_ne_true on
  · intro yes
    exact Value.flag.inj (h.read (.flag f) _ (.flag yes))

theorem Describes.mixers_mem {s : Settings} (h : Describes env s) :
    1 ≤ s.mixers.toNat ∧ s.mixers.toNat ≤ 21 := by
  by_cases readable : ∃ m, NumberIn (Number.bound .mixers) (env (Number.name .mixers)) m
  · obtain ⟨m, holds⟩ := readable
    have read : s.mixers.toNat = max 1 (min m 21) :=
      Value.number.inj (h.read (.number .mixers) _ (.number holds))
    omega
  · have unread : ∀ x, ¬ Knob.Reads (env (Number.name .mixers)) (.number .mixers) x := by
      rintro _ ⟨holds⟩
      exact readable ⟨_, holds⟩
    have default : s.mixers.toNat = 8 := Value.number.inj (h.unread (.number .mixers) unread)
    omega

/-- Whether there are settings is up to the list of boards. If there are, a field is what its own
variable is read as, or its default, so setting another variable differently leaves it alone, and a
variable that cannot be read may as well be unset. A flag is on if its variable says yes, and there
are from one to 21 mixers. -/
theorem ofEnvironment_apart :
    (Function.Injective Knob.name ∧ ∀ k : Knob, k.name ≠ "HBM_HOSTS") ∧
    (∀ s t : Settings, s = t ↔ s.hosts = t.hosts ∧ ∀ k : Knob, k.get s = k.get t) ∧
    ∀ env : Environment,
      (ofEnvironment env = .ok none ↔ ∀ list, env "HBM_HOSTS" ≠ .text list) ∧
      (∀ e, ofEnvironment env = .error e ↔
        ∃ list, env "HBM_HOSTS" = .text list ∧ Endpoint.expandList list = .error e) ∧
      (∀ s, ofEnvironment env = .ok (some s) ↔ Describes env s) ∧
      ∀ s, ofEnvironment env = .ok (some s) →
        (∀ name v, name ≠ "HBM_HOSTS" →
          ∃ t, ofEnvironment (Function.update env name v) = .ok (some t) ∧ t.hosts = s.hosts ∧
            ∀ k : Knob, k.get t ≠ k.get s → k.name = name) ∧
        (∀ k : Knob, (∀ x, ¬ k.Reads (env k.name) x) →
          ofEnvironment (Function.update env k.name .unset) = .ok (some s)) ∧
        (∀ f : Flag, f.get s = true ↔ SaysYes (env f.name)) ∧
        1 ≤ s.mixers.toNat ∧ s.mixers.toNat ≤ 21 := by
  refine ⟨⟨name_injective, name_ne_hosts⟩, fun _ _ ↦ eq_iff_get, fun env ↦
    ⟨ofEnvironment_eq_none_iff, fun _ ↦ ofEnvironment_eq_error_iff,
      fun _ ↦ ofEnvironment_eq_some_iff, fun s h ↦ ?_⟩⟩
  have described := ofEnvironment_eq_some_iff.mp h
  refine ⟨fun name v other ↦ ?_, fun k unread ↦ ?_, fun _ ↦ described.flag_iff,
    described.mixers_mem⟩
  · obtain ⟨t, updated, hosts, differs⟩ := described.update other v
    exact ⟨t, ofEnvironment_eq_some_iff.mpr updated, hosts, differs⟩
  · exact ofEnvironment_eq_some_iff.mpr (described.unset unread)

/-- Bytes for the patience and a numerator that needs nine bits may as well not be there, and
setting the clock changes neither the boards nor the number of mixers, which is brought into
range. -/
theorem ofEnvironment_apart_of_garbled :
    let env : Environment := fun name ↦
      ([("HBM_HOSTS", .text "rack:1-2"), ("HBM_DAG_MIXERS", .text " +64 "),
        ("HBM_PATIENCE", .bytes [0xff]), ("HBM_INTENSITY_N", .text "256"),
        ("HBM_FORCE_DAG", .text " Yes")] : List (String × Variable)).lookup name |>.getD .unset
    let s := withHosts env [⟨"rack", 1⟩, ⟨"rack", 2⟩]
    ofEnvironment env = .ok (some s) ∧ s.mixers = 21 ∧ s.forceDag = true ∧
      ofEnvironment (Function.update env "HBM_PATIENCE" .unset) = .ok (some s) ∧
      ofEnvironment (Function.update env "HBM_INTENSITY_N" .unset) = .ok (some s) ∧
      ∃ t : Settings,
        ofEnvironment (Function.update env "HBM_CLOCK_MHZ" (.text "600")) = .ok (some t) ∧
          t.hosts = s.hosts ∧ t.mixers = s.mixers := by
  intro env s
  have settings : ofEnvironment env = .ok (some s) := by
    have held : env "HBM_HOSTS" = .text "rack:1-2" := by decide +kernel
    have accepted : Endpoint.expandList "rack:1-2" = .ok [⟨"rack", 1⟩, ⟨"rack", 2⟩] := by
      decide +kernel
    rw [ofEnvironment_of_text held, accepted]
    rfl
  obtain ⟨change, unset, -⟩ := (ofEnvironment_apart.2.2 env).2.2.2 s settings
  have patience := (@unread_number_iff env .patience).mpr (by decide +kernel)
  have numerator := (@unread_number_iff env .numerator).mpr (by decide +kernel)
  obtain ⟨t, changed, hosts, differs⟩ := change "HBM_CLOCK_MHZ" (.text "600") (by decide)
  refine ⟨settings, by decide +kernel, by decide +kernel,
    unset (.number .patience) patience, unset (.number .numerator) numerator, t, changed, hosts, ?_⟩
  by_contra moved
  have := differs (.number .mixers) fun same ↦ moved (UInt32.toNat_inj.mp (Value.number.inj same))
  exact absurd this (by decide)

end Settings

end HashBoard
