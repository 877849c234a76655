import SourceLint.Config.Options
import SourceLint.Proofs.Config.Conversion
import SourceLint.Proofs.Config.Normal

/-!
# Reading tables of options

Each option has a kind of values. When the table of a rule is read, the first option that the rule knows and
whose value is not of its kind is reported, in the order of the names. If there is none, the options have the
values that are given, and the defaults elsewhere. Other names in the table mean nothing.
-/

namespace SourceLint

/-- The kinds of values of options. -/
inductive OptionKind where
  | severity
  | threshold
  | flag
deriving DecidableEq

/-- The values of options. -/
inductive OptionValue where
  | severity (severity : Severity)
  | threshold (threshold : Threshold)
  | flag (flag : Bool)
deriving DecidableEq

namespace OptionKind

/-- The value of the kind that a document gives: a severity by its name, a threshold as an integer of at least
one, and a flag as a boolean. -/
def read? : OptionKind → Toml.Value → Option OptionValue
  | severity, .string name => (Severity.ofName? name).map .severity
  | threshold, .integer n => if h : 1 ≤ n then some (.threshold ⟨n.toNat, by omega⟩) else none
  | flag, .boolean b => some (.flag b)
  | _, _ => none

/-- What is wrong with a value that is not of the kind. -/
def fault : OptionKind → Toml.Value → OptionFault
  | severity, .string name => .unknownSeverity name
  | severity, value => .wrongKind (Json.ofToml value) "a string"
  | threshold, .integer n => if n < 0 then .negative n else .tooSmall ⟨n.toNat⟩
  | threshold, value => .wrongKind (Json.ofToml value) "usize"
  | flag, value => .wrongKind (Json.ofToml value) "a boolean"

/-- A reader finds the values of a kind and no others. -/
def ReadBy {β : Type} (kind : OptionKind) (make : β → OptionValue)
    (read : Json → Except OptionFault β) : Prop :=
  ∀ value : Toml.Value, (∀ text, value ≠ .datetime text) →
    (read (Json.ofToml value)).map make = (kind.read? value).elim (.error (kind.fault value)) .ok

theorem readBy_severity : severity.ReadBy .severity Options.readSeverity := by
  intro value hdate
  cases value with
  | string name =>
      rw [Json.ofToml, Options.readSeverity, read?]
      cases Severity.ofName? name <;> rfl
  | datetime text => exact absurd rfl (hdate text)
  | float x =>
      cases hfinite : x.isFinite <;>
        simp [Json.ofToml, hfinite, Options.readSeverity, read?, fault, Except.map]
  | _ => rfl

theorem readBy_threshold : threshold.ReadBy .threshold Options.readThreshold := by
  intro value _
  cases value with
  | integer n =>
      rw [Json.ofToml, Options.readThreshold, read?, fault, Threshold.ofNat]
      by_cases hnegative : n < 0
      · have hn : ¬1 ≤ n := by omega
        rw [if_pos hnegative, if_pos hnegative, dif_neg hn]
        rfl
      · rw [if_neg hnegative, if_neg hnegative]
        by_cases hn : 1 ≤ n
        · have hcount : 1 ≤ n.toNat := by omega
          rw [dif_pos hn, dif_pos hcount]
          rfl
        · have hcount : ¬1 ≤ n.toNat := by omega
          rw [dif_neg hn, dif_neg hcount]
          rfl
  | float x =>
      cases hfinite : x.isFinite <;>
        simp [Json.ofToml, hfinite, Options.readThreshold, read?, fault, Except.map]
  | _ => rfl

theorem readBy_flag : flag.ReadBy .flag Options.readFlag := by
  intro value _
  cases value with
  | float x =>
      cases hfinite : x.isFinite <;>
        simp [Json.ofToml, hfinite, Options.readFlag, read?, fault, Except.map]
  | _ => rfl

end OptionKind

/-- The table of a rule, or the empty one if the configuration has none for it. -/
def Config.optionsOf (config : Config) (rule : String) : Toml.Table := (config.rule? rule).getD []

namespace Options

/-! ### Malformed options -/

section Malformed

variable (kindOf : String → Option OptionKind) (table : Toml.Table)

/-- An option that is known and whose value is not of its kind, with the fault of the value. -/
inductive Malformed (key : String) : OptionFault → Prop
  | intro {kind : OptionKind} {value : Toml.Value} (hkind : kindOf key = some kind)
    (hvalue : (key, value) ∈ table) (hread : kind.read? value = none) :
    Malformed key (kind.fault value)

/-- A malformed option before which, in the order of names, there is no other. -/
def FirstMalformed (key : String) (fault : OptionFault) : Prop :=
  Malformed kindOf table key fault ∧ ∀ key' < key, ∀ fault', ¬Malformed kindOf table key' fault'

/-- The value of a known option that the table has. -/
def valueOf? (key : String) : Option OptionValue :=
  (kindOf key).bind fun kind => (table.get? key).bind kind.read?

/-- The part of the table that is known. -/
def knownPart : Toml.Table := table.filter fun entry => (kindOf entry.1).isSome

end Malformed

variable {kindOf : String → Option OptionKind} {table : Toml.Table} {key : String} {fault : OptionFault}

theorem valueOf?_cons (entry : String × Toml.Value) (table : Toml.Table) (key : String) :
    valueOf? kindOf (entry :: table) key =
      if entry.1 = key then (kindOf key).bind fun kind => kind.read? entry.2
      else valueOf? kindOf table key := by
  rw [valueOf?, SortedTable.get?_cons]
  split <;> rfl

theorem valueOf?_nil (key : String) : valueOf? kindOf [] key = none := by
  cases hkind : kindOf key <;> simp [valueOf?, hkind, SortedTable.get?]

theorem valueOf?_eq_none (h : key ∉ table.map Prod.fst) : valueOf? kindOf table key = none := by
  induction table with
  | nil => exact valueOf?_nil key
  | cons entry table ih =>
      rw [List.map_cons, List.mem_cons, not_or] at h
      rw [valueOf?_cons, if_neg (Ne.symm h.1), ih h.2]

theorem valueOf?_cons_eq_or {entry : String × Toml.Value} (h : entry.1 ∉ table.map Prod.fst)
    (key : String) : valueOf? kindOf (entry :: table) key =
      (valueOf? kindOf table key).or (valueOf? kindOf [entry] key) := by
  rw [valueOf?_cons, valueOf?_cons, valueOf?_nil]
  split
  · rename_i hkey
    rw [← hkey, valueOf?_eq_none h, Option.none_or]
  · rw [Option.or_none]

/-- The entry is no malformed option. -/
def fits (kindOf : String → Option OptionKind) (entry : String × Toml.Value) : Bool :=
  (kindOf entry.1).all fun kind => (kind.read? entry.2).isSome

theorem exists_malformed_iff :
    (∃ fault, Malformed kindOf table key fault) ↔
      ∃ value, (key, value) ∈ table ∧ fits kindOf (key, value) = false := by
  constructor
  · rintro ⟨fault, hkind, hvalue, hread⟩
    exact ⟨_, hvalue, by simp [fits, hkind, hread]⟩
  · rintro ⟨value, hvalue, hfits⟩
    cases hkind : kindOf key with
    | none => simp [fits, hkind] at hfits
    | some kind =>
        have hread : kind.read? value = none := by simpa [fits, hkind] using hfits
        exact ⟨_, hkind, hvalue, hread⟩

theorem fits_of_not_malformed {entry : String × Toml.Value} (hentry : entry ∈ table)
    (h : ∀ fault, ¬Malformed kindOf table entry.1 fault) : fits kindOf entry = true := by
  rw [← Bool.not_eq_false]
  intro hfits
  obtain ⟨fault, hmalformed⟩ := exists_malformed_iff.2 ⟨entry.2, hentry, hfits⟩
  exact h fault hmalformed

/-- Where an option is malformed, one is the first. -/
theorem exists_firstMalformed (hascending : SortedTable.Ascending table)
    (h : Malformed kindOf table key fault) :
    ∃ key fault, FirstMalformed kindOf table key fault := by
  obtain ⟨front, rest, rfl, hfront, hrest⟩ := exists_span (fits kindOf) table
  obtain ⟨value, hvalue, hfits⟩ := exists_malformed_iff.1 ⟨fault, h⟩
  obtain ⟨-, hascendingRest, -⟩ := List.pairwise_append.1 hascending
  have hbehind : ∀ {entry}, entry ∈ front ++ rest → fits kindOf entry = false → entry ∈ rest := by
    intro entry hentry hfits
    refine (List.mem_append.1 hentry).resolve_left fun hmem => ?_
    rw [hfront entry hmem] at hfits
    cases hfits
  cases rest with
  | nil => cases hbehind hvalue hfits
  | cons first rest =>
      obtain ⟨fault', hmalformed⟩ :=
        exists_malformed_iff.2 ⟨first.2, List.mem_append_right front List.mem_cons_self, hrest first rfl⟩
      refine ⟨first.1, fault', hmalformed, ?_⟩
      intro key' hless fault'' h'
      obtain ⟨value', hvalue', hfits'⟩ := exists_malformed_iff.1 ⟨fault'', h'⟩
      rcases List.mem_cons.1 (hbehind hvalue' hfits') with rfl | hlater
      · exact lt_irrefl _ hless
      · exact lt_asymm hless ((List.pairwise_cons.1 hascendingRest).1 _ hlater)

/-! ### Reading a table -/

/-- The table of a rule in a configuration that was read: it is in order, its names are in their one spelling,
and it has no dates. -/
structure Readable (table : Toml.Table) : Prop where
  ascending : SortedTable.Ascending table
  names : ∀ entry ∈ table, normalizeKey entry.1 = entry.1
  dateless : ∀ entry ∈ table, ∀ text, entry.2 ≠ .datetime text

theorem Readable.sublist {table' : Toml.Table} (h : Readable table) (hsub : table'.Sublist table) :
    Readable table' where
  ascending := List.Pairwise.sublist hsub h.ascending
  names entry hentry := h.names entry (hsub.subset hentry)
  dateless entry hentry := h.dateless entry (hsub.subset hentry)

section Reading

variable {γ α : Type} (withField : γ → String × Json → Except OptionFault γ)
  (given? : γ → String → Option OptionValue)

/-- An option of a kind is read where none is given under its name yet. -/
structure ReadsField (key : String) (kind : OptionKind) : Prop where
  refuses : ∀ given value, (∀ text, value ≠ .datetime text) → given? given key = none →
    kind.read? value = none → withField given (key, Json.ofToml value) = .error (kind.fault value)
  takes : ∀ given value found, (∀ text, value ≠ .datetime text) → given? given key = none →
    kind.read? value = some found → ∃ more, withField given (key, Json.ofToml value) = .ok more ∧
      ∀ name, given? more name = if name = key then some found else given? given name

/-- The known options are read, and no others. -/
structure ReadsFields (kindOf : String → Option OptionKind) : Prop where
  ignores : ∀ given key value, kindOf key = none → withField given (key, value) = .ok given
  reads : ∀ key kind, kindOf key = some kind → normalizeKey key = key →
    ReadsField withField given? key kind

variable {withField : γ → String × Json → Except OptionFault γ} {given? : γ → String → Option OptionValue}

/-- An option that may be given once is read by the reader of its kind. -/
theorem readsField_of_once {β : Type} {kind : OptionKind} {make : β → OptionValue}
    {read : Json → Except OptionFault β} (hread : kind.ReadBy make read) (name : String)
    (get : γ → Option β) (set : γ → Option β → γ)
    (hfield : ∀ given value, withField given (key, value) =
      once name read (get given) value >>= fun found => .ok (set given found))
    (hget : ∀ given, given? given key = (get given).map make)
    (hset : ∀ given found, get (set given found) = found)
    (hkeep : ∀ given found name, name ≠ key → given? (set given found) name = given? given name) :
    ReadsField withField given? key kind := by
  have honce : ∀ given value, given? given key = none →
      withField given (key, value) = (read value).map fun found => set given (some found) := by
    intro given value hgiven
    rw [hget, Option.map_eq_none_iff] at hgiven
    rw [hfield, once, hgiven, Option.isSome_none, if_neg Bool.false_ne_true]
    cases read value <;> rfl
  constructor
  · intro given value hdate hgiven hnone
    have hvalue := hread value hdate
    rw [hnone, Option.elim_none, exceptMap_eq_error_iff] at hvalue
    rw [honce given _ hgiven, hvalue]
    rfl
  · intro given value found hdate hgiven hsome
    have hvalue := hread value hdate
    rw [hsome, Option.elim_some, exceptMap_eq_ok_iff] at hvalue
    obtain ⟨result, hresult, rfl⟩ := hvalue
    refine ⟨set given (some result), ?_, fun name => ?_⟩
    · rw [honce given _ hgiven, hresult]
      rfl
    · split
      · rename_i hname
        rw [hname, hget, hset, Option.map_some]
      · rename_i hname
        exact hkeep given _ name hname

/-- One field that is no malformed option is read. -/
theorem ReadsFields.exists_withField (h : ReadsFields withField given? kindOf)
    {entry : String × Toml.Value} (hname : normalizeKey entry.1 = entry.1)
    (hdate : ∀ text, entry.2 ≠ .datetime text) {given : γ} (hgiven : given? given entry.1 = none)
    (hfits : fits kindOf entry = true) :
    ∃ more, withField given (entry.1, Json.ofToml entry.2) = .ok more ∧
      ∀ key, given? more key = (valueOf? kindOf [entry] key).or (given? given key) := by
  cases hkind : kindOf entry.1 with
  | none =>
      refine ⟨given, h.ignores given entry.1 _ hkind, fun key => ?_⟩
      rw [valueOf?_cons]
      split
      · rename_i hkey
        rw [← hkey, hkind, Option.bind_none, Option.none_or]
      · rw [valueOf?_nil, Option.none_or]
  | some kind =>
      obtain ⟨found, hfound⟩ : ∃ found, kind.read? entry.2 = some found := by
        rw [← Option.isSome_iff_exists]
        simpa [fits, hkind] using hfits
      obtain ⟨more, hmore, hvalues⟩ :=
        (h.reads entry.1 kind hkind hname).takes given entry.2 found hdate hgiven hfound
      refine ⟨more, hmore, fun key => ?_⟩
      rw [hvalues, valueOf?_cons, valueOf?_nil]
      by_cases hkey : key = entry.1
      · rw [if_pos hkey, if_pos hkey.symm, hkey, hkind, Option.bind_some, hfound, Option.some_or]
      · rw [if_neg hkey, if_neg (Ne.symm hkey), Option.none_or]

/-- Without malformed options all known ones are read. -/
theorem ReadsFields.exists_foldlM (h : ReadsFields withField given? kindOf) (htable : Readable table)
    {given : γ} (hgiven : ∀ entry ∈ table, given? given entry.1 = none)
    (hfits : ∀ entry ∈ table, fits kindOf entry = true) :
    ∃ more, (Json.ofTomlEntries table).foldlM withField given = .ok more ∧
      ∀ key, given? more key = (valueOf? kindOf table key).or (given? given key) := by
  -- names are distinct, so nothing is given yet under the names that are still to come
  induction table generalizing given with
  | nil => exact ⟨given, rfl, fun key => by rw [valueOf?_nil, Option.none_or]⟩
  | cons entry table ih =>
      obtain ⟨hfirst, hrest⟩ := List.forall_mem_cons.1 hfits
      obtain ⟨hnew, hnewRest⟩ := List.forall_mem_cons.1 hgiven
      obtain ⟨habsent, -⟩ := List.nodup_cons.1 htable.ascending.nodup_keys
      obtain ⟨one, hone, hvalue⟩ := h.exists_withField (htable.names entry List.mem_cons_self)
        (htable.dateless entry List.mem_cons_self) hnew hfirst
      have hnewRest : ∀ later ∈ table, given? one later.1 = none := by
        intro later hlater
        have hne : entry.1 ≠ later.1 := fun heq => habsent (heq ▸ List.mem_map_of_mem hlater)
        rw [hvalue, valueOf?_cons, if_neg hne, valueOf?_nil, Option.none_or, hnewRest later hlater]
      obtain ⟨more, hmore, hvalues⟩ := ih (htable.sublist (List.sublist_cons_self _ _)) hnewRest hrest
      refine ⟨more, ?_, fun key => ?_⟩
      · rw [Json.ofTomlEntries, List.foldlM_cons, hone]
        exact hmore
      · rw [hvalues, hvalue, valueOf?_cons_eq_or habsent, Option.or_assoc]

/-- The first malformed option is reported. -/
theorem ReadsFields.foldlM_eq_error (h : ReadsFields withField given? kindOf) (htable : Readable table)
    {given : γ} (hgiven : ∀ key, given? given key = none)
    (hfirst : FirstMalformed kindOf table key fault) :
    (Json.ofTomlEntries table).foldlM withField given = .error fault := by
  obtain ⟨⟨hkind, hvalue, hread⟩, hbefore⟩ := hfirst
  rename_i kind value
  -- what stands before the option has smaller names, so all of it is read
  obtain ⟨front, rest, rfl⟩ := List.append_of_mem hvalue
  obtain ⟨-, -, hless⟩ := List.pairwise_append.1 htable.ascending
  have hfront : ∀ entry ∈ front, fits kindOf entry = true := fun entry hentry =>
    fits_of_not_malformed (List.mem_append_left _ hentry)
      (hbefore entry.1 (hless entry hentry (key, value) List.mem_cons_self))
  obtain ⟨more, hmore, hvalues⟩ := h.exists_foldlM (htable.sublist (List.sublist_append_left _ _))
    (fun entry _ => hgiven entry.1) hfront
  have hnew : given? more key = none := by
    have habsent : key ∉ front.map Prod.fst := by
      rw [List.mem_map]
      rintro ⟨entry, hentry, hkey⟩
      exact ne_of_lt (hless entry hentry (key, value) List.mem_cons_self) hkey
    rw [hvalues, valueOf?_eq_none habsent, hgiven, Option.none_or]
  have hmem : (key, value) ∈ front ++ (key, value) :: rest := hvalue
  have hname : normalizeKey key = key := htable.names (key, value) hmem
  have hdate : ∀ text, value ≠ .datetime text := htable.dateless (key, value) hmem
  have hrefused := (h.reads key kind hkind hname).refuses more value hdate hnew hread
  rw [Json.ofTomlEntries_eq_map] at hmore ⊢
  rw [List.map_append, List.foldlM_append, hmore]
  change List.foldlM withField more (_ :: _) = _
  rw [List.foldlM_cons, hrefused]
  rfl

/-- Only the known part of a table is read. -/
theorem ReadsFields.foldlM_knownPart (h : ReadsFields withField given? kindOf) (table : Toml.Table)
    (given : γ) : (Json.ofTomlEntries (knownPart kindOf table)).foldlM withField given =
      (Json.ofTomlEntries table).foldlM withField given := by
  induction table generalizing given with
  | nil => rfl
  | cons entry table ih =>
      rw [knownPart, List.filter_cons]
      split
      · rw [Json.ofTomlEntries, Json.ofTomlEntries, List.foldlM_cons, List.foldlM_cons]
        exact congrArg _ (funext ih)
      · rename_i hunknown
        have hkind : kindOf entry.1 = none := by simpa using hunknown
        rw [Json.ofTomlEntries, List.foldlM_cons, h.ignores _ _ _ hkind]
        exact ih given

/-- How the options of a rule are loaded. -/
structure Loads (kindOf : String → Option OptionKind) (option? : α → String → Option OptionValue)
    (standard : α) (load : Config → String → Except ConfigError α) (config : Config) (rule : String) :
    Prop where
  succeeds : (∃ options, load config rule = .ok options) ↔
    ∀ key fault, ¬Malformed kindOf (config.optionsOf rule) key fault
  given : ∀ options, load config rule = .ok options → ∀ key,
    option? options key = (valueOf? kindOf (config.optionsOf rule) key).or (option? standard key)
  fails : ∀ error, load config rule = .error error ↔ ∃ key fault,
    FirstMalformed kindOf (config.optionsOf rule) key fault ∧ error = .invalidOption rule fault
  unknown : ∀ config', knownPart kindOf (Config.optionsOf config' rule) =
    knownPart kindOf (config.optionsOf rule) → load config' rule = load config rule

theorem load_eq (withField : γ → String × Json → Except OptionFault γ) (start : γ) (complete : γ → α)
    (config : Config) (rule : String) : load withField start complete config rule =
      (((Json.ofTomlEntries (config.optionsOf rule)).foldlM withField start).map complete).mapError
        (.invalidOption rule) := by
  rw [load, Config.optionsOf]
  cases config.rule? rule <;> rfl

section Loading

variable {start : γ} {complete : γ → α} {option? : α → String → Option OptionValue} {standard : α}
  {config : Config} {rule : String}

theorem ReadsFields.exists_load (h : ReadsFields withField given? kindOf)
    (hstart : ∀ key, given? start key = none)
    (hcomplete : ∀ given key, option? (complete given) key = (given? given key).or (option? standard key))
    (htable : Readable (config.optionsOf rule))
    (hnone : ∀ key fault, ¬Malformed kindOf (config.optionsOf rule) key fault) :
    ∃ options, load withField start complete config rule = .ok options ∧ ∀ key,
      option? options key = (valueOf? kindOf (config.optionsOf rule) key).or (option? standard key) := by
  obtain ⟨more, hmore, hvalues⟩ := h.exists_foldlM htable (fun entry _ => hstart entry.1)
    fun entry hentry => fits_of_not_malformed hentry (hnone entry.1)
  refine ⟨complete more, ?_, fun key => ?_⟩
  · rw [load_eq, hmore]
    rfl
  · rw [hcomplete, hvalues, hstart, Option.or_none]

theorem ReadsFields.load_eq_error (h : ReadsFields withField given? kindOf)
    (hstart : ∀ key, given? start key = none) (htable : Readable (config.optionsOf rule))
    (hfirst : FirstMalformed kindOf (config.optionsOf rule) key fault) :
    load withField start complete config rule = .error (.invalidOption rule fault) := by
  rw [load_eq, h.foldlM_eq_error htable hstart hfirst]
  rfl

/-- Options that are read field by field and completed with the defaults are loaded as they should be. -/
theorem ReadsFields.loads (h : ReadsFields withField given? kindOf)
    (hstart : ∀ key, given? start key = none)
    (hcomplete : ∀ given key, option? (complete given) key = (given? given key).or (option? standard key))
    (htable : Readable (config.optionsOf rule)) :
    Loads kindOf option? standard (load withField start complete) config rule := by
  have hok := h.exists_load hstart hcomplete htable
  have herror : ∀ key fault, Malformed kindOf (config.optionsOf rule) key fault →
      ∃ key fault, FirstMalformed kindOf (config.optionsOf rule) key fault ∧
        load withField start complete config rule = .error (.invalidOption rule fault) := by
    intro key fault hmalformed
    obtain ⟨key', fault', hfirst⟩ := exists_firstMalformed htable.ascending hmalformed
    exact ⟨key', fault', hfirst, h.load_eq_error hstart htable hfirst⟩
  have hnone : ∀ options, load withField start complete config rule = .ok options →
      ∀ key fault, ¬Malformed kindOf (config.optionsOf rule) key fault := by
    intro options hoptions key fault hmalformed
    obtain ⟨_, _, -, hfails⟩ := herror key fault hmalformed
    rw [hoptions] at hfails
    cases hfails
  constructor
  · constructor
    · rintro ⟨options, hoptions⟩
      exact hnone options hoptions
    · intro hnone
      obtain ⟨options, hoptions, -⟩ := hok hnone
      exact ⟨options, hoptions⟩
  · intro options hoptions
    obtain ⟨found, hfound, hvalues⟩ := hok (hnone options hoptions)
    obtain rfl := Except.ok.inj (hoptions.symm.trans hfound)
    exact hvalues
  · intro error
    constructor
    · intro hfails
      by_cases hmalformed : ∃ key fault, Malformed kindOf (config.optionsOf rule) key fault
      · obtain ⟨key, fault, hmalformed⟩ := hmalformed
        obtain ⟨key', fault', hfirst, hreported⟩ := herror key fault hmalformed
        exact ⟨key', fault', hfirst, Except.error.inj (hfails.symm.trans hreported)⟩
      · obtain ⟨options, hoptions, -⟩ := hok fun key fault h => hmalformed ⟨key, fault, h⟩
        rw [hoptions] at hfails
        cases hfails
    · rintro ⟨key, fault, hfirst, rfl⟩
      exact h.load_eq_error hstart htable hfirst
  · intro config' hsame
    rw [load_eq, load_eq, ← h.foldlM_knownPart, hsame, h.foldlM_knownPart]

end Loading

end Reading

end Options

/-! ### The two types of options -/

namespace SeverityOptions

/-- The options that are known. -/
def kindOf : String → Option OptionKind
  | "severity" => some .severity
  | _ => none

/-- The value of an option. -/
def option? (options : SeverityOptions) : String → Option OptionValue
  | "severity" => some (.severity options.severity)
  | _ => none

/-- The value of an option, where it is given. -/
def given? (given : Option Severity) : String → Option OptionValue
  | "severity" => given.map .severity
  | _ => none

theorem readsFields : Options.ReadsFields withField given? kindOf where
  ignores given key value hkey := by
    unfold kindOf at hkey
    split at hkey
    · cases hkey
    · simp [withField, *]
  reads key kind hkind _ := by
    unfold kindOf at hkind
    split at hkind
    · obtain rfl := Option.some.inj hkind
      apply Options.readsField_of_once OptionKind.readBy_severity "severity" (fun given => given)
        (fun _ found => found) (fun _ _ => (bind_pure _).symm) (fun _ => rfl) (fun _ _ => rfl)
      intro given found name hname
      unfold given?
      split
      · exact absurd rfl hname
      · rfl
    · cases hkind

theorem given?_none (key : String) : given? none key = none := by
  unfold given?
  split <;> rfl

theorem option?_complete (given : Option Severity) (key : String) :
    (complete given).option? key = (given? given key).or (({} : SeverityOptions).option? key) := by
  unfold option? given?
  split
  · cases given <;> rfl
  · rfl

end SeverityOptions

namespace LineLengthOptions

/-- The options that are known. Two of them have a second spelling. -/
def kindOf : String → Option OptionKind
  | "warning" | "error" => some .threshold
  | "ignores-comments" | "ignores_comments" | "ignores-urls" | "ignores_urls" => some .flag
  | _ => none

/-- The value of an option. -/
def option? (options : LineLengthOptions) : String → Option OptionValue
  | "warning" => some (.threshold options.warning)
  | "error" => some (.threshold options.error)
  | "ignores-comments" => some (.flag options.ignoresComments)
  | "ignores-urls" => some (.flag options.ignoresUrls)
  | _ => none

/-- The value of an option, where it is given. -/
def Given.option? (given : Given) : String → Option OptionValue
  | "warning" => given.warning.map .threshold
  | "error" => given.error.map .threshold
  | "ignores-comments" => given.ignoresComments.map .flag
  | "ignores-urls" => given.ignoresUrls.map .flag
  | _ => none

theorem readsFields : Options.ReadsFields withField Given.option? kindOf where
  ignores given key value hkey := by
    unfold kindOf at hkey
    split at hkey
    all_goals cases hkey
    simp [withField, *]
  reads key kind hkind hname := by
    unfold kindOf at hkind
    split at hkind
    all_goals cases hkind
    · apply Options.readsField_of_once OptionKind.readBy_threshold "warning" Given.warning
        (fun given warning => { given with warning }) (fun _ _ => rfl) (fun _ => rfl) (fun _ _ => rfl)
      intro given found name hne
      unfold Given.option?
      split
      all_goals first | rfl | exact absurd rfl hne
    · apply Options.readsField_of_once OptionKind.readBy_threshold "error" Given.error
        (fun given error => { given with error }) (fun _ _ => rfl) (fun _ => rfl) (fun _ _ => rfl)
      intro given found name hne
      unfold Given.option?
      split
      all_goals first | rfl | exact absurd rfl hne
    · apply Options.readsField_of_once OptionKind.readBy_flag "ignores-comments" Given.ignoresComments
        (fun given ignoresComments => { given with ignoresComments }) (fun _ _ => rfl) (fun _ => rfl)
        (fun _ _ => rfl)
      intro given found name hne
      unfold Given.option?
      split
      all_goals first | rfl | exact absurd rfl hne
    · exact absurd hname (by decide +kernel) -- a name in its one spelling has no underscore
    · apply Options.readsField_of_once OptionKind.readBy_flag "ignores-urls" Given.ignoresUrls
        (fun given ignoresUrls => { given with ignoresUrls }) (fun _ _ => rfl) (fun _ => rfl) (fun _ _ => rfl)
      intro given found name hne
      unfold Given.option?
      split
      all_goals first | rfl | exact absurd rfl hne
    · exact absurd hname (by decide +kernel)

theorem Given.option?_none (key : String) : Given.option? {} key = none := by
  unfold Given.option?
  split <;> rfl

theorem option?_complete (given : Given) (key : String) :
    (complete given).option? key = (given.option? key).or (({} : LineLengthOptions).option? key) := by
  obtain ⟨warning, error, ignoresComments, ignoresUrls⟩ := given
  unfold option? Given.option?
  split
  · cases warning <;> rfl
  · cases error <;> rfl
  · cases ignoresComments <;> rfl
  · cases ignoresUrls <;> rfl
  · rfl

end LineLengthOptions

end SourceLint
