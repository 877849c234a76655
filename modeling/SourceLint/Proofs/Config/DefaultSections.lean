import SourceLint.Proofs.Config.Reading
import SourceLint.Proofs.Config.Spelling
import SourceLint.Rules.LineLength

/-!
# Default options load back

The section that options are written as may be put into any document that can be read and has nothing for the
rule yet. The options that are loaded then are those that were written, and the rest of the configuration stays
as it was.
-/

namespace SourceLint

namespace Config

variable {document : Toml.Table} {rule : String} {config : Config}

/-! ### Documents with one section more -/

/-- A document has nothing for a rule: none of its names is a spelling of the name of the rule. -/
def Omits (document : Toml.Table) (rule : String) : Prop :=
  ∀ entry ∈ document, normalizeKey entry.1 ≠ rule

theorem Omits.not_mem_keys (h : Omits document rule) (hspelled : normalizeKey rule = rule) :
    rule ∉ document.map Prod.fst := by
  rw [List.mem_map]
  rintro ⟨entry, hentry, rfl⟩
  exact h entry hentry hspelled

theorem Omits.not_mem_spelledRules (h : Omits document rule) :
    rule ∉ (document.filterMap spelledRule?).map Prod.fst := by
  rw [List.mem_map]
  rintro ⟨found, hfound, rfl⟩
  obtain ⟨entry, hentry, hspelled⟩ := List.mem_filterMap.1 hfound
  exact h entry hentry (fst_of_spelledRule? hspelled).symm

theorem globalOf_insert (hrule : rule ≠ "global") (value : Toml.Value) (document : Toml.Table) :
    globalOf (SortedTable.insert rule value document) = globalOf document := by
  rw [globalOf, globalOf, SortedTable.get?_insert, if_neg hrule]

theorem rulesOf_insert (hspelled : normalizeKey rule = rule) (hrule : rule ≠ "global")
    (homits : Omits document rule) (options : Toml.Table) :
    rulesOf (SortedTable.insert rule (.table options) document) =
      (rulesOf document).map (SortedTable.insert rule (normalizedTable (withoutDatesEntries options))) := by
  obtain ⟨front, rest, rfl, hinsert⟩ :=
    SortedTable.exists_insert_eq (homits.not_mem_keys hspelled) (.table options)
  have hform : hasForm (rule, .table options) = true := by simp [hasForm, spelledTable?]
  have hread : spelledRule? (rule, .table options) =
      some (rule, normalizedTable (withoutDatesEntries options)) := by
    simp [spelledRule?, spelledTable?, hrule, hspelled]
  -- of two sections for one rule the later one would count, but none comes behind this one
  have hrest : Omits rest rule := fun entry hentry => homits entry (List.mem_append_right _ hentry)
  rw [hinsert, rulesOf, rulesOf, List.all_append, List.all_cons, hform, Bool.true_and, ← List.all_append,
    List.filterMap_append, List.filterMap_cons, hread,
    SortedTable.ofEntries_append_cons _ _ hrest.not_mem_spelledRules, ← List.filterMap_append]
  split <;> rfl

/-- A section for a rule that the document has nothing for becomes the options of the rule. -/
theorem ofTable_insert (hspelled : normalizeKey rule = rule) (hrule : rule ≠ "global")
    (homits : Omits document rule) (options : Toml.Table) (h : ofTable document = .ok config) :
    ofTable (SortedTable.insert rule (.table options) document) = .ok { config with
      rules := SortedTable.insert rule (normalizedTable (withoutDatesEntries options)) config.rules } := by
  rw [ofTable_eq_rulesOf] at h ⊢
  obtain ⟨global, hglobal, h⟩ := exceptBind_eq_ok_iff.1 h
  obtain ⟨rules, hrules, rfl⟩ := exceptMap_eq_ok_iff.1 h
  rw [globalOf_insert hrule, rulesOf_insert hspelled hrule homits, hglobal, hrules]
  rfl

/-- As the section of a rule, the value gives the rule its options, whatever else a document has, and nothing
else in the configuration changes. -/
def LoadsBack {α : Type} (load : Config → String → Except ConfigError α) (rule : String) (options : α)
    (value : Toml.Value) : Prop :=
  ∀ document config, ofTable document = .ok config → Omits document rule →
    ∃ config', ofTable (SortedTable.insert rule value document) = .ok config' ∧
      load config' rule = .ok options ∧ config'.global = config.global ∧
      ∀ other, other ≠ rule → config'.rule? other = config.rule? other

/-- A table that is in order already, in the one spelling and without dates, is read as it stands. -/
theorem loadsBack_table {γ α : Type} {withField : γ → String × Json → Except OptionFault γ}
    {start given : γ} {complete : γ → α} {table : Toml.Table} (hspelled : normalizeKey rule = rule)
    (hrule : rule ≠ "global") (hascending : SortedTable.Ascending table)
    (hnames : ∀ entry ∈ table, normalizeKey entry.1 = entry.1)
    (hdates : withoutDatesEntries table = table)
    (hread : (Json.ofTomlEntries table).foldlM withField start = .ok given) :
    LoadsBack (Options.load withField start complete) rule (complete given) (.table table) := by
  intro document config hconfig homits
  have hinsert := ofTable_insert hspelled hrule homits table hconfig
  rw [hdates, normalizedTable_eq hascending hnames] at hinsert
  refine ⟨_, hinsert, ?_, rfl, fun other hother => ?_⟩
  · rw [Options.load, rule?, SortedTable.get?_insert, if_pos rfl]
    dsimp only
    rw [hread]
    rfl
  · rw [rule?, SortedTable.get?_insert, if_neg (Ne.symm hother), rule?]

end Config

open Config

/-! ### The two types of options -/

theorem Options.readThreshold_value (threshold : Threshold) :
    readThreshold (.integer threshold.value) = .ok threshold := by
  have hcount : ¬(threshold.value : Int) < 0 := by omega
  rw [readThreshold, if_neg hcount, Int.toNat_natCast, Threshold.ofNat, dif_pos threshold.pos]
  rfl

theorem Json.toToml?_natCast {n : Nat} (h : (n : Int) ≤ Toml.maxInteger) :
    toToml? (.integer n) = some (.integer n) := by
  have hlow : Toml.minInteger ≤ (n : Int) := le_trans (by decide) (Int.natCast_nonneg n)
  rw [toToml?, if_pos ⟨hlow, h⟩]

namespace LineLengthOptions

/-- The table that the options are written as. -/
def toTable (options : LineLengthOptions) : Toml.Table :=
  [("error", .integer options.error.value),
    ("ignores-comments", .boolean options.ignoresComments),
    ("ignores-urls", .boolean options.ignoresUrls),
    ("warning", .integer options.warning.value)]

theorem ascending_toTable (options : LineLengthOptions) : SortedTable.Ascending options.toTable := by
  have hkeys : ["error", "ignores-comments", "ignores-urls", "warning"].Pairwise (· < ·) := by
    decide +kernel
  exact (List.pairwise_map (f := Prod.fst) (l := options.toTable)).1 hkeys

theorem toToml?_toJson {options : LineLengthOptions}
    (hwarning : (options.warning.value : Int) ≤ Toml.maxInteger)
    (herror : (options.error.value : Int) ≤ Toml.maxInteger) :
    Json.toToml? options.toJson = some (.table options.toTable) := by
  have hfields : Json.toTomlFields [("warning", .integer options.warning.value),
      ("error", .integer options.error.value), ("ignores-comments", .boolean options.ignoresComments),
      ("ignores-urls", .boolean options.ignoresUrls)] =
        ("warning", .integer options.warning.value) :: options.toTable.dropLast := by
    simp only [Json.toTomlFields, Json.toToml?_natCast hwarning, Json.toToml?_natCast herror]
    rfl
  -- the field that is written first has the last of the keys
  have hperm : options.toTable.Perm
      (("warning", .integer options.warning.value) :: options.toTable.dropLast) :=
    List.perm_append_singleton ("warning", Toml.Value.integer options.warning.value)
      options.toTable.dropLast
  rw [toJson, Json.toToml?, hfields,
    ← SortedTable.ofEntries_perm hperm options.ascending_toTable.nodup_keys,
    options.ascending_toTable.ofEntries_eq]

theorem foldlM_toTable (options : LineLengthOptions) :
    (Json.ofTomlEntries options.toTable).foldlM withField {} = .ok {
      warning := some options.warning
      error := some options.error
      ignoresComments := some options.ignoresComments
      ignoresUrls := some options.ignoresUrls } := by
  simp only [toTable, Json.ofTomlEntries, Json.ofToml, List.foldlM_cons, List.foldlM_nil, withField,
    Options.once, Options.readThreshold_value]
  rfl

theorem loadsBack_toTable {rule : String} (hspelled : normalizeKey rule = rule) (hrule : rule ≠ "global")
    (options : LineLengthOptions) : LoadsBack load rule options (.table options.toTable) := by
  have hnames : ∀ key ∈ ["error", "ignores-comments", "ignores-urls", "warning"],
      normalizeKey key = key := by
    decide +kernel
  exact loadsBack_table hspelled hrule options.ascending_toTable
    ((List.forall_mem_map (f := Prod.fst) (l := options.toTable)).1 hnames) rfl options.foldlM_toTable

end LineLengthOptions

namespace SeverityOptions

/-- The table that the options are written as. -/
def toTable (options : SeverityOptions) : Toml.Table := [("severity", .string options.severity.name)]

theorem loadsBack_toTable {rule : String} (hspelled : normalizeKey rule = rule) (hrule : rule ≠ "global")
    (options : SeverityOptions) : LoadsBack load rule options (.table options.toTable) := by
  have hname : normalizeKey "severity" = "severity" := by decide +kernel
  have hread : (Json.ofTomlEntries options.toTable).foldlM withField none = .ok (some options.severity) := by
    simp only [toTable, Json.ofTomlEntries, Json.ofToml, List.foldlM_cons, List.foldlM_nil, withField,
      Options.once, Options.readSeverity, Severity.ofName?_name]
    rfl
  refine loadsBack_table hspelled hrule (List.pairwise_singleton _ _) ?_ rfl hread
  simpa [toTable] using hname

end SeverityOptions

namespace Config

/-- Options load back from the section that they are written as, under every name of a rule that is in its one
spelling: those on the length of lines when their thresholds are integers of TOML, and those with a severity
alone always. -/
theorem loadsBack_defaultSection {rule : String} (hspelled : normalizeKey rule = rule)
    (hrule : rule ≠ "global") :
    (∀ options : LineLengthOptions, (options.warning.value : Int) ≤ Toml.maxInteger →
      (options.error.value : Int) ≤ Toml.maxInteger →
        ∃ value, Options.defaultSection rule options.toJson = some (rule, value) ∧
          LoadsBack LineLengthOptions.load rule options value) ∧
    ∀ options : SeverityOptions, ∃ value,
      Options.defaultSection rule options.toJson = some (rule, value) ∧
        LoadsBack SeverityOptions.load rule options value := by
  constructor
  · intro options hwarning herror
    refine ⟨_, ?_, options.loadsBack_toTable hspelled hrule⟩
    rw [Options.defaultSection, LineLengthOptions.toToml?_toJson hwarning herror]
    rfl
  · intro options
    exact ⟨_, rfl, options.loadsBack_toTable hspelled hrule⟩

/-- Options on the length of lines with the largest threshold that TOML has. -/
def longestLines : LineLengthOptions where
  warning := ⟨9223372036854775807, by decide⟩
  error := ⟨1, by decide⟩
  ignoresUrls := true

/-- A document with global options, the section of a rule, and a rule whose name has a capital. -/
def otherSections : Toml.Table :=
  [("Global", .table []), ("global", .table [("only", .array [.string "line_length"])]),
    ("todo", .table [("Severity", .string "error"), ("since", .datetime "1979-05-27")])]

theorem loadsBack_defaultSection_longestLines :
    normalizeKey LineLength.identifier = LineLength.identifier ∧ LineLength.identifier ≠ "global" ∧
      (longestLines.warning.value : Int) = Toml.maxInteger ∧
      (longestLines.error.value : Int) ≤ Toml.maxInteger ∧
      (∃ value config,
        Options.defaultSection LineLength.identifier longestLines.toJson =
          some (LineLength.identifier, value) ∧
        ofTable (SortedTable.insert LineLength.identifier value otherSections) = .ok config ∧
        LineLengthOptions.load config LineLength.identifier = .ok longestLines ∧
        SeverityOptions.load config "todo" = .ok { severity := .error }) ∧
      ∃ value config,
        Options.defaultSection LineLength.identifier (SeverityOptions.toJson { severity := .error }) =
          some (LineLength.identifier, value) ∧
        ofTable [(LineLength.identifier, value)] = .ok config ∧
        SeverityOptions.load config LineLength.identifier = .ok { severity := .error } := by
  have hspelled : normalizeKey LineLength.identifier = LineLength.identifier := by decide +kernel
  have hrule : LineLength.identifier ≠ "global" := by decide
  have hwarning : (longestLines.warning.value : Int) = Toml.maxInteger := by decide
  have herror : (longestLines.error.value : Int) ≤ Toml.maxInteger := by decide
  have homits : Omits otherSections LineLength.identifier := by
    intro entry hentry
    have hnames : ∀ name ∈ otherSections.map Prod.fst, normalizeKey name ≠ LineLength.identifier := by
      decide +kernel
    exact hnames entry.1 (List.mem_map_of_mem hentry)
  obtain ⟨hlength, hseverity⟩ := loadsBack_defaultSection hspelled hrule
  obtain ⟨value, hvalue, hloads⟩ := hlength longestLines hwarning.le herror
  obtain ⟨config, hconfig, hoptions, -, hothers⟩ := hloads otherSections _ rfl homits
  obtain ⟨value', hvalue', hloads'⟩ := hseverity { severity := .error }
  obtain ⟨config', hconfig', hoptions', -⟩ := hloads' [] {} rfl (List.forall_mem_nil _)
  refine ⟨hspelled, hrule, hwarning, herror, ⟨value, config, hvalue, hconfig, hoptions, ?_⟩,
    value', config', hvalue', hconfig', hoptions'⟩
  rw [SeverityOptions.load, Options.load, hothers "todo" (by decide)]
  rfl

end Config

end SourceLint
