import SourceLint.Proofs.Config.Reading

/-!
# Loading the options of rules

In a configuration that was read from a document, the options of a rule are loaded from its table: the first
malformed option that the rule knows is reported, and without such options each is the given one or the
default. Documents that differ in options which a rule does not know give it the same options.
-/

namespace SourceLint

namespace Config

variable {config : Config}

/-- In a configuration that was read, the options of each rule can be loaded. -/
theorem readable_optionsOf {table : Toml.Table} (h : ofTable table = .ok config) (rule : String) :
    Options.Readable (config.optionsOf rule) := by
  have hnormal := isNormal_of_ofTable h
  rw [optionsOf]
  cases hrule : config.rule? rule with
  | none =>
      refine ⟨SortedTable.ascending_nil, ?_, ?_⟩
      all_goals simp
  | some options =>
      have hmem := hnormal.rules.get?_eq_some_iff.1 hrule
      exact ⟨hnormal.tables _ hmem, hnormal.options _ hmem, fun _ => ne_datetime_of_ofTable h hmem⟩

/-! ### Unknown options in documents -/

section Unknown

variable {kindOf : String → Option OptionKind}

/-- Entries of two documents whose options differ in none that is known. -/
inductive SameKnown (kindOf : String → Option OptionKind) : String × Toml.Value → String × Toml.Value → Prop
  | same (entry : String × Toml.Value) : SameKnown kindOf entry entry
  | rule {name : String} {options options' : List (String × Toml.Value)} (hrule : name ≠ "global")
    (h : options.filter (fun option => (kindOf (normalizeKey option.1)).isSome) =
      options'.filter fun option => (kindOf (normalizeKey option.1)).isSome) :
    SameKnown kindOf (name, .table options) (name, .table options')

theorem knownPart_spelled (options : List (String × Toml.Value)) :
    Options.knownPart kindOf (normalizedTable (withoutDatesEntries options)) =
      normalizedTable (withoutDatesEntries
        (options.filter fun option => (kindOf (normalizeKey option.1)).isSome)) := by
  rw [Options.knownPart, normalizedTable, SortedTable.filter_ofEntries (fun key => (kindOf key).isSome),
    normalizedTable, withoutDatesEntries_eq_map, withoutDatesEntries_eq_map, List.filter_map,
    List.filter_map]
  rfl

theorem globalOf_congr {table table' : Toml.Table} (h : List.Forall₂ (SameKnown kindOf) table table') :
    globalOf table = globalOf table' := by
  have hget : table.get? "global" = table'.get? "global" := by
    induction h with
    | nil => rfl
    | cons hentry _ ih =>
        rw [SortedTable.get?_cons, SortedTable.get?_cons, ih]
        cases hentry with
        | same => rfl
        | rule hrule => rw [if_neg hrule, if_neg hrule]
  rw [globalOf, globalOf, hget]

/-- Two rules have the same name, and the same options as far as they are known. -/
abbrev RelatedRules (kindOf : String → Option OptionKind) :
    SortedTable Toml.Table → SortedTable Toml.Table → Prop :=
  SortedTable.Related fun options options' =>
    Options.knownPart kindOf options = Options.knownPart kindOf options'

theorem spelledRules_related {table table' : Toml.Table}
    (h : List.Forall₂ (SameKnown kindOf) table table') :
    RelatedRules kindOf (table.filterMap spelledRule?) (table'.filterMap spelledRule?) := by
  induction h with
  | nil => exact .nil
  | @cons entry entry' table table' hentry _ ih =>
      rw [List.filterMap_cons, List.filterMap_cons]
      cases hentry with
      | same =>
          cases spelledRule? entry with
          | none => exact ih
          | some rule => exact .cons ⟨rfl, rfl⟩ ih
      | @rule name options options' hrule hknown =>
          have hpart : Options.knownPart kindOf (normalizedTable (withoutDatesEntries options)) =
              Options.knownPart kindOf (normalizedTable (withoutDatesEntries options')) := by
            rw [knownPart_spelled, knownPart_spelled, hknown]
          rw [spelledRule?, spelledRule?, if_neg hrule, if_neg hrule]
          exact .cons ⟨rfl, hpart⟩ ih

theorem exists_rulesOf_related {table table' : Toml.Table}
    (h : List.Forall₂ (SameKnown kindOf) table table') {rules : SortedTable Toml.Table}
    (hrules : rulesOf table = .ok rules) :
    ∃ rules', rulesOf table' = .ok rules' ∧ RelatedRules kindOf rules rules' := by
  have hform : table.all hasForm = table'.all hasForm := by
    clear hrules
    induction h with
    | nil => rfl
    | cons hentry _ ih =>
        rw [List.all_cons, List.all_cons, ih]
        cases hentry <;> rfl
  rw [rulesOf] at hrules ⊢
  rw [hform] at hrules
  split at hrules
  · rename_i hall
    obtain rfl := Except.ok.inj hrules
    exact ⟨_, if_pos hall, (spelledRules_related h).ofEntries⟩
  · cases hrules

/-- A document can be read whatever options it has that are not known, and the known ones are the same. -/
theorem exists_ofTable_of_sameKnown {table table' : Toml.Table}
    (hsame : List.Forall₂ (SameKnown kindOf) table table') (h : ofTable table = .ok config) :
    ∃ config', ofTable table' = .ok config' ∧ ∀ rule, Options.knownPart kindOf (config'.optionsOf rule) =
      Options.knownPart kindOf (config.optionsOf rule) := by
  rw [ofTable_eq_rulesOf] at h ⊢
  obtain ⟨global, hglobal, h⟩ := exceptBind_eq_ok_iff.1 h
  obtain ⟨rules, hrules, rfl⟩ := exceptMap_eq_ok_iff.1 h
  obtain ⟨rules', hrules', hrelated⟩ := exists_rulesOf_related hsame hrules
  refine ⟨{ global := global.normalized, rules := rules' }, ?_, fun rule => ?_⟩
  · rw [← globalOf_congr hsame, hglobal, hrules']
    rfl
  · have hget := hrelated.get? rule
    rw [optionsOf, optionsOf, rule?, rule?]
    generalize SortedTable.get? rules rule = options at hget ⊢
    generalize SortedTable.get? rules' rule = options' at hget ⊢
    cases hget with
    | none => rfl
    | some hknown => exact hknown.symm

end Unknown

/-- Loading the options of a rule fails when an option that is known is malformed, and reports the first such
one. Otherwise the options are as given, with the defaults for the others. What is not known has no part. -/
theorem loads_of_ofTable {table : Toml.Table} (h : ofTable table = .ok config) (rule : String) :
    (Options.Loads LineLengthOptions.kindOf LineLengthOptions.option? {} LineLengthOptions.load config rule ∧
      ∀ table', List.Forall₂ (SameKnown LineLengthOptions.kindOf) table table' →
        ∃ config', ofTable table' = .ok config' ∧
          LineLengthOptions.load config' rule = LineLengthOptions.load config rule) ∧
    (Options.Loads SeverityOptions.kindOf SeverityOptions.option? {} SeverityOptions.load config rule ∧
      ∀ table', List.Forall₂ (SameKnown SeverityOptions.kindOf) table table' →
        ∃ config', ofTable table' = .ok config' ∧
          SeverityOptions.load config' rule = SeverityOptions.load config rule) := by
  have hreadable := readable_optionsOf h rule
  have hlength := LineLengthOptions.readsFields.loads LineLengthOptions.Given.option?_none
    LineLengthOptions.option?_complete hreadable
  have hseverity := SeverityOptions.readsFields.loads SeverityOptions.given?_none
    SeverityOptions.option?_complete hreadable
  refine ⟨⟨hlength, fun table' hsame => ?_⟩, ⟨hseverity, fun table' hsame => ?_⟩⟩
  · obtain ⟨config', hconfig', hknown⟩ := exists_ofTable_of_sameKnown hsame h
    exact ⟨config', hconfig', hlength.unknown config' (hknown rule)⟩
  · obtain ⟨config', hconfig', hknown⟩ := exists_ofTable_of_sameKnown hsame h
    exact ⟨config', hconfig', hseverity.unknown config' (hknown rule)⟩

/-- A document that gives a rule options of many kinds, some of them malformed and some unknown. -/
def manyOptions : Toml.Table :=
  [("Line_Length", .table [("Warning", .string "long"), ("error", .integer 0),
      ("ignores_urls", .boolean true), ("since", .datetime "1979-05-27"),
      ("width", .table [("most", .float (.nan false))])]),
    ("todo", .table [("severity", .string "error")])]

/-- The document without the options that are unknown. -/
def fewOptions : Toml.Table :=
  [("Line_Length", .table [("Warning", .string "long"), ("error", .integer 0),
      ("ignores_urls", .boolean true)]),
    ("todo", .table [("severity", .string "error")])]

/-- Of two malformed options the one is reported that is first in the one spelling, with or without the
unknown options. -/
theorem loads_of_ofTable_manyOptions :
    ∃ config, ofTable manyOptions = .ok config ∧
      Options.Loads LineLengthOptions.kindOf LineLengthOptions.option? {} LineLengthOptions.load config
        "line-length" ∧
      LineLengthOptions.load config "line-length" =
        .error (.invalidOption "line-length" (.tooSmall ⟨0⟩)) ∧
      List.Forall₂ (SameKnown LineLengthOptions.kindOf) manyOptions fewOptions ∧
      (∃ config', ofTable fewOptions = .ok config' ∧
        LineLengthOptions.load config' "line-length" = LineLengthOptions.load config "line-length") ∧
      SeverityOptions.load config "line-length" = .ok {} ∧
      SeverityOptions.load config "todo" = .ok { severity := .error } := by
  have hsame : List.Forall₂ (SameKnown LineLengthOptions.kindOf) manyOptions fewOptions := by
    refine .cons (.rule ?_ ?_) (.cons (.same _) .nil)
    · decide
    · rfl
  obtain ⟨config, hconfig⟩ : ∃ config, ofTable manyOptions = .ok config := ⟨_, rfl⟩
  obtain ⟨⟨hloads, hunknown⟩, -⟩ := loads_of_ofTable hconfig "line-length"
  refine ⟨config, hconfig, hloads, ?_, hsame, hunknown fewOptions hsame, ?_, ?_⟩
  all_goals
    obtain rfl := Except.ok.inj hconfig
    rfl

end Config

end SourceLint
