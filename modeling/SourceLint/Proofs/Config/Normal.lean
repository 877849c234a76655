import SourceLint.Proofs.Basic
import SourceLint.Proofs.Config.Names
import SourceLint.Proofs.SortedTable

/-!
# Configurations in the one spelling

What is read from a document has all its names in their one spelling and all its tables in order. Nothing
changes when such a configuration is brought into the one spelling again.
-/

namespace SourceLint.Config

variable {config : Config}

theorem ascending_normalizedTable {β : Type} (entries : List (String × β)) :
    SortedTable.Ascending (normalizedTable entries) :=
  SortedTable.ascending_ofEntries _

theorem exists_of_mem_normalizedTable {β : Type} {entries : List (String × β)} {entry : String × β}
    (h : entry ∈ normalizedTable entries) :
    ∃ original ∈ entries, entry = (normalizeKey original.1, original.2) := by
  obtain ⟨original, horiginal, rfl⟩ := List.mem_map.1 (SortedTable.mem_of_mem_ofEntries h)
  exact ⟨original, horiginal, rfl⟩

theorem normalizeKey_of_mem_normalizedTable {β : Type} {entries : List (String × β)}
    {entry : String × β} (h : entry ∈ normalizedTable entries) : normalizeKey entry.1 = entry.1 := by
  obtain ⟨original, -, rfl⟩ := exists_of_mem_normalizedTable h
  exact normalizeKey_normalizeKey original.1

/-- A table in order whose keys are in their one spelling stays as it is. -/
theorem normalizedTable_eq {β : Type} {table : SortedTable β} (hascending : SortedTable.Ascending table)
    (h : ∀ entry ∈ table, normalizeKey entry.1 = entry.1) : normalizedTable table = table := by
  have hmap : table.map (fun entry => (normalizeKey entry.1, entry.2)) = table :=
    map_eq_self fun entry hentry => Prod.ext (h entry hentry) rfl
  rw [normalizedTable, hmap, hascending.ofEntries_eq]

/-- All names of the configuration are in their one spelling, and its tables are in order. -/
structure IsNormal (config : Config) : Prop where
  rules : SortedTable.Ascending config.rules
  names : ∀ rule ∈ config.rules, normalizeKey rule.1 = rule.1
  tables : ∀ rule ∈ config.rules, SortedTable.Ascending rule.2
  options : ∀ rule ∈ config.rules, ∀ option ∈ rule.2, normalizeKey option.1 = option.1
  lists : ∀ name ∈ config.global.enable ++ config.global.disable ++ config.global.only ++
    config.global.unfixable, normalizeKey name = name

theorem exists_of_mem_rules_normalized {rule : String × Toml.Table}
    (h : rule ∈ config.normalized.rules) :
    ∃ original ∈ config.rules, rule = (normalizeKey original.1, normalizedTable original.2) := by
  obtain ⟨middle, hmiddle, rfl⟩ := exists_of_mem_normalizedTable h
  obtain ⟨original, horiginal, rfl⟩ := List.mem_map.1 hmiddle
  exact ⟨original, horiginal, rfl⟩

theorem isNormal_normalized (config : Config) : config.normalized.IsNormal where
  rules := ascending_normalizedTable _
  names rule hrule := normalizeKey_of_mem_normalizedTable hrule
  tables rule hrule := by
    obtain ⟨original, -, rfl⟩ := exists_of_mem_rules_normalized hrule
    exact ascending_normalizedTable original.2
  options rule hrule option hoption := by
    obtain ⟨original, -, rfl⟩ := exists_of_mem_rules_normalized hrule
    exact normalizeKey_of_mem_normalizedTable hoption
  lists := by
    simp only [normalized, GlobalOptions.normalized, ← List.map_append, List.forall_mem_map]
    exact fun name _ => normalizeKey_normalizeKey name

theorem IsNormal.normalized_eq (h : config.IsNormal) : config.normalized = config := by
  have hlists := h.lists
  simp only [List.forall_mem_append] at hlists
  obtain ⟨⟨⟨henable, hdisable⟩, honly⟩, hunfixable⟩ := hlists
  have hglobal : config.global.normalized = config.global := by
    rw [GlobalOptions.normalized, map_eq_self henable, map_eq_self hdisable, map_eq_self honly,
      map_eq_self hunfixable]
  have htables : config.rules.map (fun rule => (rule.1, normalizedTable rule.2)) = config.rules :=
    map_eq_self fun rule hrule =>
      Prod.ext rfl (normalizedTable_eq (h.tables rule hrule) (h.options rule hrule))
  rw [normalized, hglobal, htables, normalizedTable_eq h.rules h.names]

/-- The global options that a table holds. -/
def globalOf (table : Toml.Table) : Except Fault GlobalOptions :=
  match table.get? "global" with
  | some value => GlobalOptions.ofValue value
  | none => .ok {}

theorem ofTable_eq (table : Toml.Table) :
    ofTable table = globalOf table >>= fun global =>
      readRules table >>= fun rules => .ok (normalized { global, rules }) := by
  rw [ofTable, globalOf]
  cases table.get? "global" <;> rfl

theorem withoutDatesEntries_eq_map (entries : List (String × Toml.Value)) :
    withoutDatesEntries entries = entries.map fun entry => (entry.1, withoutDates entry.2) := by
  induction entries with
  | nil => rfl
  | cons entry entries ih => rw [withoutDatesEntries, ih, List.map_cons]

/-- The table that a value holds, in the one spelling. -/
def spelledTable? : Toml.Value → Option Toml.Table
  | .table entries => some (normalizedTable (withoutDatesEntries entries))
  | _ => none

/-- An entry of a document is the global options or has a table. -/
def hasForm (entry : String × Toml.Value) : Bool :=
  decide (entry.1 = "global") || (spelledTable? entry.2).isSome

/-- The table of a rule that an entry of a document holds, in the one spelling. -/
def spelledRule? (entry : String × Toml.Value) : Option (String × Toml.Table) :=
  if entry.1 = "global" then none
  else (spelledTable? entry.2).map fun table => (normalizeKey entry.1, table)

/-- The tables of all rules in a document, in the one spelling. -/
def rulesOf (table : Toml.Table) : Except Fault (SortedTable Toml.Table) :=
  if table.all hasForm then .ok (SortedTable.ofEntries (table.filterMap spelledRule?))
  else .error .wrongForm

theorem readRules_map (entries : List (String × Toml.Value)) :
    (readRules entries).map (List.map fun rule => (normalizeKey rule.1, normalizedTable rule.2)) =
      if entries.all hasForm then .ok (entries.filterMap spelledRule?) else .error .wrongForm := by
  induction entries with
  | nil => rfl
  | cons entry entries ih =>
      obtain ⟨name, value⟩ := entry
      rw [readRules, List.all_cons, List.filterMap_cons]
      by_cases hname : name = "global"
      · have hform : hasForm (name, value) = true := by simp [hasForm, hname]
        have hrule : spelledRule? (name, value) = none := by simp [spelledRule?, hname]
        rw [if_pos hname, ih, hform, hrule, Bool.true_and]
      · cases value with
        | table options =>
            have hform : hasForm (name, .table options) = true := by simp [hasForm, spelledTable?]
            have hrule : spelledRule? (name, .table options) =
                some (normalizeKey name, normalizedTable (withoutDatesEntries options)) := by
              simp [spelledRule?, spelledTable?, hname]
            calc
              _ = ((readRules entries).map (List.map fun rule =>
                    (normalizeKey rule.1, normalizedTable rule.2))).map
                    ((normalizeKey name, normalizedTable (withoutDatesEntries options)) :: ·) := by
                rw [if_neg hname]
                cases readRules entries <;> rfl
              _ = _ := by
                rw [ih, hform, hrule, Bool.true_and]
                split <;> rfl
        | _ => simp [hasForm, spelledTable?, hname, readRule, bind, Except.bind, Except.map]

/-- A configuration is made of the two parts of a document, each in the one spelling. -/
theorem ofTable_eq_rulesOf (table : Toml.Table) :
    ofTable table = globalOf table >>= fun global =>
      (rulesOf table).map fun rules => { global := global.normalized, rules } := by
  have hrules : ∀ global, (readRules table >>= fun rules => .ok (normalized { global, rules })) =
      (rulesOf table).map fun rules => { global := global.normalized, rules } := by
    intro global
    have hread := readRules_map table
    rw [rulesOf]
    split at hread
    · rename_i hall
      obtain ⟨rules, hrules, hspelled⟩ := exceptMap_eq_ok_iff.1 hread
      have htables : normalizedTable (rules.map fun rule => (rule.1, normalizedTable rule.2)) =
          SortedTable.ofEntries (table.filterMap spelledRule?) := by
        rw [← hspelled, normalizedTable, List.map_map]
        rfl
      rw [hrules, if_pos hall, ← htables]
      rfl
    · rename_i hall
      rw [exceptMap_eq_error_iff.1 hread, if_neg hall]
      rfl
  rw [ofTable_eq]
  exact congrArg _ (funext hrules)

/-- What is read is in the one spelling. -/
theorem isNormal_of_ofTable {table : Toml.Table} (h : ofTable table = .ok config) : config.IsNormal := by
  rw [ofTable_eq] at h
  obtain ⟨global, -, h⟩ := exceptBind_eq_ok_iff.1 h
  obtain ⟨rules, -, h⟩ := exceptBind_eq_ok_iff.1 h
  obtain rfl := Except.ok.inj h
  exact isNormal_normalized _

theorem withoutDates_ne_datetime (value : Toml.Value) (text : String) :
    withoutDates value ≠ .datetime text := by
  cases value <;> simp [withoutDates]

/-- No option that is read has a date. -/
theorem ne_datetime_of_ofTable {table : Toml.Table} (h : ofTable table = .ok config)
    {rule : String × Toml.Table} (hrule : rule ∈ config.rules) {option : String × Toml.Value}
    (hoption : option ∈ rule.2) (text : String) : option.2 ≠ .datetime text := by
  rw [ofTable_eq_rulesOf] at h
  obtain ⟨global, -, h⟩ := exceptBind_eq_ok_iff.1 h
  obtain ⟨rules, hrules, rfl⟩ := exceptMap_eq_ok_iff.1 h
  rw [rulesOf] at hrules
  split at hrules
  · obtain rfl := Except.ok.inj hrules
    obtain ⟨entry, -, hspelled⟩ := List.mem_filterMap.1 (SortedTable.mem_of_mem_ofEntries hrule)
    rw [spelledRule?] at hspelled
    split at hspelled
    · cases hspelled
    · obtain ⟨options, hoptions, rfl⟩ := Option.map_eq_some_iff.1 hspelled
      cases hvalue : entry.2 with
      | table entries =>
          rw [hvalue] at hoptions
          obtain rfl := Option.some.inj hoptions
          obtain ⟨original, horiginal, rfl⟩ := exists_of_mem_normalizedTable hoption
          rw [withoutDatesEntries_eq_map] at horiginal
          obtain ⟨dated, -, rfl⟩ := List.mem_map.1 horiginal
          exact withoutDates_ne_datetime dated.2 text
      | _ =>
          rw [hvalue] at hoptions
          cases hoptions
  · cases hrules

end SourceLint.Config
