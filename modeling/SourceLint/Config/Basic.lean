import SourceLint.LanguageVersion
import SourceLint.Toml.Value

/-!
# Configurations

A configuration has global options and a table of options for each rule. It is read from a table of
a TOML document: the entry `global` holds the global options, and every other entry is the table of
a rule. The names of rules and of their options may be spelled in several ways; they are kept in one
spelling, in lower case with hyphens.
-/

namespace SourceLint

/-- The one spelling of a name: without white space around it, with hyphens for underscores, and in
lower case. -/
def normalizeKey (key : String) : String :=
  let hyphened := (trimBlanks key.toList).map fun c => if c == '_' then '-' else c
  String.ofList (lowercaseAscii hyphened)

/-- The options that concern all rules: lists of rule names, and the version of the language. -/
structure GlobalOptions where
  enable : List String := []
  disable : List String := []
  only : List String := []
  unfixable : List String := []
  languageVersion : Option LanguageVersion := none
deriving DecidableEq, Repr, Inhabited

/-- A whole configuration. -/
structure Config where
  global : GlobalOptions := {}
  rules : SortedTable Toml.Table := []
deriving Repr, Inhabited

/-- Why a table is no configuration. -/
inductive Config.Fault where
  /-- The text is no TOML document. -/
  | noDocument
  /-- A value does not have the form that its place asks for. -/
  | wrongForm
  /-- The language version is malformed. -/
  | badVersion (version : LanguageVersion.Malformed)
deriving DecidableEq, Repr

namespace GlobalOptions

/-- A list of rule names. -/
def readNames : List Toml.Value → Except Config.Fault (List String)
  | [] => .ok []
  | .string name :: items => (readNames items).map (name :: ·)
  | _ => .error .wrongForm

/-- The list of rule names that a value holds. -/
def readNameList : Toml.Value → Except Config.Fault (List String)
  | .array items => readNames items
  | _ => .error .wrongForm

/-- The language version that a value holds. -/
def readVersion : Toml.Value → Except Config.Fault LanguageVersion
  | .string text => (LanguageVersion.parse text).mapError .badVersion
  | _ => .error .wrongForm

/-- The options with one entry of the global table read. The language version has two spellings, of
which only one may be there; other names mean nothing. -/
def withEntry (options : GlobalOptions) (entry : String × Toml.Value) :
    Except Config.Fault GlobalOptions := do
  let (key, value) := entry
  match key with
  | "enable" => return { options with enable := ← readNameList value }
  | "disable" => return { options with disable := ← readNameList value }
  | "only" => return { options with only := ← readNameList value }
  | "unfixable" => return { options with unfixable := ← readNameList value }
  | "language-version" | "language_version" =>
    if options.languageVersion.isSome then .error .wrongForm
    else return { options with languageVersion := some (← readVersion value) }
  | _ => return options

/-- The order in which a list gives the global options, instead of a table that names them. -/
def positions : List String := ["enable", "disable", "only", "unfixable", "language-version"]

/-- The global options that a value holds. -/
def ofValue : Toml.Value → Except Config.Fault GlobalOptions
  | .table entries => entries.foldlM withEntry {}
  | .array items => do
    let options ← (positions.zip items).foldlM withEntry {}
    if positions.length < items.length then .error .wrongForm else return options
  | _ => .error .wrongForm

/-- The options with all rule names in their one spelling. -/
def normalized (options : GlobalOptions) : GlobalOptions :=
  { options with
    enable := options.enable.map normalizeKey
    disable := options.disable.map normalizeKey
    only := options.only.map normalizeKey
    unfixable := options.unfixable.map normalizeKey }

end GlobalOptions

namespace Config

mutual

/-- The value with all its dates and times as texts. -/
def withoutDates : Toml.Value → Toml.Value
  | .datetime text => .string text
  | .array items => .array (withoutDatesItems items)
  | .table entries => .table (withoutDatesEntries entries)
  | .string text => .string text
  | .integer n => .integer n
  | .float x => .float x
  | .boolean b => .boolean b

def withoutDatesItems : List Toml.Value → List Toml.Value
  | [] => []
  | item :: items => withoutDates item :: withoutDatesItems items

def withoutDatesEntries : List (String × Toml.Value) → List (String × Toml.Value)
  | [] => []
  | (key, value) :: entries => (key, withoutDates value) :: withoutDatesEntries entries

end

/-- The table of a rule. -/
def readRule : Toml.Value → Except Fault Toml.Table
  | .table entries => .ok (withoutDatesEntries entries)
  | _ => .error .wrongForm

/-- The tables of the rules among the entries of a document. -/
def readRules : List (String × Toml.Value) → Except Fault (List (String × Toml.Table))
  | [] => .ok []
  | (name, value) :: entries => do
    if name = "global" then readRules entries
    else
      let rule ← readRule value
      return (name, rule) :: (← readRules entries)

/-- A table with its keys in their one spelling. Of two keys that become one, the later counts. -/
def normalizedTable {β : Type} (entries : List (String × β)) : SortedTable β :=
  SortedTable.ofEntries (entries.map fun entry => (normalizeKey entry.1, entry.2))

/-- The configuration with all names in their one spelling. -/
def normalized (config : Config) : Config where
  global := config.global.normalized
  rules := normalizedTable (config.rules.map fun rule => (rule.1, normalizedTable rule.2))

/-- The configuration that the table of a TOML document holds. A fault of the global options comes
before the faults of rules. -/
def ofTable (table : Toml.Table) : Except Fault Config := do
  let global ← match table.get? "global" with
    | some value => GlobalOptions.ofValue value
    | none => pure {}
  let rules ← readRules table
  return normalized { global, rules }

/-- The version of the language that sources are written in. -/
def languageVersion (config : Config) : LanguageVersion :=
  config.global.languageVersion.getD .standard

/-- The options of a rule, if the configuration has a table for it. -/
def rule? (config : Config) (identifier : String) : Option Toml.Table := config.rules.get? identifier

/-- The rule names that occur anywhere in the configuration. -/
def mentioned (config : Config) : List String :=
  config.rules.map Prod.fst ++ config.global.enable ++ config.global.disable ++
    config.global.only ++ config.global.unfixable

/-- The rule names in the configuration that no known rule has, in ascending order. The name `all`
stands for every rule. -/
def unknownRules (config : Config) (known : List String) : List String :=
  let unknown := config.mentioned.filter fun name => name != "all" && !known.contains name
  (SortedTable.ofEntries (unknown.map fun name => (name, ()))).map Prod.fst

end Config

end SourceLint
