import SourceLint.Config.Basic
import SourceLint.Severity
import SourceLint.Text.Quoted
import SourceLint.Toml.Json

/-!
# Typed options of rules

The table of a rule is read as the options that the rule has. Names that the rule does not know mean
nothing; of the names that it knows, the first one in order with a value of the wrong kind is
reported. Some options have a second spelling, and no option is given in both. The default options of a
rule are written as a table in the same way.
-/

namespace SourceLint

/-- What is wrong with the value of an option. -/
inductive OptionFault where
  /-- The value is of another kind than the one that the message names. -/
  | wrongKind (found : Json) (wanted : String)
  | negative (n : Int)
  | unknownSeverity (name : String)
  | tooSmall (threshold : Threshold.TooSmall)
  /-- The option has been given before, in another spelling. -/
  | repeated (name : String)
deriving Repr

/-- How messages name a value. -/
def Json.described : Json → String
  | .null => "null"
  | .boolean b => "boolean `" ++ (if b then "true" else "false") ++ "`"
  | .integer n => "integer `" ++ toString n ++ "`"
  | .float x => "floating point `" ++ x.positionalText ++ "`"
  | .string text => "string " ++ quoted text
  | .array _ => "sequence"
  | .object _ => "map"

def OptionFault.message : OptionFault → String
  | wrongKind found wanted => "invalid type: " ++ found.described ++ ", expected " ++ wanted
  | negative n => "invalid value: " ++ (Json.integer n).described ++ ", expected usize"
  | unknownSeverity name => "invalid severity '" ++ name ++ "', expected one of: warning, error"
  | tooSmall threshold => threshold.message
  | repeated name => "duplicate field `" ++ name ++ "`"

/-- Why there is no set of rules for a configuration. -/
inductive ConfigError where
  | unreadable (fault : Config.Fault)
  | invalidOption (rule : String) (fault : OptionFault)
deriving Repr

/-- The message about an invalid option of a rule. -/
def invalidOptionMessage (rule : String) (fault : OptionFault) : String :=
  "Invalid configuration for rule '" ++ rule ++ "': " ++ fault.message

namespace Options

def readSeverity : Json → Except OptionFault Severity
  | .string name =>
    match Severity.ofName? name with
    | some severity => .ok severity
    | none => .error (.unknownSeverity name)
  | value => .error (.wrongKind value "a string")

def readThreshold : Json → Except OptionFault Threshold
  | .integer n => if n < 0 then .error (.negative n) else (Threshold.ofNat n.toNat).mapError .tooSmall
  | value => .error (.wrongKind value "usize")

def readFlag : Json → Except OptionFault Bool
  | .boolean b => .ok b
  | value => .error (.wrongKind value "a boolean")

/-- The value of an option that may be given once. -/
def once {β : Type} (name : String) (read : Json → Except OptionFault β) (given : Option β)
    (value : Json) : Except OptionFault (Option β) :=
  if given.isSome then .error (.repeated name) else (read value).map some

/-- The options of a rule, or the default ones if the configuration has no table for it. The table is read
field by field from `start` on, where nothing is given, and `complete` puts in the default for each option
that is not given. -/
def load {γ α : Type} (withField : γ → String × Json → Except OptionFault γ) (start : γ)
    (complete : γ → α) (config : Config) (rule : String) : Except ConfigError α :=
  match config.rule? rule with
  | none => .ok (complete start)
  | some table =>
    (((Json.ofTomlEntries table).foldlM withField start).map complete).mapError (.invalidOption rule)

/-- The section of a configuration document that holds the options of a rule: its name, and its
value unless that is null. -/
def defaultSection (rule : String) (options : Json) : Option (String × Toml.Value) :=
  (Json.toToml? options).map fun value => (rule, value)

end Options

/-- The options of a rule that can only be told how serious its violations are. -/
structure SeverityOptions where
  severity : Severity := .warning
deriving DecidableEq, Repr, Inhabited

namespace SeverityOptions

/-- The options with the default where no severity is given. -/
def complete (given : Option Severity) : SeverityOptions where
  severity := given.getD ({} : SeverityOptions).severity

/-- The severity that is given when one field more has been read. -/
def withField (given : Option Severity) (field : String × Json) :
    Except OptionFault (Option Severity) :=
  match field.1 with
  | "severity" => Options.once "severity" Options.readSeverity given field.2
  | _ => .ok given

def load (config : Config) (rule : String) : Except ConfigError SeverityOptions :=
  Options.load withField none complete config rule

def toJson (options : SeverityOptions) : Json :=
  .object [("severity", .string options.severity.name)]

end SeverityOptions

/-- The options of the rule on the length of lines: from how many characters on a line is too long,
and which lines it skips. -/
structure LineLengthOptions where
  warning : Threshold := .standardWarning
  error : Threshold := .standardError
  ignoresComments : Bool := false
  ignoresUrls : Bool := false
deriving DecidableEq, Repr

/-- Those of the options that are given. -/
structure LineLengthOptions.Given where
  warning : Option Threshold := none
  error : Option Threshold := none
  ignoresComments : Option Bool := none
  ignoresUrls : Option Bool := none
deriving DecidableEq, Repr

namespace LineLengthOptions

/-- The options with the default for each one that is not given. -/
def complete (given : Given) : LineLengthOptions :=
  let standard : LineLengthOptions := {}
  { warning := given.warning.getD standard.warning
    error := given.error.getD standard.error
    ignoresComments := given.ignoresComments.getD standard.ignoresComments
    ignoresUrls := given.ignoresUrls.getD standard.ignoresUrls }

/-- The options with the given thresholds. A count that is no threshold leaves the default. -/
def ofCounts (warning error : Nat) : LineLengthOptions :=
  let standard : LineLengthOptions := {}
  { standard with
    warning := (Threshold.ofNat warning).toOption.getD standard.warning
    error := (Threshold.ofNat error).toOption.getD standard.error }

/-- The options that are given when one field more has been read. -/
def withField (given : Given) (field : String × Json) : Except OptionFault Given :=
  match field.1 with
  | "warning" => do
    let warning ← Options.once "warning" Options.readThreshold given.warning field.2
    return { given with warning }
  | "error" => do
    let error ← Options.once "error" Options.readThreshold given.error field.2
    return { given with error }
  | "ignores-comments" | "ignores_comments" => do
    let ignoresComments ←
      Options.once "ignores-comments" Options.readFlag given.ignoresComments field.2
    return { given with ignoresComments }
  | "ignores-urls" | "ignores_urls" => do
    let ignoresUrls ← Options.once "ignores-urls" Options.readFlag given.ignoresUrls field.2
    return { given with ignoresUrls }
  | _ => .ok given

def load (config : Config) (rule : String) : Except ConfigError LineLengthOptions :=
  Options.load withField {} complete config rule

def toJson (options : LineLengthOptions) : Json :=
  .object [
    ("warning", .integer options.warning.value),
    ("error", .integer options.error.value),
    ("ignores-comments", .boolean options.ignoresComments),
    ("ignores-urls", .boolean options.ignoresUrls)]

end LineLengthOptions

end SourceLint
