import SourceLint.Toml.Value

/-!
# Option values

Rules read their options as JSON values, and state their defaults as such. The two conversions are
inverse to each other where both sides can hold the value: JSON has no dates and no infinite
numbers, and TOML has no null and only signed integers of 64 bits.
-/

namespace SourceLint

/-- A JSON value. The fields of an object stand in the order in which they were written. -/
inductive Json where
  | null
  | boolean (b : Bool)
  | integer (n : Int)
  | float (x : Binary64)
  | string (text : String)
  | array (items : List Json)
  | object (fields : List (String × Json))
deriving Repr, Inhabited

namespace Json

mutual

/-- The JSON value for a TOML value. A date becomes its text, and a number that is not finite becomes
null. -/
def ofToml : Toml.Value → Json
  | .string text => .string text
  | .integer n => .integer n
  | .float x => if x.isFinite then .float x else .null
  | .boolean b => .boolean b
  | .datetime text => .string text
  | .array items => .array (ofTomlItems items)
  | .table entries => .object (ofTomlEntries entries)

def ofTomlItems : List Toml.Value → List Json
  | [] => []
  | item :: items => ofToml item :: ofTomlItems items

def ofTomlEntries : List (String × Toml.Value) → List (String × Json)
  | [] => []
  | (key, value) :: entries => (key, ofToml value) :: ofTomlEntries entries

end

mutual

/-- The TOML value for a JSON value; there is none for null. Items and fields that are null are left
out. An integer that TOML cannot hold becomes the nearest floating-point number. -/
def toToml? : Json → Option Toml.Value
  | .null => none
  | .boolean b => some (.boolean b)
  | .integer n =>
    if Toml.minInteger ≤ n ∧ n ≤ Toml.maxInteger then some (.integer n)
    else some (.float (Binary64.ofDecimal (n < 0) n.natAbs 0))
  | .float x => some (.float x)
  | .string text => some (.string text)
  | .array items => some (.array (toTomlItems items))
  | .object fields => some (.table (SortedTable.ofEntries (toTomlFields fields)))

def toTomlItems : List Json → List Toml.Value
  | [] => []
  | item :: items =>
    match toToml? item with
    | some value => value :: toTomlItems items
    | none => toTomlItems items

def toTomlFields : List (String × Json) → List (String × Toml.Value)
  | [] => []
  | (key, value) :: fields =>
    match toToml? value with
    | some value => (key, value) :: toTomlFields fields
    | none => toTomlFields fields

end

end Json

end SourceLint
