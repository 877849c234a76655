import SourceLint.Number.Binary64
import SourceLint.SortedTable

/-!
# Values of TOML documents

Configuration comes as a TOML document. Its tables are sorted by key. A date or a time is kept as
its text.
-/

namespace SourceLint.Toml

/-- A value of a TOML document. -/
inductive Value where
  | string (text : String)
  | integer (n : Int)
  | float (x : Binary64)
  | boolean (b : Bool)
  | datetime (text : String)
  | array (items : List Value)
  | table (entries : List (String × Value))
deriving Repr, Inhabited

/-- A table of a TOML document. -/
abbrev Table := SortedTable Value

/-- The largest integer of a TOML document. -/
def maxInteger : Int := Int.pow 2 63 - 1

/-- The smallest integer of a TOML document. -/
def minInteger : Int := -Int.pow 2 63

end SourceLint.Toml
