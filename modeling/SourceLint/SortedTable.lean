/-!
# Tables sorted by key

A table holds its entries in ascending order of their keys, with no key twice. Keys are compared by
their code points, which is also the order of their UTF-8 bytes. Putting an entry under a key that
is already there replaces the old one.
-/

namespace SourceLint

/-- A list of entries, meant to be kept in ascending order of their keys. -/
abbrev SortedTable (β : Type _) := List (String × β)

namespace SortedTable

variable {β γ : Type _}

/-- The table with an entry put in. -/
def insert (key : String) (value : β) : SortedTable β → SortedTable β
  | [] => [(key, value)]
  | (k, v) :: entries =>
    if key < k then (key, value) :: (k, v) :: entries
    else if key = k then (key, value) :: entries
    else (k, v) :: insert key value entries

/-- The value under a key. -/
def get? (table : SortedTable β) (key : String) : Option β :=
  (table.find? fun entry => entry.1 == key).map Prod.snd

/-- The table of some entries. Of two entries with one key the later one counts. -/
def ofEntries (entries : List (String × β)) : SortedTable β :=
  entries.foldl (fun table entry => insert entry.1 entry.2 table) []

/-- Keys ascend strictly. -/
def Ascending (table : SortedTable β) : Prop := table.Pairwise fun a b => a.1 < b.1

/-- Add a number to the count under a key. -/
def addCount (key : String) (n : Nat) (counts : SortedTable Nat) : SortedTable Nat :=
  insert key ((get? counts key).getD 0 + n) counts

/-- The counts of two tables, added under each key. -/
def addCounts (counts more : SortedTable Nat) : SortedTable Nat :=
  more.foldl (fun counts entry => addCount entry.1 entry.2 counts) counts

/-- The sum of all counts. -/
def total (counts : SortedTable Nat) : Nat := counts.foldr (fun entry sum => entry.2 + sum) 0

end SortedTable

end SourceLint
