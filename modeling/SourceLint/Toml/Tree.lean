import SourceLint.Toml.Value

/-!
# The tree of a TOML document

The entries of a document are put into a tree one after the other. A table remembers how it came about,
since that decides what may still be put into it: a table that dotted keys have made is not stated
later, a table that has been stated is not stated again, and dotted keys do not extend it. What a
dotted key says of an array of tables concerns the last of them, inside which it must go on to a table
that has not been stated.
-/

namespace SourceLint.Toml

/-- How a table came about. -/
inductive Origin where
  /-- On the way to a table further down. -/
  | implied
  /-- By a dotted key. -/
  | dotted
  /-- By a header of its own. -/
  | stated
deriving DecidableEq, Repr

/-- A part of a document that is being read. -/
inductive Tree where
  /-- A value that is complete. -/
  | value (v : Value)
  | table (origin : Origin) (entries : List (String × Tree))
  /-- An array of tables, of which only the last one may still grow. -/
  | tables (earlier : List Value) (last : List (String × Tree))
deriving Inhabited

/-- The entries of a table that is being read. -/
abbrev Branches := List (String × Tree)

namespace Tree

mutual

/-- The value that a part of a document amounts to. -/
def toValue : Tree → Value
  | .value v => v
  | .table _ entries => .table (toTable entries)
  | .tables earlier last => .array (earlier ++ [.table (toTable last)])

/-- The table that some entries amount to. -/
def toTable : Branches → Table
  | [] => []
  | (key, tree) :: entries => SortedTable.insert key (toValue tree) (toTable entries)

end

def get? (entries : Branches) (key : String) : Option Tree :=
  (entries.find? fun entry => entry.1 == key).map Prod.snd

/-- Put a part under a key, in the place of what is there. -/
def put (key : String) (tree : Tree) : Branches → Branches
  | [] => [(key, tree)]
  | (k, t) :: entries => if k = key then (key, tree) :: entries else (k, t) :: put key tree entries

/-- Change the table at the end of a path. Tables on the way that are missing are made, and an array of
tables stands for its last one. The path of dotted keys does not lead through a stated table that is
no part of an array. -/
def alter (isDotted : Bool) (change : Origin → Branches → Option Branches) :
    List String → Origin → Branches → Option Branches
  | [], origin, entries => change origin entries
  | key :: path, _, entries =>
    match get? entries key with
    | none =>
      let origin := if isDotted then .dotted else .implied
      (alter isDotted change path origin []).map fun inner => put key (.table origin inner) entries
    | some (.table origin inner) =>
      if isDotted && origin == .stated then none
      else
        (alter isDotted change path origin inner).map fun inner =>
          put key (.table origin inner) entries
    | some (.tables earlier last) =>
      (alter isDotted change path .stated last).map fun last => put key (.tables earlier last) entries
    | some (.value _) => none

/-- Put a value under a key, which must be free. Behind other keys of a path, the table must not be a
stated one. -/
def insertValue (path : List String) (key : String) (value : Value) :
    Origin → Branches → Option Branches :=
  alter true (fun origin entries =>
    if (!path.isEmpty && origin == .stated) || (get? entries key).isSome then none
    else some (put key (.value value) entries)) path

/-- State a table. It must be new or only implied. -/
def stateTable (path : List String) (key : String) : Branches → Option Branches :=
  alter false (fun _ entries =>
    match get? entries key with
    | none => some (put key (.table .stated []) entries)
    | some (.table .implied inner) => some (put key (.table .stated inner) entries)
    | _ => none) path .stated

/-- Add a table to an array of tables. -/
def appendTable (path : List String) (key : String) : Branches → Option Branches :=
  alter false (fun _ entries =>
    match get? entries key with
    | none => some (put key (.tables [] []) entries)
    | some (.tables earlier last) =>
      some (put key (.tables (earlier ++ [.table (toTable last)]) []) entries)
    | _ => none) path .stated

end Tree

end SourceLint.Toml
