import SourceLint.Toml.Text
import SourceLint.Toml.Tree

/-!
# TOML documents

A document is a sequence of headers and entries. A header names the table that the entries behind it
belong to. Arrays and inline tables may go over several lines and end with a comma; in an inline table
a line may end anywhere but inside the path of an entry. Nesting is bounded.
-/

namespace SourceLint.Toml

/-- What is left behind blanks, newlines and comments; whether the text begins in a comment. -/
def skipBlanksFrom (inComment : Bool) : List Char → Option (List Char)
  | [] => some []
  | '\n' :: cs => skipBlanksFrom false cs
  | '\r' :: '\n' :: cs => skipBlanksFrom false cs
  | c :: cs =>
    if inComment then if isControl c then none else skipBlanksFrom true cs
    else if c = '#' then skipBlanksFrom true cs
    else if isLineBlank c then skipBlanksFrom false cs
    else some (c :: cs)

/-- What is left behind blanks, newlines and comments. -/
def skipBlanks (cs : List Char) : Option (List Char) := skipBlanksFrom false cs

/-- What is left behind blanks on the line. -/
def skipSpacing (cs : List Char) : List Char := cs.dropWhile isLineBlank

/-- What is left behind the end of a line, which may have a comment. -/
def readLineEnd (cs : List Char) : Option (List Char) :=
  match skipSpacing cs with
  | [] => some []
  | '#' :: rest => skipBlanksFrom true rest
  | '\n' :: rest => some rest
  | '\r' :: '\n' :: rest => some rest
  | _ => none

/-- How deep arrays and inline tables may be nested, and how many keys a path may have. -/
def maxNesting : Nat := 80

/-! ### Keys -/

def isKeyChar (c : Char) : Bool := c.isAlphanum || c == '_' || c == '-'

/-- One key, in quotation marks or not. -/
def readKey : List Char → Option (String × List Char)
  | '"' :: cs => (readQuoted cs).map fun (key, rest) => (String.ofList key, rest)
  | '\'' :: cs => (readLiteral cs).map fun (key, rest) => (String.ofList key, rest)
  | cs =>
    let key := cs.takeWhile isKeyChar
    if key.isEmpty then none else some (String.ofList key, cs.dropWhile isKeyChar)

/-- At most `bound` keys with dots between them: the path to the last one, and the last one. -/
def readKeys : (bound : Nat) → List Char → Option ((List String × String) × List Char)
  | 0, _ => none
  | bound + 1, cs => do
    let (key, rest) ← readKey (skipSpacing cs)
    match skipSpacing rest with
    | '.' :: rest =>
      let ((path, last), rest) ← readKeys bound rest
      return ((key :: path, last), rest)
    | rest => return (([], key), rest)

/-- Keys with dots between them: the path to the last one, and the last one. -/
def readPath (cs : List Char) : Option ((List String × String) × List Char) :=
  readKeys maxNesting cs

/-! ### Values -/

/-- The character may stand in a value without quotation marks. -/
def isScalarChar (c : Char) : Bool :=
  c.isAlphanum || c == '_' || c == '+' || c == '-' || c == '.' || c == ':'

/-- A value without quotation marks. A blank may separate a date from a time. -/
def readScalar (cs : List Char) : Option (Value × List Char) :=
  let word := cs.takeWhile isScalarChar
  let rest := cs.dropWhile isScalarChar
  match readDate word, rest with
  | some (_, []), ' ' :: c :: more =>
    if c.isDigit then
      let time := (c :: more).takeWhile isScalarChar
      (scalar? (word ++ ' ' :: time)).map (·, (c :: more).dropWhile isScalarChar)
    else (scalar? word).map (·, rest)
  | _, _ => (scalar? word).map (·, rest)

mutual

/-- A value with at most `depth` arrays and inline tables around each other. The bound `fuel` is more
than the number of characters of the value. -/
def readValue : (fuel depth : Nat) → List Char → Option (Value × List Char)
  | 0, _, _ => none
  | fuel + 1, depth + 1, '[' :: cs => do
    let (items, rest) ← readItems fuel depth (← skipBlanks cs)
    return (.array items, rest)
  | fuel + 1, depth + 1, '\x7b' :: cs => do
    let (entries, rest) ← readInline fuel depth [] (← skipBlanks cs)
    return (.table (Tree.toTable entries), rest)
  | _ + 1, _, cs =>
    match cs with
    | '"' :: _ | '\'' :: _ => (readText cs).map fun (text, rest) => (.string (String.ofList text), rest)
    | _ => readScalar cs

/-- The items of an array up to its closing bracket. -/
def readItems : (fuel depth : Nat) → List Char → Option (List Value × List Char)
  | 0, _, _ => none
  | fuel + 1, depth, cs =>
    match cs with
    | ']' :: rest => some ([], rest)
    | _ => do
      let (value, rest) ← readValue fuel depth cs
      match ← skipBlanks rest with
      | ',' :: rest =>
        let (values, rest) ← readItems fuel depth (← skipBlanks rest)
        return (value :: values, rest)
      | ']' :: rest => return ([value], rest)
      | _ => none

/-- The entries of an inline table up to its closing brace, put into those before them. -/
def readInline : (fuel depth : Nat) → Branches → List Char → Option (Branches × List Char)
  | 0, _, _, _ => none
  | fuel + 1, depth, entries, cs =>
    match cs with
    | '\x7d' :: rest => some (entries, rest)
    | _ => do
      let ((path, key), rest) ← readPath cs
      let rest ← readChar '=' (← skipBlanks rest)
      let (value, rest) ← readValue fuel depth (← skipBlanks rest)
      let entries ← Tree.insertValue path key value .stated entries
      match ← skipBlanks rest with
      | ',' :: rest => readInline fuel depth entries (← skipBlanks rest)
      | '\x7d' :: rest => return (entries, rest)
      | _ => none

end

/-! ### The document -/

/-- The path to a table and its key. -/
abbrev Header := List String × String

/-- A document as far as it has been read: its entries, and the path to the table that the next
entries belong to. -/
structure Document where
  entries : Branches := []
  current : List String := []

namespace Document

/-- Take in a header, from behind its opening bracket. -/
def readHeader (document : Document) (cs : List Char) : Option (Document × List Char) := do
  let ((path, key), rest) ← readPath cs
  let rest ← readChar ']' rest
  let entries ← Tree.stateTable path key document.entries
  return ({ entries := entries, current := path ++ [key] }, rest)

/-- Take in a header of an array of tables, from behind its opening brackets. -/
def readArrayHeader (document : Document) (cs : List Char) : Option (Document × List Char) := do
  let ((path, key), rest) ← readPath cs
  let rest ← readChar ']' (← readChar ']' rest)
  let entries ← Tree.appendTable path key document.entries
  return ({ entries := entries, current := path ++ [key] }, rest)

/-- Take in an entry. -/
def readEntry (document : Document) (cs : List Char) : Option (Document × List Char) := do
  let ((path, key), rest) ← readPath cs
  let (value, rest) ← readValue (cs.length + 1) maxNesting (skipSpacing (← readChar '=' rest))
  let entries ← Tree.alter false (Tree.insertValue path key value) document.current .stated
    document.entries
  return ({ document with entries := entries }, rest)

/-- Take in what comes next on a line. -/
def readStatement (document : Document) : List Char → Option (Document × List Char)
  | '[' :: '[' :: cs => document.readArrayHeader cs
  | '[' :: cs => document.readHeader cs
  | cs => document.readEntry cs

/-- Take in at most `fuel` headers and entries, up to the end of the text. -/
def readAll (document : Document) : (fuel : Nat) → List Char → Option Document
  | 0, _ => none
  | fuel + 1, cs => do
    match ← skipBlanks cs with
    | [] => return document
    | rest =>
      let (document, rest) ← document.readStatement rest
      readAll document fuel (← readLineEnd rest)

end Document

/-- A text without the mark of its byte order. -/
def withoutByteOrderMark : List Char → List Char
  | '\ufeff' :: cs => cs
  | cs => cs

/-- The table that a document holds, if the text is a document. -/
def Table.ofDocument? (text : String) : Option Table :=
  let cs := withoutByteOrderMark text.toList
  (Document.readAll {} (cs.length + 1) cs).map fun document => Tree.toTable document.entries

end SourceLint.Toml
