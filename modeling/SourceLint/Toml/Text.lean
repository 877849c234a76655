import SourceLint.Toml.Scalar

/-!
# Texts of TOML documents

A text stands in quotation marks, which allow escapes, or in apostrophes, which do not. Three of either
surround a text of several lines. Each reader begins behind the opening marks and returns the text and
what comes behind the closing marks.
-/

namespace SourceLint.Toml

/-- The character may not stand in a text or a comment. -/
def isControl (c : Char) : Bool := (c.val < 32 && c != '\t') || c.val == 127

/-- The character with the code point in the first `count` digits of a text. -/
def codePoint? (count : Nat) (cs : List Char) : Option Char :=
  let digits := cs.take count
  if digits.length = count ∧ digits.all isHexDigit then
    let code := ofDigits 16 digits
    if code.isValidChar then some (Char.ofNat code) else none
  else none

/-- The character that an escape stands for, and the number of characters of the escape. The text
begins behind the backslash. -/
def escape? : List Char → Option (Char × Nat)
  | 'b' :: _ => some ('\x08', 1)
  | 't' :: _ => some ('\t', 1)
  | 'n' :: _ => some ('\n', 1)
  | 'f' :: _ => some ('\x0c', 1)
  | 'r' :: _ => some ('\r', 1)
  | 'e' :: _ => some ('\x1b', 1)
  | '"' :: _ => some ('"', 1)
  | '\\' :: _ => some ('\\', 1)
  | 'x' :: cs => (codePoint? 2 cs).map (·, 3)
  | 'u' :: cs => (codePoint? 4 cs).map (·, 5)
  | 'U' :: cs => (codePoint? 8 cs).map (·, 9)
  | _ => none

/-- Put a character in front of a text that has been read. -/
def prepend (c : Char) (read : List Char × List Char) : List Char × List Char :=
  (c :: read.1, read.2)

/-- A text in quotation marks. -/
def readQuoted : List Char → Option (List Char × List Char)
  | [] => none
  | c :: cs =>
    if c = '"' then some ([], cs)
    else if c = '\\' then
      match escape? cs with
      | some (escaped, count) => (readQuoted (cs.drop count)).map (prepend escaped)
      | none => none
    else if isControl c then none
    else (readQuoted cs).map (prepend c)
termination_by cs => cs.length
decreasing_by all_goals simp_wf; try omega

/-- A text in apostrophes. -/
def readLiteral : List Char → Option (List Char × List Char)
  | [] => none
  | c :: cs =>
    if c = '\'' then some ([], cs)
    else if isControl c then none
    else (readLiteral cs).map (prepend c)

/-- A text of several lines does not begin with the newline behind its opening marks. -/
def withoutFirstNewline : List Char → List Char
  | '\n' :: cs => cs
  | '\r' :: '\n' :: cs => cs
  | cs => cs

/-- The end of a text of several lines, if it is there: three marks, with one or two more before them
that belong to the text. -/
def closing? (mark : Char) (cs : List Char) : Option (List Char × List Char) :=
  let marks := (cs.takeWhile (· == mark)).length
  if marks < 3 then none
  else
    let extra := min (marks - 3) 2
    some (List.replicate extra mark, cs.drop (extra + 3))

/-- The character may stand in a text of several lines. A carriage return belongs to a newline. -/
def isTextChar (c : Char) (cs : List Char) : Bool :=
  c == '\n' || !isControl c || (c == '\r' && cs.head? == some '\n')

def isLineBlank (c : Char) : Bool := c == ' ' || c == '\t'

/-- What is left behind blanks and newlines. A carriage return without a newline is neither. -/
def skipFold : List Char → List Char
  | '\n' :: cs => skipFold cs
  | '\r' :: '\n' :: cs => skipFold cs
  | c :: cs => if isLineBlank c then skipFold cs else c :: cs
  | [] => []

/-- What is left behind a backslash at the end of a line: it takes away all blanks and newlines up to
the next other character. -/
def joinedLine? (cs : List Char) : Option (List Char) :=
  match cs.dropWhile isLineBlank with
  | '\n' :: _ | '\r' :: '\n' :: _ => some (skipFold cs)
  | _ => none

theorem length_skipFold_le (cs : List Char) : (skipFold cs).length ≤ cs.length := by
  fun_induction skipFold cs with
  | case1 cs ih => exact Nat.le_succ_of_le ih
  | case2 cs ih => exact Nat.le_succ_of_le (Nat.le_succ_of_le ih)
  | case3 c cs _ _ _ ih => exact Nat.le_succ_of_le ih
  | case4 => exact Nat.le_refl _
  | case5 => exact Nat.le_refl _

theorem length_joinedLine?_le {cs rest : List Char} (h : joinedLine? cs = some rest) :
    rest.length ≤ cs.length := by
  unfold joinedLine? at h
  split at h
  · cases h; exact length_skipFold_le _
  · cases h; exact length_skipFold_le _
  · cases h

/-- A text of several lines in quotation marks. -/
def readQuotedLines : List Char → Option (List Char × List Char)
  | [] => none
  | c :: cs =>
    match closing? '"' (c :: cs) with
    | some read => some read
    | none =>
      if c = '\\' then
        match joined : joinedLine? cs with
        | some rest =>
          have := length_joinedLine?_le joined
          readQuotedLines rest
        | none =>
          match escape? cs with
          | some (escaped, count) => (readQuotedLines (cs.drop count)).map (prepend escaped)
          | none => none
      else if isTextChar c cs then (readQuotedLines cs).map (prepend c)
      else none
termination_by cs => cs.length
decreasing_by all_goals simp_wf; try omega

/-- A text of several lines in apostrophes. -/
def readLiteralLines : List Char → Option (List Char × List Char)
  | [] => none
  | c :: cs =>
    match closing? '\'' (c :: cs) with
    | some read => some read
    | none => if isTextChar c cs then (readLiteralLines cs).map (prepend c) else none

/-- A text at the start of some characters, with all its marks, on one line or on several. -/
def readText : List Char → Option (List Char × List Char)
  | '"' :: '"' :: '"' :: cs => readQuotedLines (withoutFirstNewline cs)
  | '\'' :: '\'' :: '\'' :: cs => readLiteralLines (withoutFirstNewline cs)
  | '"' :: cs => readQuoted cs
  | '\'' :: cs => readLiteral cs
  | _ => none

end SourceLint.Toml
