import SourceLint.Syntax.Error
import SourceLint.Syntax.Token

/-!
# Lexemes of a source text

A source text is cut into lexemes, which are words, literals, comments and punctuation, with blanks
between them. The functions that measure a lexeme get its first character and the text behind it,
and count how many further characters belong to it. So every lexeme has at least one character,
and cutting it off leaves a shorter text.
-/

namespace SourceLint

/-- A lexeme is a token of some kind, or punctuation. -/
inductive LexemeKind where
  | token (kind : TokenKind)
  | punctuation
deriving DecidableEq, Repr, Inhabited

/-- A lexeme with the offset of its first byte. The gap is the text between it and the lexeme
before it in the same list. -/
structure Lexeme where
  kind : LexemeKind
  gap : String
  start : Nat
  text : String
deriving DecidableEq, Repr, Inhabited

namespace Lexeme

def stop (lexeme : Lexeme) : Nat := lexeme.start + lexeme.text.utf8ByteSize

def span (lexeme : Lexeme) : Span := ⟨lexeme.start, lexeme.text.utf8ByteSize⟩

def isComment (lexeme : Lexeme) : Bool := lexeme.kind == .token .comment

/-- The token that a lexeme gives; punctuation gives none. -/
def token? (lexeme : Lexeme) : Option Token :=
  match lexeme.kind with
  | .token kind => some ⟨kind, lexeme.span⟩
  | .punctuation => none

/-! ### Characters -/

/-- The blanks that may stand between lexemes. -/
def isLayout (c : Char) : Bool := c == ' ' || c == '\t' || c == '\r' || c == '\n'

/-- A word may begin with this character. Every character beyond ASCII may begin a word. -/
def isWordStart (c : Char) : Bool := c.isAlpha || c == '_' || 128 ≤ c.toNat

/-- A word may go on with this character. -/
def isWordPart (c : Char) : Bool := isWordStart c || c.isDigit

/-- Operators consist of these characters. -/
def isOperatorChar (c : Char) : Bool := "/=-+!*%<>&|^~?".toList.contains c

/-- The words that are keywords. -/
def keywords : List String :=
  ["_", "as", "associatedtype", "async", "await", "break", "case", "catch", "class", "continue",
    "default", "defer", "deinit", "do", "dynamic", "else", "enum", "extension", "fallthrough",
    "false", "fileprivate", "final", "for", "func", "guard", "if", "import", "in", "indirect",
    "init", "inout", "internal", "is", "lazy", "let", "mutating", "nil", "nonmutating", "open",
    "operator", "override", "private", "protocol", "public", "repeat", "required", "rethrows",
    "return", "self", "Self", "static", "struct", "subscript", "super", "switch", "throw",
    "throws", "true", "try", "typealias", "unowned", "var", "weak", "where", "while", "actor",
    "convenience"]

/-! ### Measuring -/

/-- The text begins with the characters of `pattern`. -/
def startsWith (pattern cs : List Char) : Bool := pattern.isPrefixOf cs

/-- The number of characters of a word behind its first one. -/
def wordTail (cs : List Char) : Nat := (cs.takeWhile isWordPart).length

/-- The number of characters of a number literal. A point belongs to it when a digit follows. -/
def numberTail : List Char → Nat
  | [] => 0
  | c :: cs =>
    let isPoint := c == '.' && (cs.head?.map Char.isDigit).getD false
    if c.isAlphanum || c == '_' || isPoint then numberTail cs + 1 else 0

/-- The number of characters of an operator behind its first one. An operator ends where a comment
begins. -/
def operatorTail : List Char → Nat
  | [] => 0
  | c :: cs =>
    if startsWith ['/', '/'] (c :: cs) || startsWith ['/', '*'] (c :: cs) then 0
    else if isOperatorChar c then operatorTail cs + 1 else 0

/-- The number of characters up to the end of a block comment inside `outer` other ones, or nothing
if it has no end. Comments nest. -/
def blockCommentTail : (outer : Nat) → List Char → Option Nat
  | outer, '/' :: '*' :: cs => (blockCommentTail (outer + 1) cs).map (· + 2)
  | 0, '*' :: '/' :: _ => some 2
  | outer + 1, '*' :: '/' :: cs => (blockCommentTail outer cs).map (· + 2)
  | outer, _ :: cs => (blockCommentTail outer cs).map (· + 1)
  | _, [] => none

/-- The delimiter of a string literal: its quotes and the number of hash signs around them. A
literal with three quotes may have newlines in it. -/
structure Delimiter where
  isMultiline : Bool
  hashes : Nat
deriving DecidableEq, Repr

namespace Delimiter

/-- The delimiter that begins at a quote with the text `cs` behind it. -/
def atQuote (hashes : Nat) (cs : List Char) : Delimiter := ⟨startsWith ['"', '"'] cs, hashes⟩

/-- The number of quotes behind the first one. -/
def furtherQuotes (d : Delimiter) : Nat := if d.isMultiline then 2 else 0

def hashSigns (d : Delimiter) : List Char := List.replicate d.hashes '#'

/-- What ends a literal with this delimiter. -/
def closing (d : Delimiter) : List Char :=
  List.replicate (d.furtherQuotes + 1) '"' ++ d.hashSigns

end Delimiter

mutual

/-- The number of characters of a string literal behind its opening quotes, closing delimiter
included. The literal begins at offset `start`, and the text at hand at offset `offset`. A backslash
with the hash signs of the delimiter takes the next character away from the literal's grammar,
unless that is a parenthesis: then an interpolation follows. -/
def literalTail (d : Delimiter) (start offset : Nat) : List Char → Except SyntaxError Nat
  | [] => .error (.unterminatedString start)
  | c :: cs =>
    if c == '\n' && !d.isMultiline then .error (.unterminatedString start)
    else if c == '\\' && startsWith d.hashSigns cs then
      let escaped := cs.drop d.hashes
      let offset := offset + 1 + d.hashes
      if startsWith ['('] escaped then
        match interpolationTail start (offset + 1) 0 (escaped.drop 1) with
        | .error e => .error e
        | .ok n =>
          let inside := (escaped.drop 1).take n
          (literalTail d start (offset + 1 + byteLength inside) (escaped.drop (n + 1))).map
            (· + (n + d.hashes + 2))
      else
        (literalTail d start (offset + byteLength (escaped.take 1)) (escaped.drop 1)).map
          (· + (d.hashes + 2))
    else if startsWith d.closing (c :: cs) then .ok d.closing.length
    else (literalTail d start (offset + c.utf8Size) cs).map (· + 1)
termination_by cs => cs.length
decreasing_by all_goals (simp; try omega)

/-- The number of characters of an interpolation behind its opening parenthesis, closing one
included, with `depth` other parentheses open. It stands in the string literal that begins at
offset `start`, and may hold string literals but no newline. -/
def interpolationTail (start offset depth : Nat) : List Char → Except SyntaxError Nat
  | [] => .error (.unterminatedString start)
  | c :: cs =>
    if c == '(' then (interpolationTail start (offset + 1) (depth + 1) cs).map (· + 1)
    else if c == ')' then
      match depth with
      | 0 => .ok 1
      | depth + 1 => (interpolationTail start (offset + 1) depth cs).map (· + 1)
    else if c == '"' then
      let d := Delimiter.atQuote 0 cs
      let opening := d.furtherQuotes
      match literalTail d offset (offset + 1 + opening) (cs.drop opening) with
      | .error e => .error e
      | .ok n =>
        let nested := cs.take (opening + n)
        (interpolationTail start (offset + 1 + byteLength nested) depth (cs.drop (opening + n))).map
          (· + (opening + n + 1))
    else if c == '\n' then .error (.unterminatedString start)
    else (interpolationTail start (offset + c.utf8Size) depth cs).map (· + 1)
termination_by cs => cs.length
decreasing_by all_goals (simp; try omega)

end

/-- The number of characters of a string literal behind its first quote. The literal begins at
offset `start` with its hash signs. -/
def literalAfterQuote (hashes start : Nat) (cs : List Char) : Except SyntaxError Nat :=
  let d := Delimiter.atQuote hashes cs
  let opening := d.furtherQuotes
  (literalTail d start (start + hashes + 1 + opening) (cs.drop opening)).map (· + opening)

/-- The lexeme that begins with a hash sign: a raw string literal, a compiler directive, or the
sign alone. -/
def measureHash (start : Nat) (cs : List Char) : Except SyntaxError (LexemeKind × Nat) :=
  let hashes := (cs.takeWhile (· == '#')).length + 1
  let quoted := cs.drop (hashes - 1)
  if startsWith ['"'] quoted then
    (literalAfterQuote hashes start (quoted.drop 1)).map fun n => (.token .string, hashes + n)
  else if (cs.head?.map isWordStart).getD false then .ok (.token .other, wordTail cs)
  else .ok (.punctuation, 0)

/-- The lexeme that begins with a slash: a comment, or an operator. -/
def measureSlash (start : Nat) (cs : List Char) : Except SyntaxError (LexemeKind × Nat) :=
  if startsWith ['/'] cs then .ok (.token .comment, (cs.takeWhile (· != '\n')).length)
  else if startsWith ['*'] cs then
    match blockCommentTail 0 (cs.drop 1) with
    | some n => .ok (.token .comment, n + 1)
    | none => .error (.unterminatedComment start)
  else .ok (.punctuation, operatorTail cs)

/-- The name that begins with a backtick and ends with the next one. -/
def measureBacktick (start : Nat) (cs : List Char) : Except SyntaxError (LexemeKind × Nat) :=
  match cs.findIdx? (· == '\x60') with
  | some n => .ok (.token .identifier, n + 1)
  | none => .error (.unexpected "\x60" start)

/-- A word is a keyword or an identifier. -/
def wordKind (word : List Char) : TokenKind :=
  if keywords.contains (String.ofList word) then .keyword else .identifier

/-- The kind of the lexeme that begins with the character `c` at offset `start`, and how many
characters of the text behind `c` belong to it. -/
def measure (start : Nat) (c : Char) (cs : List Char) : Except SyntaxError (LexemeKind × Nat) :=
  if c == '/' then measureSlash start cs
  else if c == '"' then (literalAfterQuote 0 start cs).map fun n => (.token .string, n)
  else if c == '#' then measureHash start cs
  else if c == '\x60' then measureBacktick start cs
  else if c == '@' then
    if (cs.head?.map isWordStart).getD false then .ok (.token .other, wordTail cs)
    else .ok (.punctuation, 0)
  else if c == '$' then .ok (.token .identifier, wordTail cs)
  else if c == '.' then
    if startsWith ['.', '.'] cs || startsWith ['.', '<'] cs then .ok (.punctuation, 2)
    else .ok (.punctuation, 0)
  else if c.isDigit then .ok (.token .other, numberTail cs)
  else if isOperatorChar c then .ok (.punctuation, operatorTail cs)
  else if isWordStart c then
    .ok (.token (wordKind (c :: cs.take (wordTail cs))), wordTail cs)
  else .ok (.punctuation, 0)

/-- Cut a text into lexemes. The text begins at offset `offset`, behind the blanks `gap`. -/
def scan (offset : Nat) (gap : String) : List Char → Except SyntaxError (List Lexeme)
  | [] => .ok []
  | c :: cs =>
    if isLayout c then scan (offset + c.utf8Size) (gap.push c) cs
    else
      match measure offset c cs with
      | .error e => .error e
      | .ok (kind, n) =>
        let text := String.ofList (c :: cs.take n)
        match scan (offset + text.utf8ByteSize) "" (cs.drop n) with
        | .error e => .error e
        | .ok lexemes => .ok (⟨kind, gap, offset, text⟩ :: lexemes)
termination_by cs => cs.length
decreasing_by all_goals (simp; try omega)

/-- The lexemes of a source text, comments included. -/
def ofSource (source : String) : Except SyntaxError (List Lexeme) := scan 0 "" source.toList

/-- The lexemes that are no comments. A comment becomes part of the gap before the next lexeme. -/
def significant (gap : String) : List Lexeme → List Lexeme
  | [] => []
  | lexeme :: lexemes =>
    if lexeme.isComment then significant (gap ++ lexeme.gap ++ lexeme.text) lexemes
    else { lexeme with gap := gap ++ lexeme.gap } :: significant "" lexemes

end Lexeme

end SourceLint
