import SourceLint.Grammar.Cursor

/-!
# Skipping over lexemes

Much of a source text holds nothing that rules inspect. These functions step over it and keep the
delimiters balanced: a closing delimiter must fit the last one that was opened.
-/

namespace SourceLint.Cursor

/-- Skip to the first lexeme outside the open groups that passes the test `stop`. The list `opens`
has the opening delimiters of the open groups, the innermost one first. -/
def skipOpen (stop : Lexeme → Bool) (sourceStop : Nat) (opens : List Lexeme) (lastStop : Nat) :
    List Lexeme → Outcome Cursor
  | [] =>
    match opens.getLast? with
    | some opener => .unclosed opener
    | none => .ok ⟨[], lastStop, sourceStop⟩
  | lexeme :: ahead =>
    if opens.isEmpty && stop lexeme then .ok ⟨lexeme :: ahead, lastStop, sourceStop⟩
    else if lexeme.isOpener then skipOpen stop sourceStop (lexeme :: opens) lexeme.stop ahead
    else if lexeme.isCloser then
      match opens with
      | opener :: outer =>
        if lexeme.closes opener then skipOpen stop sourceStop outer lexeme.stop ahead
        else .unexpected lexeme
      | [] => .unexpected lexeme
    else skipOpen stop sourceStop opens lexeme.stop ahead

/-- Skip to the first lexeme outside groups that passes a test, or to the end of the text. -/
def skipUntil (c : Cursor) (stop : Lexeme → Bool) : Outcome Cursor :=
  skipOpen stop c.sourceStop [] c.lastStop c.ahead

/-- Skip the group that the next lexeme opens. -/
def skipGroup (c : Cursor) : Outcome Cursor :=
  match c.ahead with
  | [] => .ok c
  | opener :: ahead => skipOpen (fun _ => true) c.sourceStop [opener] opener.stop ahead

/-- Skip the group that a parenthesis opens right behind the last lexeme, if there is one. -/
def skipAttachedGroup (c : Cursor) : Outcome Cursor :=
  if c.next fun l => l.isSymbol "(" && !l.isApart then c.skipGroup else .ok c

/-- Skip the next lexeme and what follows it on the same logical line. -/
def skipLine (c : Cursor) : Outcome Cursor :=
  c.advance.skipUntil fun l => l.isOnNewLine || l.isCloser || l.isSymbol ";"

/-- Skip to an opening brace. -/
def skipToBrace (c : Cursor) : Outcome Cursor :=
  c.skipUntil fun l => l.isSymbol "\x7b" || l.isCloser

/-- Skip the pattern of a case together with the colon behind it. -/
def skipCasePattern (c : Cursor) : Outcome Cursor := do
  let c ← c.skipUntil fun l => l.isSymbol ":" || l.isSymbol "\x7b" || l.isCloser
  if c.atSymbol ":" then .ok c.advance else .expected c .colon

/-- How far a lexeme opens angle brackets. An arrow has none. -/
def angleDepth (lexeme : Lexeme) : Int :=
  if lexeme.text == "->" then 0
  else (lexeme.text.toList.count '<' : Int) - (lexeme.text.toList.count '>' : Int)

/-- Skip generic parameters with `depth` angle brackets open and with the open groups `opens`. They
end when no angle bracket is open, or before a lexeme that cannot belong to them. -/
def skipGenericOpen (sourceStop : Nat) (depth : Int) (opens : List Lexeme) (lastStop : Nat) :
    List Lexeme → Outcome Cursor
  | [] =>
    match opens.getLast? with
    | some opener => .unclosed opener
    | none => .ok ⟨[], lastStop, sourceStop⟩
  | lexeme :: ahead =>
    match opens with
    | opener :: outer =>
      if lexeme.isOpener then
        skipGenericOpen sourceStop depth (lexeme :: opens) lexeme.stop ahead
      else if !lexeme.isCloser then skipGenericOpen sourceStop depth opens lexeme.stop ahead
      else if lexeme.closes opener then
        skipGenericOpen sourceStop depth outer lexeme.stop ahead
      else .unexpected lexeme
    | [] =>
      if lexeme.isSymbol "(" || lexeme.isSymbol "[" then
        skipGenericOpen sourceStop depth [lexeme] lexeme.stop ahead
      else if lexeme.isSymbol "\x7b" || lexeme.isCloser || lexeme.isSymbol ";" then
        .ok ⟨lexeme :: ahead, lastStop, sourceStop⟩
      else
        let depth := if lexeme.kind == .punctuation then depth + angleDepth lexeme else depth
        if depth ≤ 0 then .ok ⟨ahead, lexeme.stop, sourceStop⟩
        else skipGenericOpen sourceStop depth [] lexeme.stop ahead

/-- Skip generic parameters. -/
def skipGeneric (c : Cursor) : Outcome Cursor :=
  skipGenericOpen c.sourceStop 0 [] c.lastStop c.ahead

/-- Skip the generic parameters of a declaration, if it has some. -/
def skipGenericParameters (c : Cursor) : Outcome Cursor :=
  if c.next fun l => l.kind == .punctuation && l.beginsWith '<' then c.skipGeneric else .ok c

/-- Skip one part of a type. The state tells whether another part has to follow; if not, the type
ends with its line. -/
def typeRound (expectsMore : Bool) (c : Cursor) : Outcome (Round Bool Unit × Cursor) :=
  let stop : Outcome (Round Bool Unit × Cursor) := .ok (.done (), c)
  let go (expectsMore : Bool) : Outcome (Round Bool Unit × Cursor) :=
    .ok (.again expectsMore, c.advance)
  match c.peek? with
  | none => stop
  | some lexeme =>
    if !expectsMore && lexeme.isOnNewLine then stop
    else
      match lexeme.kind with
      | .token .identifier =>
        if expectsMore then go (lexeme.text == "some" || lexeme.text == "any") else stop
      | .token .keyword =>
        if expectsMore then
          if ["Self", "inout", "_"].contains lexeme.text then go (lexeme.text == "inout") else stop
        else if ["throws", "rethrows", "async"].contains lexeme.text then go false
        else stop
      | .token .other => if lexeme.beginsWith '@' then go true else stop
      | .punctuation =>
        if expectsMore && (lexeme.text == "(" || lexeme.text == "[") then do
          let c ← c.skipGroup
          return (.again false, c)
        else if [".", "->", "&"].contains lexeme.text then go true
        else if lexeme.text == "..." then go expectsMore
        else if lexeme.beginsWith '<' && !lexeme.isApart then do
          let c ← c.skipGeneric
          return (.again false, c)
        else if lexeme.isPostfixOperator then go expectsMore
        else stop
      | .token .string | .token .comment => stop

/-- Skip a type. -/
def skipType (c : Cursor) : Outcome Cursor := do
  let (_, c) ← repeatRounds typeRound true c
  return c

/-- Skip the type that a colon announces, if one does. -/
def skipDeclaredType (c : Cursor) : Outcome Cursor :=
  if c.atSymbol ":" then c.advance.skipType else .ok c

/-- Skip a question or exclamation mark right behind the last lexeme. -/
def skipPostfixOperator (c : Cursor) : Cursor :=
  if c.next Lexeme.isPostfixOperator then c.advance else c

end SourceLint.Cursor
