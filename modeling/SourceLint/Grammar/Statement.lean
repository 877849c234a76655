import SourceLint.Grammar.Declaration

/-!
# Statements

Loops, branches and jumps, and the statements of a block one after the other. A statement that
nothing here knows is an expression; if it is not even that, one lexeme is taken and the next
statement is tried.
-/

namespace SourceLint.Grammar

variable (g : Grammar)

/-! ### Conditions -/

/-- Skip the name or the pattern that a condition binds. -/
def skipBinding (c : Cursor) : Outcome Cursor :=
  if c.atSymbol "(" then c.skipGroup
  else if c.peek?.isSome then .ok c.advance
  else .expected c .bindingName

/-- One clause of a condition list: a binding, a case or an expression. -/
def clause (c : Cursor) : Outcome (List Node × Cursor) := do
  if c.atKeyword "let" || c.atKeyword "var" then
    let c ← skipBinding c.advance
    let c ← c.skipDeclaredType
    if c.atSymbol "=" then
      let (e, c) ← g.expression false c.advance
      return (e.nodes, c)
    else return ([], c)
  else
    let c := if c.atKeyword "case" then c.advance else c
    let (e, c) ← g.expression false c
    if e.isPresent then return (e.nodes, c) else .expected c .condition

/-- One clause of a condition list with the comma behind it. -/
def conditionRound (state : List Node × List Element) (c : Cursor) :
    Outcome (Round (List Node × List Element) (List Node × List Element) × Cursor) := do
  let (nodes, elements) := state
  let (more, later) ← g.clause c
  let element : Element := ⟨.condition, .ofBounds c.here later.lastStop⟩
  let state := (nodes ++ more, elements ++ [element])
  if later.atSymbol "," then return (.again state, later.advance) else return (.done state, later)

/-- The clauses of a condition: the nodes in them and their spans. -/
def conditions (c : Cursor) : Outcome ((List Node × List Element) × Cursor) :=
  repeatRounds g.conditionRound ([], []) c

/-! ### Loops -/

/-- Skip the pattern of a `for` loop up to its `in`, with `depth` parentheses and brackets open.
Gives the offset at which the pattern ends. -/
def skipLoopPattern (sourceStop depth patternStop lastStop : Nat) :
    List Lexeme → Outcome (Nat × Cursor)
  | [] => .expected ⟨[], lastStop, sourceStop⟩ (.keyword "in")
  | lexeme :: ahead =>
    let c : Cursor := ⟨lexeme :: ahead, lastStop, sourceStop⟩
    let go (depth : Nat) := skipLoopPattern sourceStop depth lexeme.stop lexeme.stop ahead
    if depth == 0 && lexeme.isKeyword "in" then .ok (patternStop, c)
    else if depth == 0 && lexeme.isSymbol "\x7b" then .expected c (.keyword "in")
    else if lexeme.isSymbol "(" || lexeme.isSymbol "[" then go (depth + 1)
    else if lexeme.isSymbol ")" || lexeme.isSymbol "]" then
      match depth with
      | 0 => .unexpected lexeme
      | depth + 1 => go depth
    else go depth

/-- The condition behind `where` in the head of a loop, if there is one. -/
def whereClause (c : Cursor) : Outcome (List Node × Cursor) := do
  if c.atKeyword "where" then
    let (e, c) ← g.expression false c.advance
    return (e.nodes, c)
  else return ([], c)

/-- A `for` loop over a sequence. -/
def forEach (keyword : Lexeme) (c : Cursor) : Outcome (List Node × Cursor) := do
  let c := c.advance
  let words := c.ahead.takeWhile fun l =>
    l.isKeyword "case" || l.isKeyword "try" || l.isKeyword "await"
  let c := c.advanceBy words.length
  let patternStart := c.here
  let (patternStop, c) ← skipLoopPattern c.sourceStop 0 patternStart c.lastStop c.ahead
  let c := c.advance
  let sequenceStart := c.here
  let (sequence, c) ← g.expression false c
  if !sequence.isPresent then .expected c .sequenceExpression
  else
    let sequenceStop := c.lastStop
    let (condition, c) ← g.whereClause c
    let (body, c) ← g.block c
    let node : Node :=
      { kind := .forEach, span := .ofBounds keyword.start c.lastStop
        elements :=
          [⟨.id, .ofBounds patternStart patternStop⟩, ⟨.expr, .ofBounds sequenceStart sequenceStop⟩]
        children := sequence.nodes ++ condition ++ [body] }
    return ([node], c)

/-- A `while` loop. -/
def whileLoop (keyword : Lexeme) (c : Cursor) : Outcome (List Node × Cursor) := do
  let ((nodes, elements), c) ← g.conditions c.advance
  let (body, c) ← g.block c
  let span := Span.ofBounds keyword.start c.lastStop
  return ([{ kind := .whileLoop, span, elements, children := nodes ++ [body] }], c)

/-- A loop with its condition at the end. -/
def repeatWhile (keyword : Lexeme) (c : Cursor) : Outcome (List Node × Cursor) := do
  let (body, c) ← g.block c.advance
  let c ← c.expectKeyword "while"
  let ((nodes, elements), c) ← g.conditions c
  let span := Span.ofBounds keyword.start c.lastStop
  return ([{ kind := .repeatWhile, span, elements, children := body :: nodes }], c)

/-! ### Branches -/

/-- What stands behind the first block of an `if` statement: nothing, a block, or another `if`
statement. -/
def elseBranch (c : Cursor) : Outcome (List Node × Cursor) := do
  if c.atKeyword "else" then
    let c := c.advance
    let (branch, c) ← if c.atKeyword "if" then g.ifStatement c else g.block c
    return ([branch], c)
  else return ([], c)

/-- An `if` statement with its alternatives. -/
def ifBody (c : Cursor) : Outcome (Node × Cursor) := do
  let start := c.here
  let ((nodes, elements), c) ← g.conditions c.advance
  let (body, c) ← g.block c
  let (alternative, c) ← g.elseBranch c
  let node : Node :=
    { kind := .ifStatement, span := .ofBounds start c.lastStop, elements
      children := nodes ++ [body] ++ alternative }
  return (node, c)

/-- A `guard` statement. -/
def guardStatement (keyword : Lexeme) (c : Cursor) : Outcome (List Node × Cursor) := do
  let ((nodes, elements), c) ← g.conditions c.advance
  let c ← c.expectKeyword "else"
  let (body, c) ← g.block c
  let span := Span.ofBounds keyword.start c.lastStop
  return ([{ kind := .guardStatement, span, elements, children := nodes ++ [body] }], c)

/-- Skip the label of a case clause with its colon. -/
def skipCaseLabel (c : Cursor) : Outcome Cursor := do
  let c := if c.next fun l => l.text == "@unknown" then c.advance else c
  if c.atKeyword "case" then c.advance.skipCasePattern
  else if c.atKeyword "default" then
    let (_, c) ← c.advance.expectSymbol ":" .colon
    return c
  else .expected c .caseOrDefault

/-- One case clause of a `switch` statement. -/
def caseRound (nodes : List Node) (c : Cursor) :
    Outcome (Round (List Node) (List Node) × Cursor) :=
  match c.peek? with
  | none => .ok (.done nodes, c)
  | some lexeme =>
    if lexeme.isSymbol "\x7d" then .ok (.done nodes, c)
    else do
      let c ← skipCaseLabel c
      let (children, c) ← g.statements .functionBody true c
      let span := Span.ofBounds lexeme.start c.lastStop
      return (.again (nodes ++ [{ kind := .caseClause, span, children }]), c)

/-- A `switch` statement. -/
def switchStatement (keyword : Lexeme) (c : Cursor) : Outcome (List Node × Cursor) := do
  let (subject, c) ← g.expression false c.advance
  if !subject.isPresent then .expected c .switchSubject
  else
    let (opener, c) ← c.expectSymbol "\x7b" .openingBrace
    let (clauses, c) ← repeatRounds g.caseRound [] c
    let (closer, c) ← c.expectCloser "\x7d" opener
    let node : Node :=
      { kind := .switchStatement, span := .ofBounds keyword.start closer.stop
        body := Span.ofBounds opener.stop closer.start, children := subject.nodes ++ clauses }
    return ([node], c)

/-- One `catch` clause. -/
def catchRound (nodes : List Node) (c : Cursor) :
    Outcome (Round (List Node) (List Node) × Cursor) := do
  if c.atKeyword "catch" then
    let c ← c.advance.skipToBrace
    let (body, c) ← g.block c
    return (.again (nodes ++ [body]), c)
  else return (.done nodes, c)

/-- A `do` statement with its `catch` clauses: one node for each block. -/
def doStatement (c : Cursor) : Outcome (List Node × Cursor) := do
  let (body, c) ← g.block c.advance
  repeatRounds g.catchRound [body] c

/-! ### Single statements -/

/-- The value behind `return` or `throw`, if there is one on the same line. -/
def jumpValue (c : Cursor) : Outcome (List Node × Cursor) := do
  if c.next fun l => !l.isOnNewLine && !l.isCloser && !l.isSymbol ";" then
    let (e, c) ← g.expression true c
    return (e.nodes, c)
  else return ([], c)

/-- Skip the label behind a jump, if there is one on the same line. -/
def skipJumpLabel (c : Cursor) : Cursor :=
  if c.next fun l => l.isIdentifier && !l.isOnNewLine then c.advance else c

/-- Skip the label of a statement that may have one. -/
def skipStatementLabel (c : Cursor) : Cursor :=
  let isLabelled := c.next Lexeme.isIdentifier && (c.peekAt? 1).any (fun l => l.isSymbol ":") &&
    (c.peekAt? 2).any fun l => ["for", "while", "repeat", "switch", "if", "do"].any l.isKeyword
  if isLabelled then c.advanceBy 2 else c

/-- The nodes of an expression statement. -/
def expressionStatement (c : Cursor) : Outcome (List Node × Cursor) := do
  let (e, c) ← g.expression true c
  return (e.nodes, c)

/-- The statement that begins with a keyword, behind its modifiers. -/
def keywordStatement (scope : Scope) (attributes : List Attribute) (keyword : Lexeme) (c : Cursor) :
    Outcome (List Node × Cursor) :=
  match keyword.text with
  | "let" | "var" => g.bindings scope attributes c
  | "func" | "init" | "deinit" | "subscript" => g.function scope attributes keyword c
  | "class" | "struct" | "enum" | "extension" | "protocol" | "actor" =>
    g.typeDeclaration attributes keyword c
  | "for" => g.forEach keyword c
  | "while" => g.whileLoop keyword c
  | "repeat" => g.repeatWhile keyword c
  | "if" => do
    let (node, c) ← g.ifStatement c
    return ([node], c)
  | "guard" => g.guardStatement keyword c
  | "switch" => g.switchStatement keyword c
  | "do" => g.doStatement c
  | "defer" => do
    let (body, c) ← g.block c.advance
    return ([body], c)
  | "return" | "throw" => g.jumpValue c.advance
  | "break" | "continue" | "fallthrough" => .ok ([], skipJumpLabel c.advance)
  | "import" | "typealias" | "associatedtype" | "case" | "operator" => do
    return ([], ← c.skipLine)
  | _ => g.expressionStatement c

/-- The compiler directives that take their line for themselves. -/
def lineDirectives : List String :=
  ["#if", "#elseif", "#else", "#endif", "#warning", "#error", "#sourceLocation"]

/-- One statement. -/
def statement (scope : Scope) (c : Cursor) : Outcome (List Node × Cursor) := do
  let (attributes, c) ← modifiers (skipStatementLabel c)
  match c.peek? with
  | none => return ([], c)
  | some lexeme =>
    match lexeme.kind with
    | .token .keyword => g.keywordStatement scope attributes lexeme c
    | .token .other =>
      if lineDirectives.contains lexeme.text then return ([], ← c.skipLine)
      else g.expressionStatement c
    | .token .identifier | .token .string | .token .comment | .punctuation =>
      g.expressionStatement c

/-- One statement of a block or a separator. A case label ends the statements of a case clause. -/
def statementRound (scope : Scope) (inSwitch : Bool) (nodes : List Node) (c : Cursor) :
    Outcome (Round (List Node) (List Node) × Cursor) :=
  match c.peek? with
  | none => .ok (.done nodes, c)
  | some lexeme =>
    let isCaseLabel := lexeme.isKeyword "case" || lexeme.isKeyword "default" ||
      lexeme.text == "@unknown"
    if lexeme.isSymbol "\x7d" || (inSwitch && isCaseLabel) then .ok (.done nodes, c)
    else if lexeme.isSymbol ";" then .ok (.again nodes, c.advance)
    else if lexeme.isCloser then .unexpected lexeme
    else do
      let (more, later) ← g.statement scope c
      return (.again (nodes ++ more), if c.hasStalled later then later.advance else later)

/-- The statements up to the end of the block, or of the case clause. -/
def statementsBody (scope : Scope) (inSwitch : Bool) (c : Cursor) :
    Outcome (List Node × Cursor) :=
  repeatRounds (g.statementRound scope inSwitch) [] c

/-! ### Nesting -/

/-- The grammar without any nesting. -/
def exhausted : Grammar where
  statements _ _ _ := .error .exhausted
  expression _ _ := .error .exhausted
  ifStatement _ := .error .exhausted

/-- The grammar with one more level of nesting. -/
def deeper : Grammar where
  statements := g.statementsBody
  expression := g.expressionBody
  ifStatement := g.ifBody

/-- The grammar with `depth` levels of nesting. -/
def ofDepth (depth : Nat) : Grammar := depth.repeat deeper exhausted

/-- A depth that is enough for a text with `n` lexemes: from one lexeme to the next the statements,
then an expression, are nested at most once. -/
def depthBound (n : Nat) : Nat := 2 * n + 2

/-- The forest of a whole source text that ends at offset `sourceStop` and has the given significant
lexemes. -/
def file (lexemes : List Lexeme) (sourceStop : Nat) : Outcome (List Node) := do
  let start : Cursor := ⟨lexemes, 0, sourceStop⟩
  let (nodes, c) ← (ofDepth (depthBound lexemes.length)).statements .topLevel false start
  match c.peek? with
  | some stray => .unexpected stray
  | none => return nodes

end SourceLint.Grammar
