import SourceLint.Grammar.Expression

/-!
# Declarations

Variables, functions and types. A declaration node begins at its keyword: the attributes and
modifiers before it are kept with it but lie outside its span. Functions take over the statements of
their body as children.
-/

namespace SourceLint

namespace Scope

/-- The kind of a variable declared in a scope. -/
def variableKind : Scope → NodeKind
  | topLevel => .varGlobal
  | typeBody => .varInstance
  | functionBody => .varLocal

/-- The kind of a function declared in a scope. -/
def functionKind : Scope → NodeKind
  | typeBody => .functionMethod
  | topLevel | functionBody => .functionFree

end Scope

namespace Grammar

/-- The words that may modify a declaration. -/
def modifierWords : List String :=
  ["weak", "unowned", "lazy", "final", "static", "class", "override", "mutating", "nonmutating",
    "private", "fileprivate", "internal", "public", "open", "dynamic", "required", "convenience",
    "indirect"]

/-- The words that may follow a modifier and begin a declaration. -/
def declarationWords : List String :=
  ["let", "var", "func", "init", "deinit", "subscript", "class", "struct", "enum", "extension",
    "protocol", "actor", "typealias", "case"]

variable (g : Grammar)

/-! ### Modifiers -/

/-- The next lexeme modifies a declaration: it can, and what follows it shows that it does. -/
def atModifier (c : Cursor) : Bool :=
  match c.peek?, c.peekAt? 1 with
  | some lexeme, some follower =>
    modifierWords.contains lexeme.text &&
      match follower.kind with
      | .token .keyword =>
        declarationWords.contains follower.text || modifierWords.contains follower.text
      | .token .other => follower.beginsWith '@'
      | .punctuation => follower.text == "(" && !follower.isApart &&
        (c.peekAt? 2).any fun l => ["set", "safe", "unsafe"].contains l.text
      | .token .identifier | .token .string | .token .comment => false
  | _, _ => false

/-- Whether a modifier or an attribute comes next, and the kind that it gives to the declaration. -/
def modifierKind? (c : Cursor) : Option (Option AttributeKind) :=
  match c.peek? with
  | none => none
  | some lexeme =>
    if lexeme.isAttribute then if lexeme.text == "@unknown" then none else some (some .custom)
    else if atModifier c then some (AttributeKind.ofModifier? lexeme.text)
    else none

/-- One modifier or attribute with its argument. -/
def modifierRound (attributes : List Attribute) (c : Cursor) :
    Outcome (Round (List Attribute) (List Attribute) × Cursor) :=
  match modifierKind? c with
  | none => .ok (.done attributes, c)
  | some kind => do
    let later ← c.advance.skipAttachedGroup
    let span := Span.ofBounds c.here later.lastStop
    return (.again (attributes ++ kind.toList.map fun kind => ⟨kind, span⟩), later)

/-- The modifiers and attributes before a declaration. -/
def modifiers (c : Cursor) : Outcome (List Attribute × Cursor) := repeatRounds modifierRound [] c

/-! ### Blocks -/

/-- A block of statements between braces. -/
def block (c : Cursor) : Outcome (Node × Cursor) := do
  let (opener, c) ← c.expectSymbol "\x7b" .openingBrace
  let (children, c) ← g.statements .functionBody false c
  let (closer, c) ← c.expectCloser "\x7d" opener
  let body := Span.ofBounds opener.stop closer.start
  return ({ kind := .brace, span := .ofBounds opener.start closer.stop, body, children }, c)

/-! ### Variables -/

/-- The name of a variable, or the pattern that stands for it, which has no name. -/
def variablePattern (c : Cursor) : Outcome (Option Lexeme × Cursor) :=
  match c.peek? with
  | none => .expected c .variableName
  | some lexeme =>
    if lexeme.isSymbol "(" then do return (none, ← c.skipGroup)
    else if lexeme.isWord then .ok (some lexeme, c.advance)
    else .expected c .variableName

/-- The initial value of a variable, or its accessors. -/
def variableValue (c : Cursor) : Outcome (List Node × Cursor) := do
  if c.atSymbol "=" then
    let (e, c) ← g.expression true c.advance
    if e.isPresent then return (e.nodes, c) else .expected c .expression
  else if c.next fun l => l.isSymbol "\x7b" && !l.isOnNewLine then
    let (accessors, c) ← g.block c
    return ([accessors], c)
  else return ([], c)

/-- One variable of a declaration. The state has the variables before it and the offset at which
this one begins. -/
def variableRound (scope : Scope) (attributes : List Attribute) (state : List Node × Nat)
    (c : Cursor) : Outcome (Round (List Node × Nat) (List Node) × Cursor) := do
  let (nodes, start) := state
  let (name, c) ← variablePattern c
  let c ← c.skipDeclaredType
  let (children, c) ← g.variableValue c
  let node : Node :=
    { kind := scope.variableKind, span := .ofBounds start c.lastStop
      name := name.map Lexeme.text, nameSpan := name.map Lexeme.span, attributes, children }
  if c.atSymbol "," then return (.again (nodes ++ [node], c.advance.here), c.advance)
  else return (.done (nodes ++ [node]), c)

/-- The variables that `let` or `var` declares. -/
def bindings (scope : Scope) (attributes : List Attribute) (c : Cursor) :
    Outcome (List Node × Cursor) :=
  repeatRounds (g.variableRound scope attributes) ([], c.here) c.advance

/-! ### Functions -/

/-- The default value of a parameter, if it has one. -/
def defaultValue (c : Cursor) : Outcome (List Node × Cursor) := do
  if c.atSymbol "=" then
    let (e, c) ← g.expression true c.advance
    return (e.nodes, c)
  else return ([], c)

/-- One parameter or separator. The last of a parameter's words is its name; an underscore is none. -/
def parameterRound (opener : Lexeme) (nodes : List Node) (c : Cursor) :
    Outcome (Round (List Node) (List Node) × Cursor) :=
  match c.peek? with
  | none => .unclosed opener
  | some lexeme =>
    if lexeme.isSymbol ")" then .ok (.done nodes, c.advance)
    else if lexeme.isSymbol "," then .ok (.again nodes, c.advance)
    else if lexeme.isCloser then .unexpected lexeme
    else do
      let words := c.ahead.takeWhile Lexeme.isWord
      let name := (words.filter fun l => l.text != "_").getLast?
      let later ← (c.advanceBy words.length).skipDeclaredType
      let (children, later) ← g.defaultValue later
      if c.hasStalled later then return (.again nodes, c.advance)
      let node : Node :=
        { kind := .varParameter, span := .ofBounds lexeme.start later.lastStop
          name := name.map Lexeme.text, nameSpan := name.map Lexeme.span, children }
      return (.again (nodes ++ [node]), later)

/-- The parameters of a function, if it has a list of them. -/
def parameters (c : Cursor) : Outcome (List Node × Cursor) :=
  match c.peek? with
  | some opener =>
    if opener.isSymbol "(" then repeatRounds (g.parameterRound opener) [] c.advance
    else .ok ([], c)
  | none => .ok ([], c)

/-- The name of a function: the lexeme behind `func`, or else the keyword itself. -/
def functionName (keyword : Lexeme) (c : Cursor) : Outcome (Lexeme × Cursor) :=
  if keyword.text == "func" then
    match c.peek? with
    | some name => .ok (name, c.advance)
    | none => .expected c .functionName
  else .ok (keyword, c.skipPostfixOperator)

/-- Skip what stands between the parameters of a function and its body. -/
def skipFunctionType (c : Cursor) : Outcome Cursor := do
  let effects := c.ahead.takeWhile fun l =>
    l.isKeyword "async" || l.isKeyword "throws" || l.isKeyword "rethrows"
  let c := c.advanceBy effects.length
  let c ← if c.atSymbol "->" then c.advance.skipType else pure c
  if c.atKeyword "where" then c.skipToBrace else return c

/-- The body of a function, if it has one. -/
def functionBody (c : Cursor) : Outcome (Option Node × Cursor) := do
  if c.atSymbol "\x7b" then
    let (body, c) ← g.block c
    return (some body, c)
  else return (none, c)

/-- A function, an initializer, a deinitializer or a subscript. -/
def function (scope : Scope) (attributes : List Attribute) (keyword : Lexeme) (c : Cursor) :
    Outcome (List Node × Cursor) := do
  let (name, c) ← functionName keyword c.advance
  let c ← c.skipGenericParameters
  let (parameters, c) ← g.parameters c
  let c ← skipFunctionType c
  let (body, c) ← g.functionBody c
  let node : Node :=
    { kind := scope.functionKind, span := .ofBounds keyword.start c.lastStop
      name := name.text, nameSpan := name.span
      body := body.bind Node.body, attributes
      children := parameters ++ (body.map Node.children).getD [] }
  return ([node], c)

/-! ### Types -/

/-- The kind of type that a keyword declares. -/
def typeKind (keyword : String) : NodeKind :=
  match keyword with
  | "struct" => .structType
  | "enum" => .enumType
  | "extension" => .extensionType
  | "protocol" => .protocolType
  | _ => .classType

/-- The number of lexemes of a type's name: identifiers with points between them. -/
def typeNameLength : List Lexeme → Nat
  | [] => 0
  | lexeme :: lexemes =>
    if lexeme.isIdentifier then
      match lexemes with
      | point :: others => if point.isSymbol "." then typeNameLength others + 2 else 1
      | [] => 1
    else 0

/-- One type that a type inherits from. -/
def inheritanceRound (_ : Unit) (c : Cursor) : Outcome (Round Unit Unit × Cursor) := do
  let c ← c.skipType
  if c.atSymbol "," then return (.again (), c.advance) else return (.done (), c)

/-- Skip what stands between the name of a type and its body. -/
def skipTypeHead (c : Cursor) : Outcome Cursor := do
  let c ← c.skipGenericParameters
  let c ←
    if c.atSymbol ":" then do
      let (_, c) ← repeatRounds inheritanceRound () c.advance
      pure c
    else pure c
  if c.atKeyword "where" then c.skipToBrace else return c

/-- A class, structure, enumeration, extension, protocol or actor. -/
def typeDeclaration (attributes : List Attribute) (keyword : Lexeme) (c : Cursor) :
    Outcome (List Node × Cursor) := do
  let first := c.advance
  let c := first.advanceBy (typeNameLength first.ahead)
  if first.hasStalled c then .expected c .typeName
  else
    let nameSpan := Span.ofBounds first.here c.lastStop
    let name := Lexeme.spelling (first.lexemesTo c)
    let c ← skipTypeHead c
    let (opener, c) ← c.expectSymbol "\x7b" .openingBrace
    let (members, c) ← g.statements .typeBody false c
    let (closer, c) ← c.expectCloser "\x7d" opener
    let node : Node :=
      { kind := typeKind keyword.text, span := .ofBounds keyword.start closer.stop, name, nameSpan
        body := Span.ofBounds opener.stop closer.start, attributes, children := members }
    return ([node], c)

end Grammar

end SourceLint
