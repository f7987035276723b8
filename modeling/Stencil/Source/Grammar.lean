import Stencil.Source.Cursor

/-!
# The productions of the template language

Each production takes the parsers of its parts as arguments: `expr` reads an expression, `stmt` a
statement. The recursion between them is closed in `Stencil.Source.Parser`, so what holds of every
production whenever it holds of its parts holds of the language.

`fuel` bounds repetitions inside one production.
-/
namespace Stencil.Source.Grammar

open Parse

def openBrace : String := "\x7b"

def closeBrace : String := "\x7d"

/-- Types that may stand in a cast. -/
def predefinedTypes : List String :=
  ["bool", "char", "string", "int", "long", "float", "double", "object", "dynamic"]

/-- Binary operators, loosest level first. -/
def binaryLevels : List (List String) :=
  [["||"], ["&&"], ["==", "!="], ["<", ">", "<=", ">="], ["+", "-"], ["*", "/", "%"]]

def asNodes (ns : List Node) : List (Child Node) := ns.map .node

/-! ## Names, types and parameters -/

/-- The text of a type, with its arguments in angle brackets. -/
def typeText : Nat → Parse String
  | 0 => tooDeep
  | fuel + 1 => do
    if (← get).peek.kind != .ident then fail .typeName
    let head := (← bump).text
    if ← eatPunct "<" then
      let arguments ← separated (typeText fuel) fuel
      expectPunct ">"
      return head ++ "<" ++ String.intercalate ", " arguments ++ ">"
    else return head

def typeName (fuel : Nat) : Parse Node := do
  let at0 ← start
  let text ← typeText fuel
  let token : Token := ⟨.typeName, text, ⟨at0, (← get).lastEnd⟩⟩
  finish .typeName at0 [.token token]

/-- A parameter has a type when another name or an angle bracket follows its first word. -/
def parameter (fuel : Nat) : Parse Node := do
  let c ← get
  if (c.ahead 1).isName || (c.ahead 1).isPunct "<" then
    let type ← typeName fuel
    let name ← identifier
    finish .parameter c.start [.node type, .token name]
  else
    let name ← identifier
    finish .parameter c.start [.token name]

def parameterList (fuel : Nat) : Parse (List Node) :=
  bracketed "(" ")" (parameter fuel) fuel

/-! ## Expressions -/

/-- Whether a lambda starts here: `x =>`, or names in parentheses and `=>`. -/
def atLambda (c : Cursor) : Bool :=
  if c.peek.isName && (c.ahead 1).isPunct "=>" then true
  else if c.atPunct "(" then
    match c.rest.tail.dropWhile fun l => l.isName || l.isPunct "," with
    | close :: arrow :: _ => close.isPunct ")" && arrow.isPunct "=>"
    | _ => false
  else false

/-- The names of a lambda's parameters up to the closing parenthesis. -/
def lambdaNames : Nat → Parse (List Node)
  | 0 => tooDeep
  | fuel + 1 => do
    let c ← get
    if c.atPunct ")" then return []
    let name ← identifier
    let parameter ← finish .parameter c.start [.token name]
    if ← eatPunct "," then
      return parameter :: (← lambdaNames fuel)
    else return [parameter]

def block (stmt : Parse Node) (fuel : Nat) : Parse Node := do
  let at0 ← start
  expectPunct openBrace
  let statements ← itemsUntil (·.atPunct closeBrace) stmt fuel
  expectPunct closeBrace
  finish .block at0 (asNodes statements)

def lambda (expr stmt : Parse Node) (fuel : Nat) : Parse Node := do
  let at0 ← start
  let parameters ← do
    if ← eatPunct "(" then
      let parameters ← lambdaNames fuel
      expectPunct ")"
      pure parameters
    else
      let name ← identifier
      pure [← finish .parameter at0 [.token name]]
  expectPunct "=>"
  let body ← if (← get).atPunct openBrace then block stmt fuel else expr
  finish .lambda at0 (asNodes (parameters ++ [body]))

def query (expr : Parse Node) : Parse Node := do
  let at0 ← start
  expectWord "from"
  let name ← identifier
  expectWord "in"
  let source ← expr
  let whereAt ← start
  let filters ← do
    if ← eatWord "where" then
      let condition ← expr
      pure [← finish .whereClause whereAt [.node condition]]
    else pure []
  let selectAt ← start
  expectWord "select"
  let selection ← expr
  let select ← finish .selectClause selectAt [.node selection]
  finish .query at0 (.token name :: asNodes (source :: filters ++ [select]))

/-- The token kind of a literal that starts here. -/
def literalKind? (l : Lexeme) : Option TokenKind :=
  match l.kind with
  | .int => some .intLiteral
  | .float => some .floatLiteral
  | .string => some .stringLiteral
  | .char => some .charLiteral
  | .ident =>
    match l.text with
    | "true" => some .trueKeyword
    | "false" => some .falseKeyword
    | "null" => some .nullKeyword
    | "default" => some .defaultKeyword
    | _ => none
  | .punct | .eof => none

def primary (expr : Parse Node) (fuel : Nat) : Parse Node := do
  let c ← get
  let l := c.peek
  match literalKind? l with
  | some kind =>
    let token ← takeToken kind
    finish .literal c.start [.token token]
  | none =>
    if l.isWord "this" then
      let _ ← bump
      finish .this c.start []
    else if l.isWord "from" then query expr
    else if l.isName then
      let name ← identifier
      finish .identifier c.start [.token name]
    else if l.isPunct "(" then
      let _ ← bump
      let inner ← expr
      expectPunct ")"
      finish .parenthesized c.start [.node inner]
    else if l.isPunct "[" then
      let elements ← bracketed "[" "]" expr fuel
      finish .list c.start (asNodes elements)
    else fail .expression

/-- Member accesses, calls, indexing and steps after an expression that started at `at0`. -/
def suffixes (expr : Parse Node) (fuel at0 : Nat) (base : Node) : Nat → Parse Node
  | 0 => tooDeep
  | more + 1 => do
    if ← eatPunct "." then
      let name ← identifier
      suffixes expr fuel at0 (← finish .memberAccess at0 [.node base, .token name]) more
    else if (← get).atPunct "(" then
      let arguments ← bracketed "(" ")" expr fuel
      suffixes expr fuel at0 (← finish .invocation at0 (asNodes (base :: arguments))) more
    else if ← eatPunct "[" then
      let index ← expr
      expectPunct "]"
      suffixes expr fuel at0 (← finish .elementAccess at0 [.node base, .node index]) more
    else
      match ← operator? ["++", "--"] with
      | some operator =>
        suffixes expr fuel at0 (← finish .step at0 [.node base, .token operator]) more
      | none => return base

/-- A predefined type alone in parentheses is a cast, whatever follows. -/
def atCast (c : Cursor) : Bool :=
  c.atPunct "(" && (c.ahead 1).kind == .ident && predefinedTypes.contains (c.ahead 1).text
    && (c.ahead 2).isPunct ")"

/-- Operators before an operand, which bind tighter than binary ones. -/
def unary (expr : Parse Node) (fuel : Nat) : Nat → Parse Node
  | 0 => tooDeep
  | more + 1 => do
    let at0 ← start
    match ← operator? ["!", "-"] with
    | some operator =>
      let operand ← unary expr fuel more
      finish .unary at0 [.token operator, .node operand]
    | none =>
      if ← eatWord "await" then
        let operand ← unary expr fuel more
        finish .await at0 [.node operand]
      else if atCast (← get) then
        let _ ← bump
        let type ← typeName fuel
        expectPunct ")"
        let operand ← unary expr fuel more
        finish .cast at0 [.node type, .node operand]
      else
        let base ← primary expr fuel
        suffixes expr fuel at0 base fuel

/-- Further operators of one level; the operands so far lean left. -/
def binaryRest (operand : Parse Node) (operators : List String) (at0 : Nat) (left : Node) :
    Nat → Parse Node
  | 0 => tooDeep
  | fuel + 1 => do
    match ← operator? operators with
    | some operator =>
      let right ← operand
      let joined ← finish .binary at0 [.node left, .token operator, .node right]
      binaryRest operand operators at0 joined fuel
    | none => return left

/-- Binary expressions of the given levels, loosest first. -/
def binary (operand : Parse Node) (fuel : Nat) : List (List String) → Parse Node
  | [] => operand
  | operators :: tighter => do
    let at0 ← start
    let left ← binary operand fuel tighter
    binaryRest (binary operand fuel tighter) operators at0 left fuel

def conditional (expr : Parse Node) (fuel : Nat) : Parse Node := do
  let at0 ← start
  let condition ← binary (unary expr fuel fuel) fuel binaryLevels
  if ← eatPunct "?" then
    let whenTrue ← expr
    expectPunct ":"
    let whenFalse ← expr
    finish .conditional at0 (asNodes [condition, whenTrue, whenFalse])
  else return condition

def expression (expr stmt : Parse Node) (fuel : Nat) : Parse Node := do
  let c ← get
  if atLambda c then lambda expr stmt fuel
  else
    let target ← conditional expr fuel
    match ← operator? ["=", "+=", "-="] with
    | some operator =>
      let value ← expr
      finish .assignment c.start [.node target, .token operator, .node value]
    | none => return target

/-! ## Statements -/

/-- One variable of a declaration, with its initial value. -/
def declarator (expr : Parse Node) : Parse Node := do
  let at0 ← start
  let name ← identifier
  if ← eatPunct "=" then
    let value ← expr
    finish .declarator at0 [.token name, .node value]
  else finish .declarator at0 [.token name]

/-- A declaration without its semicolon. -/
def declaration (expr : Parse Node) (fuel : Nat) : Parse Node := do
  let at0 ← start
  expectWord "var"
  let declarators ← separated (declarator expr) fuel
  finish .localDeclaration at0 (asNodes declarators)

def parenthesizedCondition (expr : Parse Node) : Parse Node := do
  expectPunct "("
  let condition ← expr
  expectPunct ")"
  return condition

def ifStatement (expr stmt : Parse Node) : Parse Node := do
  let at0 ← start
  expectWord "if"
  let condition ← parenthesizedCondition expr
  let thenBranch ← stmt
  let elseAt ← start
  if ← eatWord "else" then
    let body ← stmt
    let clause ← finish .elseClause elseAt [.node body]
    finish .ifStatement at0 (asNodes [condition, thenBranch, clause])
  else finish .ifStatement at0 (asNodes [condition, thenBranch])

/-- A loop over a source; `await?` holds the keyword when it stands in front. -/
def forEachStatement (expr stmt : Parse Node) (at0 : Nat) (await? : List (Child Node)) :
    Parse Node := do
  expectWord "foreach"
  expectPunct "("
  expectWord "var"
  let name ← identifier
  expectWord "in"
  let source ← expr
  expectPunct ")"
  let body ← stmt
  finish .forEachStatement at0 (await? ++ [.token name, .node source, .node body])

def usingStatement (expr stmt : Parse Node) (fuel at0 : Nat) (await? : List (Child Node)) :
    Parse Node := do
  expectWord "using"
  expectPunct "("
  let declared ← declaration expr fuel
  expectPunct ")"
  let body ← stmt
  finish .usingStatement at0 (await? ++ [.node declared, .node body])

/-- The place of a part that was left out. -/
def emptyPart : Parse Node := do
  let at0 ← start
  return ⟨0, .emptyStatement, ⟨at0, at0⟩, [], []⟩

def forStatement (expr stmt : Parse Node) (fuel : Nat) : Parse Node := do
  let at0 ← start
  expectWord "for"
  expectPunct "("
  let c ← get
  let initializer ←
    if c.atPunct ";" then emptyPart
    else if c.atWord "var" then declaration expr fuel
    else do
      let value ← expr
      finish .expressionStatement c.start [.node value]
  expectPunct ";"
  let condition ← if (← get).atPunct ";" then emptyPart else expr
  expectPunct ";"
  let increment ← if (← get).atPunct ")" then emptyPart else expr
  expectPunct ")"
  let body ← stmt
  finish .forStatement at0 (asNodes [initializer, condition, increment, body])

/-- A label and the statements up to the next label or the end of the switch. -/
def switchSection (expr stmt : Parse Node) (fuel : Nat) : Parse Node := do
  let at0 ← start
  let label : Child Node ← do
    if ← eatWord "case" then
      pure (.node (← expr))
    else if (← get).atWord "default" then
      pure (.token (← takeToken .defaultKeyword))
    else fail .sectionLabel
  expectPunct ":"
  let atNext (c : Cursor) : Bool :=
    c.atWord "case" || c.atWord "default" || c.atPunct closeBrace
  let statements ← itemsUntil atNext stmt fuel
  finish .switchSection at0 (label :: asNodes statements)

def switchSections (expr stmt : Parse Node) (fuel : Nat) : Nat → Parse (List Node)
  | 0 => tooDeep
  | more + 1 => do
    if (← get).atPunct closeBrace then return []
    let first ← switchSection expr stmt fuel
    return first :: (← switchSections expr stmt fuel more)

def switchStatement (expr stmt : Parse Node) (fuel : Nat) : Parse Node := do
  let at0 ← start
  expectWord "switch"
  let subject ← parenthesizedCondition expr
  expectPunct openBrace
  let sections ← switchSections expr stmt fuel fuel
  expectPunct closeBrace
  finish .switchStatement at0 (asNodes (subject :: sections))

/-- The shared shape of templates and local functions after their keyword. -/
def routine (stmt : Parse Node) (kind : NodeKind) (fuel at0 : Nat) : Parse Node := do
  let name ← identifier
  let parameters ← parameterList fuel
  let body ← block stmt fuel
  finish kind at0 (.token name :: asNodes (parameters ++ [body]))

/-- A keyword alone, closed by a semicolon. -/
def jump (kind : NodeKind) (at0 : Nat) : Parse Node := do
  let _ ← bump
  expectPunct ";"
  finish kind at0 []

/-- An expression used for its effect. -/
def expressionStatement (expr : Parse Node) : Parse Node := do
  let at0 ← start
  let value ← expr
  expectPunct ";"
  finish .expressionStatement at0 [.node value]

/-- The statement that the keyword `word` opens, if it opens one. -/
def keywordStatement (expr stmt : Parse Node) (fuel at0 : Nat) (word : String) : Parse Node := do
  match word with
  | "var" =>
    let declared ← declaration expr fuel
    expectPunct ";"
    finish .localDeclaration at0 declared.children
  | "if" => ifStatement expr stmt
  | "foreach" => forEachStatement expr stmt at0 []
  | "using" => usingStatement expr stmt fuel at0 []
  | "await" =>
    let next := (← get).ahead 1
    if next.isWord "foreach" then
      let token ← takeToken .awaitKeyword
      forEachStatement expr stmt at0 [.token token]
    else if next.isWord "using" then
      let token ← takeToken .awaitKeyword
      usingStatement expr stmt fuel at0 [.token token]
    else expressionStatement expr
  | "while" =>
    let _ ← bump
    let condition ← parenthesizedCondition expr
    let body ← stmt
    finish .whileStatement at0 (asNodes [condition, body])
  | "do" =>
    let _ ← bump
    let body ← stmt
    expectWord "while"
    let condition ← parenthesizedCondition expr
    expectPunct ";"
    finish .doStatement at0 (asNodes [body, condition])
  | "for" => forStatement expr stmt fuel
  | "return" =>
    let _ ← bump
    let value ← if (← get).atPunct ";" then pure [] else pure [← expr]
    expectPunct ";"
    finish .returnStatement at0 (asNodes value)
  | "break" => jump .breakStatement at0
  | "continue" => jump .continueStatement at0
  | "goto" =>
    let _ ← bump
    let label ← identifier
    expectPunct ";"
    finish .gotoStatement at0 [.token label]
  | "switch" => switchStatement expr stmt fuel
  | "lock" =>
    let _ ← bump
    let subject ← parenthesizedCondition expr
    let body ← stmt
    finish .lockStatement at0 (asNodes [subject, body])
  | "function" =>
    let _ ← bump
    routine stmt .localFunction fuel at0
  | "yield" =>
    let _ ← bump
    if ← eatWord "return" then
      let value ← expr
      expectPunct ";"
      finish .yieldReturn at0 [.node value]
    else
      expectWord "break"
      expectPunct ";"
      finish .yieldBreak at0 []
  | _ => expressionStatement expr

def statement (expr stmt : Parse Node) (fuel : Nat) : Parse Node := do
  let c ← get
  if c.atPunct openBrace then block stmt fuel
  else if ← eatPunct ";" then finish .emptyStatement c.start []
  else if c.peek.kind == .ident then keywordStatement expr stmt fuel c.start c.peek.text
  else expressionStatement expr

def template (stmt : Parse Node) (fuel : Nat) : Parse Node := do
  let at0 ← start
  expectWord "template"
  routine stmt .template fuel at0

end Stencil.Source.Grammar
