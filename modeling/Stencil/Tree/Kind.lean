/-!
# Kinds of nodes and tokens

The two closed vocabularies of syntax trees. Every kind has a stable name, by which generator
programs build nodes and tokens, and both lists keep a fixed order.
-/
namespace Stencil

/-- Composite parts of a program. The comment on a kind gives the layout of its children. -/
inductive NodeKind where
  /-- any number of templates -/
  | compilationUnit
  /-- name, parameters, block -/
  | template
  /-- type (optional), name -/
  | parameter
  /-- the text of a type -/
  | typeName
  /-- statements -/
  | block
  /-- one or more declarators -/
  | localDeclaration
  /-- name, initial value (optional) -/
  | declarator
  /-- expression -/
  | expressionStatement
  /-- nothing -/
  | emptyStatement
  /-- condition, statement, else clause (optional) -/
  | ifStatement
  /-- statement -/
  | elseClause
  /-- `await` (optional), name, source, statement -/
  | forEachStatement
  /-- condition, statement -/
  | whileStatement
  /-- statement, condition -/
  | doStatement
  /-- initializer, condition, increment, statement; a part left out is an empty statement -/
  | forStatement
  /-- value (optional) -/
  | returnStatement
  /-- nothing -/
  | breakStatement
  /-- nothing -/
  | continueStatement
  /-- label -/
  | gotoStatement
  /-- subject, sections -/
  | switchStatement
  /-- a value or `default`, statements -/
  | switchSection
  /-- subject, statement -/
  | lockStatement
  /-- name, parameters, block -/
  | localFunction
  /-- value -/
  | yieldReturn
  /-- nothing -/
  | yieldBreak
  /-- `await` (optional), declaration, statement -/
  | usingStatement
  /-- the literal's token -/
  | literal
  /-- name -/
  | identifier
  /-- nothing -/
  | this
  /-- expression -/
  | parenthesized
  /-- left operand, operator, right operand -/
  | binary
  /-- operator, operand -/
  | unary
  /-- operand, operator -/
  | step
  /-- target, operator, value -/
  | assignment
  /-- condition, two expressions -/
  | conditional
  /-- callee, arguments -/
  | invocation
  /-- receiver, name -/
  | memberAccess
  /-- receiver, index -/
  | elementAccess
  /-- type, operand -/
  | cast
  /-- elements -/
  | list
  /-- parameters, then a block or an expression -/
  | lambda
  /-- operand -/
  | await
  /-- name, source, where clause (optional), select clause -/
  | query
  /-- condition -/
  | whereClause
  /-- expression -/
  | selectClause
deriving DecidableEq, Repr, Inhabited

namespace NodeKind

def all : List NodeKind :=
  [compilationUnit, template, parameter, typeName, block, localDeclaration, declarator,
   expressionStatement, emptyStatement, ifStatement, elseClause, forEachStatement, whileStatement,
   doStatement, forStatement, returnStatement, breakStatement, continueStatement, gotoStatement,
   switchStatement, switchSection, lockStatement, localFunction, yieldReturn, yieldBreak,
   usingStatement, literal, identifier, this, parenthesized, binary, unary, step, assignment,
   conditional, invocation, memberAccess, elementAccess, cast, list, lambda, await, query,
   whereClause, selectClause]

def name : NodeKind → String
  | compilationUnit => "CompilationUnit"
  | template => "Template"
  | parameter => "Parameter"
  | typeName => "TypeSyntax"
  | block => "Block"
  | localDeclaration => "LocalDeclaration"
  | declarator => "VariableDeclarator"
  | expressionStatement => "ExpressionStatement"
  | emptyStatement => "EmptyStatement"
  | ifStatement => "IfStatement"
  | elseClause => "ElseClause"
  | forEachStatement => "ForEachStatement"
  | whileStatement => "WhileStatement"
  | doStatement => "DoStatement"
  | forStatement => "ForStatement"
  | returnStatement => "ReturnStatement"
  | breakStatement => "BreakStatement"
  | continueStatement => "ContinueStatement"
  | gotoStatement => "GotoStatement"
  | switchStatement => "SwitchStatement"
  | switchSection => "SwitchSection"
  | lockStatement => "LockStatement"
  | localFunction => "LocalFunction"
  | yieldReturn => "YieldReturnStatement"
  | yieldBreak => "YieldBreakStatement"
  | usingStatement => "UsingStatement"
  | literal => "LiteralExpression"
  | identifier => "IdentifierName"
  | this => "ThisExpression"
  | parenthesized => "ParenthesizedExpression"
  | binary => "BinaryExpression"
  | unary => "PrefixUnaryExpression"
  | step => "PostfixUnaryExpression"
  | assignment => "AssignmentExpression"
  | conditional => "ConditionalExpression"
  | invocation => "InvocationExpression"
  | memberAccess => "MemberAccessExpression"
  | elementAccess => "ElementAccessExpression"
  | cast => "CastExpression"
  | list => "ListExpression"
  | lambda => "LambdaExpression"
  | await => "AwaitExpression"
  | query => "QueryExpression"
  | whereClause => "WhereClause"
  | selectClause => "SelectClause"

def ofName? (s : String) : Option NodeKind := all.find? (·.name == s)

def isStatement : NodeKind → Bool
  | block | localDeclaration | expressionStatement | emptyStatement | ifStatement
  | forEachStatement | whileStatement | doStatement | forStatement | returnStatement
  | breakStatement | continueStatement | gotoStatement | switchStatement | lockStatement
  | localFunction | yieldReturn | yieldBreak | usingStatement => true
  | _ => false

def isExpression : NodeKind → Bool
  | literal | identifier | this | parenthesized | binary | unary | step | assignment
  | conditional | invocation | memberAccess | elementAccess | cast | list | lambda | await
  | query => true
  | _ => false

theorem mem_all (k : NodeKind) : k ∈ all := by
  cases k <;> decide

/-- No kind is both a statement and an expression. -/
theorem isExpression_eq_false_of_isStatement {k : NodeKind} (h : k.isStatement = true) :
    k.isExpression = false := by
  cases k <;> simp_all [isStatement, isExpression]

end NodeKind

/-- Leaves of a program. -/
inductive TokenKind where
  | identifier
  | typeName
  | intLiteral
  | floatLiteral
  | stringLiteral
  | charLiteral
  | trueKeyword
  | falseKeyword
  | nullKeyword
  | defaultKeyword
  | awaitKeyword
  | plus
  | minus
  | star
  | slash
  | percent
  | equalsEquals
  | bangEquals
  | less
  | greater
  | lessEquals
  | greaterEquals
  | andAnd
  | orOr
  | bang
  | equals
  | plusEquals
  | minusEquals
  | plusPlus
  | minusMinus
deriving DecidableEq, Repr, Inhabited

namespace TokenKind

def all : List TokenKind :=
  [identifier, typeName, intLiteral, floatLiteral, stringLiteral, charLiteral, trueKeyword,
   falseKeyword, nullKeyword, defaultKeyword, awaitKeyword, plus, minus, star, slash, percent,
   equalsEquals, bangEquals, less, greater, lessEquals, greaterEquals, andAnd, orOr, bang, equals,
   plusEquals, minusEquals, plusPlus, minusMinus]

def name : TokenKind → String
  | identifier => "Identifier"
  | typeName => "TypeName"
  | intLiteral => "IntLiteral"
  | floatLiteral => "FloatLiteral"
  | stringLiteral => "StringLiteral"
  | charLiteral => "CharLiteral"
  | trueKeyword => "TrueKeyword"
  | falseKeyword => "FalseKeyword"
  | nullKeyword => "NullKeyword"
  | defaultKeyword => "DefaultKeyword"
  | awaitKeyword => "AwaitKeyword"
  | plus => "Plus"
  | minus => "Minus"
  | star => "Star"
  | slash => "Slash"
  | percent => "Percent"
  | equalsEquals => "EqualsEquals"
  | bangEquals => "BangEquals"
  | less => "Less"
  | greater => "Greater"
  | lessEquals => "LessEquals"
  | greaterEquals => "GreaterEquals"
  | andAnd => "AmpersandAmpersand"
  | orOr => "BarBar"
  | bang => "Bang"
  | equals => "Equals"
  | plusEquals => "PlusEquals"
  | minusEquals => "MinusEquals"
  | plusPlus => "PlusPlus"
  | minusMinus => "MinusMinus"

def ofName? (s : String) : Option TokenKind := all.find? (·.name == s)

/-- The fixed spelling of keywords and operators; `none` for kinds whose text varies. -/
def spelling : TokenKind → Option String
  | identifier | typeName | intLiteral | floatLiteral | stringLiteral | charLiteral => none
  | trueKeyword => some "true"
  | falseKeyword => some "false"
  | nullKeyword => some "null"
  | defaultKeyword => some "default"
  | awaitKeyword => some "await"
  | plus => some "+"
  | minus => some "-"
  | star => some "*"
  | slash => some "/"
  | percent => some "%"
  | equalsEquals => some "=="
  | bangEquals => some "!="
  | less => some "<"
  | greater => some ">"
  | lessEquals => some "<="
  | greaterEquals => some ">="
  | andAnd => some "&&"
  | orOr => some "||"
  | bang => some "!"
  | equals => some "="
  | plusEquals => some "+="
  | minusEquals => some "-="
  | plusPlus => some "++"
  | minusMinus => some "--"

def operators : List TokenKind :=
  [plus, minus, star, slash, percent, equalsEquals, bangEquals, less, greater, lessEquals,
   greaterEquals, andAnd, orOr, bang, equals, plusEquals, minusEquals, plusPlus, minusMinus]

/-- The operator spelled `s`. -/
def ofOperator? (s : String) : Option TokenKind := operators.find? (·.spelling == some s)

def isLiteral : TokenKind → Bool
  | intLiteral | floatLiteral | stringLiteral | charLiteral | trueKeyword | falseKeyword
  | nullKeyword | defaultKeyword => true
  | _ => false

theorem mem_all (k : TokenKind) : k ∈ all := by
  cases k <;> decide

/-- A kind is found by its name. -/
theorem ofName?_name (k : TokenKind) : ofName? k.name = some k := by
  have found : ∀ k ∈ all, ofName? k.name = some k := by decide +kernel
  exact found k k.mem_all

end TokenKind

end Stencil
