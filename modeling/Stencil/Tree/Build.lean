import Stencil.Defect
import Stencil.Tree.Basic

/-!
# Building code

Constructors for the code that the compiler and its generators put together. Nothing built here
stands in a text; a node spans what its parts span.
-/
namespace Stencil

/-- A keyword or operator with its fixed spelling. -/
def Token.canonical (kind : TokenKind) : Except Defect Token :=
  match kind.spelling with
  | some text => .ok (.detached kind text)
  | none => .error (.noSpelling kind)

/-- The token of a kind whose spelling is fixed. -/
def Token.fixed (kind : TokenKind) : Token := .detached kind (kind.spelling.getD "")

namespace Node

/-! ## Expressions -/

def literal (t : Token) : Node := build .literal [.token t]

def stringLiteral (value : String) : Node := literal (.detached .stringLiteral value)

def intLiteral (value : Int64) : Node := literal (.detached .intLiteral (toString value.toInt))

/-- A literal that is a keyword. -/
def keywordLiteral (kind : TokenKind) : Node := literal (.fixed kind)

def identifierOf (t : Token) : Node := build .identifier [.token t]

def identifier (name : String) : Node := identifierOf (.ofName name)

def this : Node := build .this []

def memberAccess (receiver : Node) (name : String) : Node :=
  build .memberAccess [.node receiver, .token (.ofName name)]

/-- Names joined by dots, as nested member accesses. -/
def path (dotted : String) : Node :=
  match dotted.splitOn "." with
  | [] => identifier ""
  | first :: rest => rest.foldl memberAccess (identifier first)

def invocation (callee : Node) (arguments : List Node) : Node :=
  build .invocation (.node callee :: arguments.map .node)

@[simp] theorem nodes_invocation (callee : Node) (arguments : List Node) :
    (invocation callee arguments).nodes = callee :: arguments := by
  simp [invocation]

/-- A call of the function at a dotted path. -/
def call (dotted : String) (arguments : List Node) : Node := invocation (path dotted) arguments

/-- A call of a method of a global. -/
def methodCall (receiver method : String) (arguments : List Node) : Node :=
  invocation (memberAccess (identifier receiver) method) arguments

def parenthesized (inner : Node) : Node := build .parenthesized [.node inner]

def binary (left : Node) (operator : Token) (right : Node) : Node :=
  build .binary [.node left, .token operator, .node right]

def assignment (target value : Node) : Node :=
  build .assignment [.node target, .token (.fixed .equals), .node value]

def typeNamed (type : String) : Node := build .typeName [.token (.detached .typeName type)]

/-- A cast, with its operand in parentheses unless it is a single term. -/
def cast (type : String) (operand : Node) : Node :=
  let operand := match operand.kind with
    | .literal | .identifier | .parenthesized | .invocation | .memberAccess | .elementAccess =>
      operand
    | _ => parenthesized operand
  build .cast [.node (typeNamed type), .node operand]

def await (operand : Node) : Node := build .await [.node operand]

def list (elements : List Node) : Node := build .list (elements.map .node)

/-- A lambda without parameters. -/
def thunk (body : Node) : Node := build .lambda [.node body]

/-! ## Statements and declarations -/

def parameter (type : Option String) (name : String) : Node :=
  build .parameter ((type.toList.map fun t => .node (typeNamed t)) ++ [.token (.ofName name)])

def block (statements : List Node) : Node := build .block (statements.map .node)

def expressionStatement (value : Node) : Node := build .expressionStatement [.node value]

def declarator (name : Token) (value : Option Node) : Node :=
  build .declarator (.token name :: value.toList.map .node)

/-- The declaration of one variable. -/
def localDeclaration (name : Token) (value : Option Node) : Node :=
  build .localDeclaration [.node (declarator name value)]

def returnStatement (value : Option Node) : Node :=
  build .returnStatement (value.toList.map .node)

def yieldReturn (value : Node) : Node := build .yieldReturn [.node value]

def yieldBreak : Node := build .yieldBreak []

def ifStatement (condition thenBranch : Node) (elseBranch : Option Node) : Node :=
  build .ifStatement (.node condition :: .node thenBranch ::
    elseBranch.toList.map fun body => .node (build .elseClause [.node body]))

def whileStatement (condition body : Node) : Node :=
  build .whileStatement [.node condition, .node body]

def awaitToken (awaited : Bool) : List (Child Node) :=
  if awaited then [.token (.fixed .awaitKeyword)] else []

def forEachStatement (awaited : Bool) (name : Token) (source body : Node) : Node :=
  build .forEachStatement (awaitToken awaited ++ [.token name, .node source, .node body])

def usingStatement (awaited : Bool) (declared body : Node) : Node :=
  build .usingStatement (awaitToken awaited ++ [.node declared, .node body])

def template (name : String) (parameters : List Node) (body : Node) : Node :=
  build .template (.token (.ofName name) :: (parameters ++ [body]).map .node)

end Node

end Stencil
