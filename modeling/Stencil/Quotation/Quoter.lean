import Stencil.Quotation.Frame
import Stencil.Quotation.WrappedCall
import Stencil.Tree.Build

/-!
# Quoting templates

A classified template becomes a *generator*: a program in the same language that builds the
generated code as a tree when it runs.

* Generation-time statements are kept. An `if` or `foreach` of generation time stays control flow
  of the generator, and its branches are quoted in place.
* Every other statement is quoted: it becomes calls of node constructors, such as
  `Syntax.IfStatement(...)`, whose result is added to the accumulator of the block being built.
* Generation-time values inside generated code go through literal constructors, and splices
  through `Syntax.Splice`.
* Generated locals get fresh names when the generator runs.

A generated block that needs statements of the generator is built by a closure with an accumulator
of its own.
-/
namespace Stencil

/-- A compiled template. -/
structure Generator where
  /-- the name of the template -/
  template : String
  name : String
  /-- a template node whose body builds the generated code -/
  program : Node
deriving Repr

namespace Quotation

/-! ## Pieces of generator programs -/

/-- A call of a node constructor. -/
def construct (constructor : String) (arguments : List Node) : Node :=
  .methodCall "Syntax" constructor arguments

/-- `var __sN = Syntax.StatementList();` -/
def openAccumulator (accumulator : String) : Node :=
  .localDeclaration (.ofName accumulator) (some (construct "StatementList" []))

def formPath (form : CallForm) : Node := .memberAccess (.identifier "DeferredCallForm") form.name

def tokenKindPath (kind : TokenKind) : Node := .memberAccess (.identifier "TokenKind") kind.name

/-- Stands for a value that could not be produced; the cause is reported elsewhere. -/
def placeholder : Node :=
  construct "LiteralExpression" [construct "Token" [tokenKindPath .defaultKeyword]]

/-- A token, with its text unless that is the fixed spelling of its kind. -/
def quoteToken (t : Token) : Node :=
  construct "Token" (tokenKindPath t.kind :: if t.isCanonical then [] else [.stringLiteral t.text])

/-- `__sN.Add(quoted);` for the block being built. -/
def append (quoted : Node) : Quoter Node := do
  let add := Node.memberAccess (.identifier (← accumulator)) "Add"
  return .expressionStatement (.invocation add [quoted])

/-- Names a generated local by the variable that holds its name; where there is none, quotes what
refers to it as `otherwise` does. -/
def heldOr (v : Option Symbol) (otherwise : Quoter Node) : Quoter Node := do
  match v.bind (← get).holder? with
  | some holder => return construct "IdentifierName" [.identifier holder]
  | none => otherwise

/-- The constructor of literals for generation-time values of a type. -/
def literalConstructor? : TypeExpr → Option String
  | .string => some "StringLiteral"
  | .char => some "CharLiteral"
  | .int | .long => some "IntLiteral"
  | .float | .double => some "FloatLiteral"
  | _ => none

/-- Statements that need statements of the generator before they can be built. -/
def isHostLevel (n : Node) : Bool :=
  n.stage? == some .generationTime || n.kind == .localDeclaration || n.kind == .forEachStatement

/-- `(() => { body })()` -/
def closureCall (body : List Node) : Node :=
  .invocation (.parenthesized (.thunk (.block body))) []

/-- The call of a closure that runs `body` and returns what it accumulated. -/
def closure (body : List Node) : Quoter Node := do
  let name ← accumulator
  return closureCall (openAccumulator name :: body ++
    [.returnStatement (some (.identifier name))])

variable (store : FactStore) (provided : Option (Nat × CallForm))

/-- The form of the wrapped call, if the node is the one that the generator provides. -/
def providedForm? (n : Node) : Option CallForm :=
  provided.bind fun (id, form) => if id = n.id then some form else none

/-- `var __x_k = Context.FreshIdentifier("x");` and the name of that variable. -/
def freshLocal (declaring : Node) : Quoter (Node × String) := do
  let name := declaring.nameOrEmpty
  let holder ← declare name (store.declared? declaring)
  return (.localDeclaration (.ofName holder)
    (some (.methodCall "Context" "FreshIdentifier" [.stringLiteral name])), holder)

/-- Embeds the value of a generation-time expression as a literal. -/
def lift (n : Node) : Quoter Node := do
  match store.type? n with
  | none | some .unknown => return placeholder
  | some t =>
    match literalConstructor? t with
    | some constructor =>
      return construct "LiteralExpression" [construct constructor [n]]
    | none =>
      report ⟨.notSerializable, .quoting, n.span,
        s!"a generation-time value of type `{t.text}` cannot be used in generated code",
        [("type", t.text)]⟩
      return placeholder

/-! ## Statements of the generator and generated code -/

mutual

/-- The generator's statements for one template statement. -/
def hostStatement (n : Node) : Quoter (List Node) := do
  if isHostLevel n then hostLevel n
  else return [← append (← embedded n)]
termination_by 8 * n.size + 5

/-- The generator's statements for a sequence of template statements. -/
def hostStatements (n : Node) : Quoter (List Node) := do
  return (← n.nodes.attach.mapM fun ⟨m, _⟩ => hostStatement m).flatten
termination_by 8 * n.size
decreasing_by have := Node.size_lt_of_mem ‹_›; omega

/-- A branch of the generator's control flow: its statements add to the block being built. -/
def hostBlock (n : Node) : Quoter Node := do
  return .block (← if n.kind = .block then hostStatements n else hostStatement n)
termination_by 8 * n.size + 6

/-- Statements of generation time, and declarations and loops of generated code. -/
def hostLevel (n : Node) : Quoter (List Node) := do
  if n.stage? = some .generationTime then
    match n.kind with
    | .ifStatement => return [← hostIf n]
    | .forEachStatement => return [← hostForEach n]
    | _ => return [n]
  else if n.kind = .forEachStatement then generatedForEach n
  else generatedDeclaration n
termination_by 8 * n.size + 2

def hostIf (n : Node) : Quoter Node := do
  match _h : n.node? 0, _h' : n.node? 1 with
  | some condition, some thenBranch =>
    let thenBlock ← hostBlock thenBranch
    match _he : n.nodeOfKind? .elseClause with
    | some clause =>
      match _hc : clause.node? 0 with
      | some branch => return .ifStatement condition thenBlock (some (← hostBlock branch))
      | none => return .ifStatement condition thenBlock none
    | none => return .ifStatement condition thenBlock none
  | _, _ => return n
termination_by 8 * n.size + 1
decreasing_by
  · have := Node.size_lt_of_mem (Node.mem_of_node? _h'); omega
  · have := Node.size_lt_of_mem (Node.mem_of_node? _hc)
    have := Node.size_lt_of_mem (Node.mem_of_nodeOfKind? _he)
    omega

def hostForEach (n : Node) : Quoter Node := do
  match n.tokenOfKind? .identifier, n.node? 0, _h : n.node? 1 with
  | some name, some source, some body =>
    return .forEachStatement false name source (← hostBlock body)
  | _, _, _ => return n
termination_by 8 * n.size + 1
decreasing_by have := Node.size_lt_of_mem (Node.mem_of_node? _h); omega

def generatedDeclaration (n : Node) : Quoter (List Node) := do
  let single : Option (Node × CallForm) := match n.nodes with
    | [declarator] => do
      let value ← declarator.node? 0
      let form ← providedForm? provided value
      return (declarator, form)
    | _ => none
  match single with
  | some (declarator, form) =>
    let (declaration, holder) ← freshLocal store declarator
    let assign := Node.methodCall "Context" "CreateAssignStatement"
      [.identifier holder, formPath form]
    return [declaration, ← append assign]
  | none =>
    let parts ← n.nodes.attach.mapM fun ⟨declarator, _⟩ => do
      let (declaration, holder) ← freshLocal store declarator
      let value ← match _h : declarator.node? 0 with
        | some value => do pure [← quote value]
        | none => pure []
      return (declaration, construct "VariableDeclarator" (.identifier holder :: value))
    let built := construct "LocalDeclaration" (parts.map Prod.snd)
    return parts.map Prod.fst ++ [← append built]
termination_by 8 * n.size + 1
decreasing_by
  have := Node.size_lt_of_mem ‹_›
  have := Node.size_lt_of_mem (Node.mem_of_node? _h)
  omega

def generatedForEach (n : Node) : Quoter (List Node) := do
  let (declaration, holder) ← freshLocal store n
  let parts ← n.nodes.attach.mapM fun ⟨m, _⟩ =>
    if m.kind.isStatement then embedded m else quote m
  let built := construct "ForEachStatement" (.identifier holder :: parts)
  return [declaration, ← append built]
termination_by 8 * n.size + 1
decreasing_by all_goals (have h := Node.size_lt_of_mem ‹_›; omega)

/-- A statement nested in generated code. What needs statements of the generator is built by a
closure; a single such statement becomes a synthetic block. -/
def embedded (n : Node) : Quoter Node := do
  if n.kind = .block then
    if n.nodes.any isHostLevel then
      return construct "Block" [← nested do closure (← hostStatements n)]
    else quoteStatement n
  else if isHostLevel n then
    return construct "SyntheticBlock" [← nested do closure (← hostLevel n)]
  else quoteStatement n
termination_by 8 * n.size + 4

def quoteStatement (n : Node) : Quoter Node := do
  if n.kind ≠ .returnStatement then structural n
  else
    match _h : n.node? 0 with
    | none => return .methodCall "Context" "ReturnStatement" []
    | some value =>
      match providedForm? provided value with
      | some form => return .methodCall "Context" "CreateReturnStatement" [formPath form]
      | none =>
        let type := ((store.type? value).getD .unknown).text
        return .methodCall "Context" "ReturnStatement" [← quote value, .stringLiteral type]
termination_by 8 * n.size + 3
decreasing_by
  · omega
  · have := Node.size_lt_of_mem (Node.mem_of_node? _h); omega

/-- An expression, or another part of generated code that is no statement. -/
def quote (n : Node) : Quoter Node := do
  if n.hasMark .splice then return construct "Splice" [n]
  else if !n.kind.isExpression then structural n
  else if (wrappedForm? store n).isSome then return placeholder
  else if n.stage? = some .generationTime && n.kind ≠ .literal then lift store n
  else if n.kind = .identifier then heldOr (store.symbol? n) (structural n)
  else structural n
termination_by 8 * n.size + 3

/-- The method part of a call, which is no value of its own. -/
def quoteCallee (n : Node) : Quoter Node := do
  if (n.kind = .memberAccess || n.kind = .identifier) && !n.hasMark .splice then structural n
  else quote n
termination_by 8 * n.size + 4

/-- `Syntax.<Kind>(children...)` -/
def structural (n : Node) : Quoter Node := do
  let arguments ← n.children.attach.zipIdx.mapM fun
    | (⟨.token t, _⟩, _) => pure (quoteToken t)
    | (⟨.node m, _⟩, index) =>
      if m.kind.isStatement then embedded m
      else if index = 0 && n.kind = .invocation then quoteCallee m
      else quote m
  return construct n.kind.name arguments
termination_by 8 * n.size + 1
decreasing_by all_goals (have h := Node.size_lt_of_mem (Node.mem_nodes.2 ‹_›); omega)

end

/-! ## Templates -/

/-- What the name of a generator adds to the name of its template. -/
def generatorEnding : String := "_Generator"

/-- The generator of one template, and what was reported. -/
def quoteTemplate (template : Node) : Generator × List Diagnostic :=
  let provided := provided? store template
  let body : Quoter (List Node) := match template.nodeOfKind? .block with
    | some body => hostStatements store provided body
    | none => pure []
  let (statements, s) := body.run .initial
  let name := template.nameOrEmpty
  let accumulator := accumulatorName 0
  let result := Node.returnStatement (some (construct "Block" [.identifier accumulator]))
  let parameters := template.nodes.filter (·.kind == .parameter)
  let program := Node.template (name ++ generatorEnding) parameters
    (.block (openAccumulator accumulator :: statements ++ [result]))
  (⟨name, name ++ generatorEnding, program⟩, misuses store template ++ s.diagnostics)

end Quotation

/-- Generators, and what was reported while they were made. -/
structure Compilation where
  generators : List Generator
  diagnostics : List Diagnostic
deriving Repr

/-- Compiles the templates of a classified tree, which may itself be one. -/
def quoteTemplates (store : FactStore) (n : Node) : Compilation :=
  let templates := if n.kind = .template then [n] else n.nodes.filter (·.kind == .template)
  let quoted := templates.map (Quotation.quoteTemplate store)
  ⟨quoted.map Prod.fst, quoted.flatMap Prod.snd⟩

end Stencil
