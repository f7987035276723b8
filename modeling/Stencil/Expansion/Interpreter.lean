import Stencil.Expansion.Library
import Stencil.Number.Read
import Stencil.Tree.Flatten

/-!
# Running generators

A generator program is an ordinary template, so what runs it is an interpreter of the template
language. It walks the tree with the frames of variables in scope. A closure keeps the frames it
was made in, so it sees later assignments to them.

Every function takes a budget that bounds how deep evaluation nests and how often a loop turns.
A run that needs more ends as `exhausted`, which no program can observe.
-/
namespace Stencil.Expansion

/-- How a statement ends. -/
inductive Flow where
  | ongoing
  | returned (v : Value)
  | broken
  | continued

/-- The value that a body ends with. A jump must not leave its body. -/
def Flow.value : Flow → Run Value
  | ongoing => return .null
  | returned v => return v
  | broken => fail (.strayJump "break")
  | continued => fail (.strayJump "continue")

def childOf (n : Node) (index : Nat) : Run Node :=
  match n.node? index with
  | some m => return m
  | none => fail (.type (.malformed n.kind))

def operatorOf (n : Node) : Run TokenKind :=
  match n.token? with
  | some t => return t.kind
  | none => fail (.type (.malformed n.kind))

/-- Runs statements until one does not go on. -/
def inOrder {α : Type} (run : α → Run Flow) : List α → Run Flow
  | [] => return .ongoing
  | a :: rest => do
    match ← run a with
    | .ongoing => inOrder run rest
    | flow => return flow

/-- Runs a loop body for each item; a `break` ends the loop, a `return` the body around it. -/
def forEachItem (run : Value → Run Flow) : List Value → Run Flow
  | [] => return .ongoing
  | v :: rest => do
    match ← run v with
    | .broken => return .ongoing
    | .returned v => return .returned v
    | _ => forEachItem run rest

/-- The value of a literal. -/
def literalValue (n : Node) : Run Value :=
  match n.token? with
  | none => fail (.type .literalWithoutToken)
  | some t =>
    let read (v : Option Value) : Run Value := expect (.type (.malformedLiteral t.text)) v
    match t.kind with
    | .intLiteral => read ((Number.readWord t.text).map .int)
    | .floatLiteral => read ((Number.readDouble t.text).map .float)
    | .stringLiteral => return .string t.text
    | .charLiteral => read (t.text.toList.head?.map .char)
    | .trueKeyword => return .bool true
    | .falseKeyword => return .bool false
    | _ => return .null

/-- The character with a code point, if there is one. -/
def charOf? (code : Int64) : Option Char :=
  if h : code.toInt.toNat.isValidChar then
    if 0 ≤ code.toInt then some (Char.ofNatAux code.toInt.toNat h) else none
  else none

/-- Converts a value to a type named by its text; what has no conversion stays as it is. -/
def castTo (type : String) (v : Value) : Run Value := do
  match type, v with
  | "int", .float x | "long", .float x => return .int (Number.truncate x)
  | "int", .char c | "long", .char c => return .int (.ofNat c.toNat)
  | "float", .int n | "double", .int n => return .float n.toFloat
  | "char", .int n =>
    match charOf? n with
    | some c => return .char c
    | none => fail (.type (.notChar n.toInt))
  | "string", v => return .string (← sound v.text)
  | _, v => return v

/-- Assigns to the target of an assignment. -/
def assignTo (env : Scoping) (target : Node) (v : Value) : Run Unit := do
  if target.kind ≠ .identifier then
    fail (.unsupported ("assignment to " ++ target.kind.name))
  else
    let name := target.nameOrEmpty
    if !(← assignVariable env name v) then fail (.undefined name)

/-- The closure that a lambda stands for. -/
def closureOf (env : Scoping) (n : Node) : Run Value := do
  match n.nodes.getLast?.filter (·.kind ≠ .parameter) with
  | none => fail (.type .lambdaWithoutBody)
  | some body =>
    let parameters := (n.nodes.filter (·.kind == .parameter)).map Node.nameOrEmpty
    return .closure (← newClosure) ⟨parameters, body, env⟩

/-- The item of a list or string at an index. -/
def itemAt (index : Int64) (items : List Value) : Run Value :=
  let found := if 0 ≤ index.toInt then items[index.toInt.toNat]? else none
  match found with
  | some v => return v
  | none => fail (.type (.outOfRange index.toInt items.length))

/-- The child of the clause of a kind, if the node has such a clause. -/
def clauseOf (n : Node) (kind : NodeKind) : Run (Option Node) :=
  match n.nodeOfKind? kind with
  | some clause => some <$> childOf clause 0
  | none => return none

variable (own : Nat)

/-- The value of a variable in scope, else of a global. -/
def valueNamed (env : Scoping) (name : String) : Run Value := do
  match (← get).valueOf? env name with
  | some v => return v
  | none => globalNamed (← contextAt own).target name

mutual

def exec : Nat → Scoping → Node → Run Flow
  | 0, _, _ => throw .exhausted
  | budget + 1, env, n => do
    match n.kind with
    | .block =>
      let inner ← nestedIn env
      inOrder (exec budget inner) n.nodes
    | .localDeclaration =>
      n.nodes.forM fun declarator => do
        let v ← match declarator.node? 0 with
          | some value => eval budget env value
          | none => pure .null
        define env declarator.nameOrEmpty v
      return .ongoing
    | .expressionStatement =>
      discard (eval budget env (← childOf n 0))
      return .ongoing
    | .emptyStatement => return .ongoing
    | .ifStatement =>
      if ← typed (← eval budget env (← childOf n 0)).asBool then exec budget env (← childOf n 1)
      else
        match n.nodeOfKind? .elseClause with
        | some clause => exec budget env (← childOf clause 0)
        | none => return .ongoing
    | .forEachStatement =>
      if n.hasAwait then fail (.unsupported "await foreach")
      else
        let items ← itemsOf (← eval budget env (← childOf n 0))
        let body ← childOf n 1
        forEachItem (fun item => do
          let inner ← nestedIn env
          define inner n.nameOrEmpty item
          exec budget inner body) items
    | .whileStatement =>
      let condition ← childOf n 0
      let body ← childOf n 1
      loop budget env (some condition) none body
    | .doStatement =>
      let body ← childOf n 0
      let condition ← childOf n 1
      match ← exec budget env body with
      | .broken => return .ongoing
      | .returned v => return .returned v
      | _ => loop budget env (some condition) none body
    | .forStatement =>
      let inner ← nestedIn env
      discard (exec budget inner (← childOf n 0))
      let condition ← childOf n 1
      let increment ← childOf n 2
      let body ← childOf n 3
      let given (m : Node) : Option Node := if m.kind = .emptyStatement then none else some m
      loop budget inner (given condition) (given increment) body
    | .returnStatement =>
      match n.node? 0 with
      | some value => return .returned (← eval budget env value)
      | none => return .returned .null
    | .breakStatement => return .broken
    | .continueStatement => return .continued
    | kind =>
      if kind.isExpression then
        discard (eval budget env n)
        return .ongoing
      else fail (.unsupported kind.name)

/-- Turns a loop while its condition holds; without a condition, until it is left. -/
def loop : Nat → Scoping → Option Node → Option Node → Node → Run Flow
  | 0, _, _, _, _ => throw .exhausted
  | budget + 1, env, condition, increment, body => do
    let more ← match condition with
      | some condition => do typed (← eval budget env condition).asBool
      | none => pure true
    if !more then return .ongoing
    match ← exec budget env body with
    | .broken => return .ongoing
    | .returned v => return .returned v
    | _ =>
      if let some increment := increment then discard (eval budget env increment)
      loop budget env condition increment body

def eval : Nat → Scoping → Node → Run Value
  | 0, _, _ => throw .exhausted
  | budget + 1, env, n => do
    match n.kind with
    | .literal => literalValue n
    | .identifier => valueNamed own env n.nameOrEmpty
    | .parenthesized => eval budget env (← childOf n 0)
    | .binary =>
      let operator ← operatorOf n
      let l ← eval budget env (← childOf n 0)
      if operator = .andAnd || operator = .orOr then
        if (← typed l.asBool) = (operator == .orOr) then return .bool (operator == .orOr)
        else return .bool (← typed (← eval budget env (← childOf n 1)).asBool)
      else
        let r ← eval budget env (← childOf n 1)
        binary operator l r
    | .unary =>
      let v ← eval budget env (← childOf n 0)
      match ← operatorOf n, v with
      | .bang, v => return .bool !(← typed v.asBool)
      | .minus, .int a => return .int (-a)
      | .minus, .float a => return .float (-a)
      | _, v => fail (.type (.cannotNegate v.typeName))
    | .step =>
      let target ← childOf n 0
      let old ← eval budget env target
      let operator := if (← operatorOf n) = .plusPlus then TokenKind.plus else .minus
      assignTo env target (← binary operator old (.int 1))
      return old
    | .assignment =>
      let target ← childOf n 0
      let v ← eval budget env (← childOf n 1)
      let v ← match ← operatorOf n with
        | .plusEquals => do binary .plus (← eval budget env target) v
        | .minusEquals => do binary .minus (← eval budget env target) v
        | _ => pure v
      assignTo env target v
      return v
    | .conditional =>
      if ← typed (← eval budget env (← childOf n 0)).asBool then eval budget env (← childOf n 1)
      else eval budget env (← childOf n 2)
    | .invocation =>
      let callee ← childOf n 0
      let arguments ← n.nodes.tail.mapM (eval budget env)
      if callee.kind = .memberAccess then
        let receiver ← eval budget env (← childOf callee 0)
        callMethod receiver callee.nameOrEmpty arguments
      else
        match ← eval budget env callee with
        | .closure _ c => call budget c arguments
        | v => fail (.type (.notCallable v.typeName))
    | .memberAccess => memberOf (← eval budget env (← childOf n 0)) n.nameOrEmpty
    | .elementAccess =>
      let receiver ← eval budget env (← childOf n 0)
      let index ← typed (← eval budget env (← childOf n 1)).asInt
      itemAt index (← itemsOf receiver)
    | .cast =>
      let type := (← childOf n 0).tokenText
      castTo type (← eval budget env (← childOf n 1))
    | .list => newList (← n.nodes.mapM (eval budget env)).toArray
    | .lambda => closureOf env n
    | .query =>
      let items ← itemsOf (← eval budget env (← childOf n 0))
      let condition ← clauseOf n .whereClause
      let projection ← clauseOf n .selectClause
      let results ← items.filterMapM fun item => do
        let inner ← nestedIn env
        define inner n.nameOrEmpty item
        let kept ← match condition with
          | some condition => do typed (← eval budget inner condition).asBool
          | none => pure true
        if !kept then return none
        match projection with
        | some projection => some <$> eval budget inner projection
        | none => return some item
      newList results.toArray
    | .this => fail (.unsupported "this")
    | .await => fail (.unsupported "await")
    | kind => fail (.unsupported kind.name)

/-- Calls a closure in a nested scope of the generated code, so that blocks built side by side can
use the same names. -/
def call : Nat → Closure → List Value → Run Value
  | 0, _, _ => throw .exhausted
  | budget + 1, c, arguments => do
    if arguments.length ≠ c.parameters.length then
      fail (.type (.wrongCount c.parameters.length arguments.length))
    else
      let env ← nestedIn c.captured
      (c.parameters.zip arguments).forM fun (name, v) => define env name v
      inNestedScope own do
        if c.body.kind = .block then (← exec budget env c.body).value
        else eval budget env c.body

end

/-- Defines a parameter as the argument that the context has for it. -/
def bindParameter (env : Scoping) (parameter : Node) : Run Unit := do
  let name := parameter.nameOrEmpty
  match (← contextAt own).argument? name with
  | some v => define env name v
  | none => fail (.missingArgument name)

/-- Runs a program with its parameters bound to the arguments of the context. -/
def interpret (budget : Nat) (program : Node) : Run Value := do
  let env ← nestedIn []
  (program.nodes.filter (·.kind == .parameter)).forM (bindParameter own env)
  match program.nodeOfKind? .block with
  | some body => (← exec own budget env body).value
  | none => return .null

/-- The tree that a program built, with nested blocks of statements flattened. -/
def flattened : Value → Run Node
  | .node n => return n.flatten
  | _ => fail .noResult

/-- Runs a program with the context active and flattens the tree that it builds. -/
def expandIn (budget : Nat) (program : Node) : Run Node :=
  entering own do flattened (← interpret own budget program)

/-- The budget of ordinary runs. -/
def budget : Nat := 1000000000

/-- The budget of a program's run: code never nests deeper than it has nodes, and what is left over
is for the turns of loops. -/
def budgetFor (program : Node) : Nat := budget + program.size

end Expansion

/-- Runs a generator program for a target and template arguments. -/
def expand (target : Target) (arguments : List (String × Datum)) (program : Node) :
    Except Expansion.Stop Node :=
  let (own, m) := Expansion.Machine.initial.addContext target arguments
  match Expansion.expandIn own (Expansion.budgetFor program) program m with
  | .ok n _ => .ok n
  | .error e _ => .error e

end Stencil
