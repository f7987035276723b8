import Stencil.Defect
import Stencil.Environment.Basic
import Stencil.Facts.Basic
import Stencil.Tree.Basic

/-!
# Name resolution

One walk over a tree finds out what its names stand for and which types its expressions have.
Names are looked up in the scopes around them, innermost first, and then among the globals of the
environment. A variable is declared after its initializer was walked, so the initializer does not
see it; a variable declared without one takes the type of the first value assigned to it.

Symbols of the environment are numbered in the order of its keys, and symbols of the template
after them in the order of their declarations.
-/
namespace Stencil

namespace Environment

/-- The number of a global or member; of two entries under one key the later counts. -/
def symbolId? (e : Environment) (key : String) : Option Nat := e.keys.zipIdx.reverse.lookup key

/-- The first number that no entry of the environment has. -/
def firstFreeId (e : Environment) : Nat := e.keys.eraseDups.length

/-- The symbol and the type of a global. -/
def globalSymbol? (e : Environment) (name : String) : Option (Symbol × TypeExpr) := do
  let m ← e.global? name
  let id ← e.symbolId? name
  return (⟨id, name, m.kind, none, m.deferred⟩, m.typeExpr)

/-- The symbol and the type of a member of values of type `receiver`. -/
def memberSymbol? (e : Environment) (receiver : TypeExpr) (name : String) :
    Option (Symbol × TypeExpr) := do
  let (owner, m) ← e.member? receiver name
  let id ← e.symbolId? (owner ++ "." ++ name)
  return (⟨id, name, m.kind, some owner, m.deferred⟩, m.typeExpr)

end Environment

namespace Resolution

/-- A declared name. `type` is unknown until the first value is assigned. -/
structure Local where
  symbol : Symbol
  type : Option TypeExpr
deriving DecidableEq, Repr

/-- Declarations of one scope, latest first. -/
abbrev Scope := List Local

structure State where
  /-- the open scopes, innermost first -/
  scopes : List Scope
  /-- the number of the next symbol -/
  next : Nat
  /-- what was found out, by node number, latest first -/
  found : List (Nat × Facts)
deriving Repr

abbrev Resolver := StateT State (Except Defect)

/-- The declaration that a name refers to: the latest one of the innermost scope that has any. -/
def State.local? (s : State) (name : String) : Option Local :=
  s.scopes.flatten.find? (·.symbol.name == name)

/-- Gives the type `t` to a local that has none. -/
def Local.settle (t : TypeExpr) (l : Local) : Local := { l with type := some (l.type.getD t) }

/-- Changes the first local of that name. -/
def adjust (name : String) (f : Local → Local) : List Scope → List Scope
  | [] => []
  | scope :: rest =>
    match scope.findIdx? (·.symbol.name == name) with
    | some i => scope.modify i f :: rest
    | none => scope :: adjust name f rest

/-- Records facts about a node, if there are any. -/
def record (n : Node) (f : Facts) : Resolver Unit :=
  if f.isNone then pure ()
  else modify fun s => { s with found := (n.id, f) :: s.found }

/-- Declares a name in the innermost scope. -/
def declare (name : String) (kind : SymbolKind) (type : Option TypeExpr) : Resolver Symbol := do
  let s ← get
  let symbol : Symbol := ⟨s.next, name, kind, none, none⟩
  let scopes := match s.scopes with
    | [] => []
    | scope :: rest => (⟨symbol, type⟩ :: scope) :: rest
  set { s with scopes, next := s.next + 1 }
  return symbol

/-- Runs a walk in a scope of its own. -/
def inScope {α : Type} (walk : Resolver α) : Resolver α := do
  modify fun s => { s with scopes := [] :: s.scopes }
  let a ← walk
  modify fun s => { s with scopes := s.scopes.tail }
  return a

/-- What a name stands for where the walk is. -/
def named? (e : Environment) (s : State) (name : String) : Option (Symbol × TypeExpr) :=
  match s.local? name with
  | some l => some (l.symbol, l.type.getD .object)
  | none => e.globalSymbol? name

/-- Tells a local without a type the type of the value assigned to it. -/
def refine (target : Node) (value : TypeExpr) : Resolver Unit :=
  match target.kind, target.name? with
  | .identifier, some name =>
    modify fun s => { s with scopes := adjust name (Local.settle value) s.scopes }
  | _, _ => pure ()

def literalType : Option TokenKind → TypeExpr
  | some .intLiteral => .int
  | some .floatLiteral => .double
  | some .stringLiteral => .string
  | some .charLiteral => .char
  | some .trueKeyword | some .falseKeyword => .bool
  | _ => .object

/-- The type of an operation on two operands. Anything done to generated code is generated code. -/
def binaryType (operator : Option TokenKind) (l r : TypeExpr) : TypeExpr :=
  if l = .dynamic || r = .dynamic then .dynamic
  else match operator with
    | some .equalsEquals | some .bangEquals | some .less | some .greater | some .lessEquals
    | some .greaterEquals | some .andAnd | some .orOr => .bool
    | some .plus => if l = .string || r = .string then .string else (l.promote r).getD .unknown
    | _ => (l.promote r).getD .unknown

def unaryType (operator : Option TokenKind) (t : TypeExpr) : TypeExpr :=
  if t ≠ .dynamic && operator = some .bang then .bool else t

/-- The type of an item of `t`, where it can be indexed. -/
def indexedType : TypeExpr → TypeExpr
  | .dynamic => .dynamic
  | .string => .char
  | .list t => t
  | _ => .unknown

/-- The type of the variable of a loop over `t`. -/
def iteratedType : TypeExpr → TypeExpr
  | .dynamic => .dynamic
  | t => t.element?.getD .unknown

/-- The type written in a node, if it has one. -/
def writtenType? (n : Node) : Option TypeExpr :=
  ((n.nodeOfKind? .typeName).bind Node.token?).map fun t =>
    match TypeExpr.parse t.text with
    | .ok type => type
    | .error _ => .unknown

variable (e : Environment)

mutual

/-- Walks the children in order. -/
def walkChildren (n : Node) : Resolver Unit :=
  n.nodes.attach.forM fun ⟨m, _⟩ => walk m
termination_by 4 * n.size
decreasing_by have := Node.size_lt_of_mem ‹_›; omega

/-- Walks any node: opens the scopes it stands for and declares what it declares. -/
def walk (n : Node) : Resolver Unit := do
  match n.kind with
  | .template | .localFunction =>
    if let some name := n.name? then
      let kind := if n.kind = .template then .template else .localVar
      let declared ← declare name kind (some .object)
      record n ⟨none, some declared, none⟩
    inScope (walkChildren n)
  | .parameter =>
    let type := (writtenType? n).getD .object
    if let some name := n.name? then
      let declared ← declare name .parameter (some type)
      record n ⟨none, some declared, some type⟩
  | .block | .forStatement | .usingStatement => inScope (walkChildren n)
  | .declarator =>
    let type ← match _h : n.node? 0 with
      | some value => some <$> expression value
      | none => pure none
    if let some name := n.name? then
      let declared ← declare name .localVar type
      record n ⟨none, some declared, type⟩
  | .forEachStatement =>
    let source ← operand n 0
    let item := iteratedType source
    inScope do
      if let some name := n.name? then
        let declared ← declare name .localVar (some item)
        record n ⟨none, some declared, some item⟩
      match _h : n.node? 1 with
      | some body => walk body
      | none => pure ()
  | kind => if kind.isExpression then discard (expression n) else walkChildren n
termination_by 4 * n.size + 3
decreasing_by
  all_goals first
    | omega
    | (have h := Node.size_lt_of_mem (Node.mem_of_node? _h); omega)

/-- Walks an expression, records its facts and returns its type. -/
def expression (n : Node) : Resolver TypeExpr := do
  let (symbol, type) ← meaning n
  record n ⟨symbol, none, some type⟩
  return type
termination_by 4 * n.size + 2

/-- The type of the child at `index`, unknown without one. -/
def operand (n : Node) (index : Nat) : Resolver TypeExpr :=
  match _h : n.node? index with
  | some m => expression m
  | none => pure .unknown
termination_by 4 * n.size
decreasing_by have := Node.size_lt_of_mem (Node.mem_of_node? _h); omega

/-- Walks what an expression is made of, and tells what it refers to and which type it has. -/
def meaning (n : Node) : Resolver (Option Symbol × TypeExpr) := do
  match n.kind with
  | .literal => return (none, literalType (n.token?.map Token.kind))
  | .identifier =>
    match n.name?.bind (named? e (← get)) with
    | some (symbol, type) => return (some symbol, type)
    | none => return (none, .unknown)
  | .this => return (none, .dynamic)
  | .parenthesized | .step => return (none, ← operand n 0)
  | .binary =>
    let l ← operand n 0
    let r ← operand n 1
    return (none, binaryType (n.token?.map Token.kind) l r)
  | .unary => return (none, unaryType (n.token?.map Token.kind) (← operand n 0))
  | .assignment =>
    let value ← operand n 1
    if let some target := n.node? 0 then refine target value
    return (none, ← operand n 0)
  | .conditional =>
    discard (operand n 0)
    let whenTrue ← operand n 1
    let whenFalse ← operand n 2
    return (none, if whenFalse = .dynamic then .dynamic else whenTrue)
  | .invocation =>
    match _h : n.nodes with
    | [] => return (none, .unknown)
    | callee :: arguments =>
      let returns ← expression callee
      arguments.attach.forM fun ⟨m, _⟩ => discard (expression m)
      let symbol := (((← get).found.lookup callee.id).bind Facts.symbol).filter (·.kind = .method)
      return (symbol, if symbol.isSome || returns = .dynamic then returns else .object)
  | .memberAccess =>
    let receiver ← operand n 0
    if receiver = .dynamic then return (none, .dynamic)
    match n.name?.bind (e.memberSymbol? receiver) with
    | some (symbol, type) => return (some symbol, type)
    | none => return (none, .unknown)
  | .elementAccess =>
    let receiver ← operand n 0
    discard (operand n 1)
    return (none, indexedType receiver)
  | .cast =>
    discard (operand n 1)
    return (none, (writtenType? n).getD .unknown)
  | .list =>
    let types ← n.nodes.attach.mapM fun ⟨m, _⟩ => expression m
    return (none, .list (types.headD .object))
  | .lambda =>
    inScope (n.nodes.attach.forM fun ⟨m, _⟩ => do
      if m.kind = .parameter then
        if let some name := m.name? then
          let declared ← declare name .localVar none
          record m ⟨none, some declared, none⟩
      else walk m)
    return (none, .object)
  | .await => return (none, (← operand n 0).awaited)
  | .query =>
    let source ← operand n 0
    inScope do
      if let some name := n.name? then
        discard (declare name .localVar (some (source.element?.getD .object)))
      let selected ← n.nodes.tail.attach.foldlM (fun selected ⟨clause, _⟩ => do
        let type ← operand clause 0
        return if clause.kind = .selectClause then type else selected) .object
      return (none, .sequence selected)
  | kind => throw (.notExpression kind)
termination_by 4 * n.size + 1
decreasing_by
  all_goals first
    | omega
    | (have h := Node.size_lt_of_mem ‹_›; omega)
    | (have h := Node.size_lt_of_mem (List.mem_of_mem_tail ‹_›); omega)
    | (have h := Node.size_lt_of_mem (n := n) (_h ▸ List.mem_cons_self); omega)
    | (have h := Node.size_lt_of_mem (n := n) (_h ▸ List.mem_cons_of_mem _ ‹_›); omega)

end

/-- The state before the walk: one scope, for the names of the file. -/
def State.initial : State := ⟨[[]], e.firstFreeId, []⟩

end Resolution

/-- What is known about the nodes of a tree, by their numbers. -/
abbrev Findings := List (Nat × Facts)

def Findings.of (f : Findings) (id : Nat) : Facts := (f.lookup id).getD .none

/-- Resolves the names of a numbered tree. -/
def Environment.resolve (e : Environment) (n : Node) : Except Defect Findings := do
  let (_, s) ← (Resolution.walk e n).run (.initial e)
  return s.found

end Stencil
