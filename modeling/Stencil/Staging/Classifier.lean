import Stencil.Diagnostic
import Stencil.Environment.Basic
import Stencil.Facts.Store
import Stencil.Staging.Context
import Stencil.Tree.Ancestors
import Stencil.Tree.Render

/-!
# Inferring stages

One pass gives every node of an annotated tree a stage. Stages flow from the leaves up through
`Stage.combine`; requirements flow down through a `Context`:

* a member or method of generation time *forces* its receiver and its arguments, and everything
  below a forced position is generation-time code;
* an `if` or `foreach` whose condition is known at generation time is run there, and its branches
  hold ordinary template code;
* any other `if` or `foreach` is generated, and locals assigned in it are generated too.

A generation-time expression of the type `dynamic` is a *splice*: it runs at generation time and
yields generated code. It counts as generated and carries the mark `splice`.

A local declared without a value takes the combined stage of the values assigned to it, which are
looked at ahead of time. While that goes on the local is pending and counts as undecided, so a
value that mentions it (`i = i + 1`) does not look again. Looking ahead leaves the subtree at
hand, but only as often as there are declarations to be pending: that number, `jumps`, and the
sizes of the nodes are what the recursion ends by.
-/
namespace Stencil.Staging

structure State where
  /-- stages by node number, latest first -/
  stages : List (Nat × Stage)
  /-- the numbers of the nodes that are splices -/
  splices : List Nat
  /-- stages of locals, latest first -/
  bindings : List (Symbol × Stage)
  diagnostics : List Diagnostic
  /-- what was reported about which node -/
  reported : List (Nat × Complaint)
deriving Repr

def State.initial : State := ⟨[], [], [], [], []⟩

abbrev Classifier := StateT State (Except Defect)

def assign (id : Nat) (s : Stage) : Classifier Unit :=
  modify fun st => { st with stages := (id, s) :: st.stages }

def unsplice (id : Nat) : Classifier Unit :=
  modify fun st => { st with splices := st.splices.filter (· ≠ id) }

def splice (id : Nat) : Classifier Unit :=
  modify fun st => { st with splices := id :: st.splices }

/-- Decides the stage of a local. -/
def bind (v : Symbol) (s : Stage) : Classifier Unit :=
  modify fun st => { st with bindings := (v, s) :: st.bindings }

def binding? (v : Symbol) : Classifier (Option Stage) := return (← get).bindings.lookup v

/-- Reports about a node, once for each complaint. -/
def report (n : Node) (complaint : Complaint) (message : String)
    (properties : List (String × String)) : Classifier Unit :=
  modify fun st =>
    if st.reported.contains (n.id, complaint) then st
    else { st with
      reported := (n.id, complaint) :: st.reported
      diagnostics := st.diagnostics ++ [⟨complaint, .classification, n.span, message, properties⟩] }

/-- Makes a whole subtree generation-time code. -/
def forceSubtree (n : Node) : Classifier Unit :=
  n.preorder.forM fun m => do
    unsplice m.id
    assign m.id .generationTime

/-- How messages call a construct that has no staged meaning. -/
def constructName : NodeKind → String
  | .whileStatement => "while"
  | .doStatement => "do"
  | .forStatement => "for"
  | .gotoStatement => "goto"
  | .switchStatement => "switch"
  | .lockStatement => "lock"
  | .localFunction => "local function"
  | .usingStatement => "using"
  | .lambda => "lambda"
  | .query => "query"
  | .await => "await"
  | kind => kind.name

/-- A jump that leaves a generation-time loop must not stand under a generated condition. -/
def jump (n : Node) (cx : Context) : Classifier Stage := do
  if let some reason := cx.crossed then
    let name := if n.kind = .breakStatement then "break" else "continue"
    report n .jumpInGeneratedBranch
      s!"`{name}` leaves a generation-time loop from under {reason}, which is only known in generated code"
      [("jump", name), ("reason", reason)]
  return cx.jumpStage

/-- The context of a branch or body that the generated program selects. The text of the selector
is only asked for where it is kept. -/
def selected (cx : Context) (phrase : String) (selector : Node) : Classifier Context := do
  if cx.wantsCondition then
    let text ← selector.compact
    return cx.under s!"{phrase} `{text}`"
  else return cx

/-- A factor above the size of any node, with room for the order in which the functions below call
each other at one node. -/
def span (root : Node) : Nat := 10 * root.size + 20

variable (root : Node) (store : FactStore) (env : Environment)

def isDynamic (n : Node) : Bool := store.type? n == some .dynamic

/-- Why a node cannot run at generation time, if it cannot. Locals can, unless they are known to
be generated. -/
def violation (n : Node) : Classifier (Option String) := do
  let dynamic : Classifier (Option String) := do
    if isDynamic store n then
      let text ← n.compact
      return some s!"`{text}`"
    else return none
  if n.kind = .this then return some "`this`"
  match store.symbol? n with
  | some v =>
    if v.isLocal then
      if n.kind = .identifier && (← binding? v) == some .generated then
        return some s!"local `{v.name}`"
      else return none
    else if env.stageOf v = .generated then return some s!"`{v.text}`"
    else dynamic
  | none => dynamic

/-- The stage of a name. A forced use decides a local that is undecided. -/
def identifier (n : Node) (cx : Context) : Classifier Stage := do
  match store.symbol? n with
  | none => return .either
  | some v =>
    if !v.isLocal then return env.stageOf v
    else if cx.pending.contains v then return .either
    else
      match ← binding? v, cx.forced with
      | none, some _ | some .either, some _ =>
        bind v .generationTime
        return .generationTime
      | some s, _ => return s
      | none, none => return .either

/-- Whether a receiver is the name of a type or namespace, which has no value of its own. -/
def isTypeName (n : Node) : Bool :=
  n.kind == .identifier &&
    match store.symbol? n with
    | some v => (v.kind == .type || v.kind == .nameSpace) && env.stageOf v == .either
    | none => false

/-- The local that an assignment, `++` or `--` writes. -/
def assignedLocal? (n : Node) : Option Symbol :=
  match n.node? 0 with
  | some target =>
    if target.kind = .identifier then (store.symbol? target).filter Symbol.isLocal else none
  | none => none

mutual

/-- The stages of the children, in order. -/
def visitAll (jumps : Nat) (cx : Context) (n : Node) : Classifier (List Stage) :=
  n.nodes.attach.mapM fun ⟨m, _⟩ => visit jumps cx m
termination_by jumps * span root + 10 * n.size
decreasing_by have := Node.size_lt_of_mem ‹_›; omega

/-- The stage of a node, from its mark or memory if it has been decided, else computed. -/
def visit (jumps : Nat) (cx : Context) (n : Node) : Classifier Stage := do
  if let some s := n.stage? then return s
  let forced := n.kind.isExpression && cx.forced.isSome
  if let some s := (← get).stages.lookup n.id then
    if !forced || s = .generationTime then return s
  match if forced then cx.forced else none with
  | some reason => compel jumps cx n reason
  | none => settle jumps cx n
termination_by jumps * span root + 10 * n.size + 9

/-- Makes a forced expression generation-time code, if need be after a report that it cannot be. -/
def compel (jumps : Nat) (cx : Context) (n : Node) (reason : String) : Classifier Stage := do
  match ← violation store env n with
  | some subject =>
    report n .forcedTooEarly
      s!"{subject} is generated code but must be evaluated at generation time ({reason})"
      [("reason", reason)]
    forceSubtree n
  | none =>
    discard (compute jumps cx n)
    unsplice n.id
    assign n.id .generationTime
  return .generationTime
termination_by jumps * span root + 10 * n.size + 8

/-- Gives a node the stage it has by itself. -/
def settle (jumps : Nat) (cx : Context) (n : Node) : Classifier Stage := do
  let s ← compute jumps cx n
  if n.kind.isExpression && s = .generationTime && isDynamic store n then
    splice n.id
    assign n.id .generated
    return .generated
  else
    assign n.id s
    return s
termination_by jumps * span root + 10 * n.size + 8

/-- The stage that a node has by its kind and its parts. -/
def compute (jumps : Nat) (cx : Context) (n : Node) : Classifier Stage := do
  match n.kind with
  | .compilationUnit | .template | .block | .switchSection | .elseClause =>
    discard (visitAll jumps cx n)
    return .either
  | .emptyStatement => return .either
  | .parameter | .typeName =>
    discard (visitAll jumps cx n)
    return .generationTime
  | .literal => return .generationTime
  | .this => return .generated
  | .identifier => identifier store env n cx
  | .parenthesized | .unary | .binary | .conditional | .elementAccess | .cast | .list
  | .whereClause | .selectClause | .expressionStatement =>
    return .combine (← visitAll jumps cx n)
  | .memberAccess => memberAccess jumps cx n
  | .invocation => invocation jumps cx n
  | .assignment | .step => assignment jumps cx n
  | .localDeclaration => localDeclaration jumps cx n
  | .declarator => declarator jumps cx n
  | .ifStatement => ifStatement jumps cx n
  | .forEachStatement => forEachStatement jumps cx n
  | .returnStatement | .yieldReturn | .yieldBreak =>
    discard (visitAll jumps cx n)
    return .generated
  | .breakStatement | .continueStatement => jump n cx
  | .whileStatement | .doStatement | .forStatement | .gotoStatement | .switchStatement
  | .lockStatement | .localFunction | .usingStatement | .lambda | .query | .await =>
    unsupported jumps cx n (constructName n.kind)
termination_by jumps * span root + 10 * n.size + 7

def unsupported (jumps : Nat) (cx : Context) (n : Node) (construct : String) :
    Classifier Stage := do
  report n .unsupported s!"`{construct}` is not supported in templates" [("construct", construct)]
  discard (visitAll jumps cx n)
  return .either
termination_by jumps * span root + 10 * n.size + 5

def memberAccess (jumps : Nat) (cx : Context) (n : Node) : Classifier Stage := do
  match _h : n.node? 0 with
  | none => return .either
  | some receiver =>
    match (store.symbol? n).map fun v => (env.stageOf v, v) with
    | some (.generationTime, v) =>
      discard (visit jumps (cx.force s!"receiver of generation-time member `{v.text}`") receiver)
      return .generationTime
    | some (.generated, _) =>
      discard (visit jumps cx receiver)
      return .generated
    | _ => visit jumps cx receiver
termination_by jumps * span root + 10 * n.size + 6
decreasing_by all_goals (have h := Node.size_lt_of_mem (Node.mem_of_node? _h); omega)

def invocation (jumps : Nat) (cx : Context) (n : Node) : Classifier Stage := do
  match _h : n.nodes with
  | [] => return .either
  | callee :: arguments =>
    match store.symbol? n with
    | none => return .combine (← visitAll jumps cx n)
    | some method =>
      if method.deferred.isSome then
        discard (visitAll jumps cx n)
        return .generated
      match env.stageOf method with
      | .generationTime =>
        discard (visit jumps cx callee)
        let forced := cx.force s!"argument of generation-time method `{method.text}`"
        arguments.attach.forM fun ⟨m, _⟩ => discard (visit jumps forced m)
        return .generationTime
      | .generated =>
        discard (visitAll jumps cx n)
        return .generated
      | _ =>
        let first ← visit jumps cx callee
        let counts := callee.kind == .memberAccess &&
          !((callee.node? 0).any fun receiver => isTypeName store env receiver)
        let rest ← arguments.attach.mapM fun ⟨m, _⟩ => visit jumps cx m
        return .combine (if counts then first :: rest else rest)
termination_by jumps * span root + 10 * n.size + 6
decreasing_by
  all_goals first
    | omega
    | (have h := Node.size_lt_of_mem (n := n) (_h ▸ List.mem_cons_self); omega)
    | (have h := Node.size_lt_of_mem (n := n) (_h ▸ List.mem_cons_of_mem _ ‹_›); omega)

def assignment (jumps : Nat) (cx : Context) (n : Node) : Classifier Stage := do
  match assignedLocal? store n with
  | none => return .combine (← visitAll jumps cx n)
  | some v =>
    let bound ← binding? v
    match cx.condition with
    | some reason =>
      if bound = some .generationTime then
        report n .assignedInGeneratedBranch
          s!"generation-time local `{v.name}` is assigned under {reason}, which is only known in generated code"
          [("local", v.name), ("reason", reason)]
      bind v .generated
      discard (visitAll jumps cx n)
      return .generated
    | none =>
      if bound = some .generationTime then
        match _h : n.nodes with
        | [] => pure ()
        | target :: values =>
          discard (visit jumps cx target)
          let forced := cx.force s!"assigned to generation-time local `{v.name}`"
          values.attach.forM fun ⟨m, _⟩ => discard (visit jumps forced m)
        return .generationTime
      else return .combine (← visitAll jumps cx n)
termination_by jumps * span root + 10 * n.size + 6
decreasing_by
  all_goals first
    | omega
    | (have h := Node.size_lt_of_mem (n := n) (_h ▸ List.mem_cons_self); omega)
    | (have h := Node.size_lt_of_mem (n := n) (_h ▸ List.mem_cons_of_mem _ ‹_›); omega)

def localDeclaration (jumps : Nat) (cx : Context) (n : Node) : Classifier Stage := do
  let stages ← visitAll jumps cx n
  if stages.contains .generationTime && stages.any (· ≠ .generationTime) then
    report n .mixedDeclaration
      "this declaration mixes generation-time and generated variables; declare them separately"
      [("variables", String.intercalate ", " (n.nodes.filterMap Node.name?))]
  return .combine stages
termination_by jumps * span root + 10 * n.size + 6

def declarator (jumps : Nat) (cx : Context) (n : Node) : Classifier Stage := do
  match store.declared? n with
  | none => return .combine (← visitAll jumps cx n)
  | some v =>
    if cx.condition.isSome then
      discard (visitAll jumps cx n)
      bind v .generated
      return .generated
    match _h : n.node? 0 with
    | some value =>
      let s ← visit jumps cx value
      bind v s
      return s
    | none =>
      if cx.pending.contains v then return .either
      match jumps with
      | 0 => return .either
      | jumps + 1 =>
        let s ← assignedStage jumps (v :: cx.pending) v
        bind v s
        return s
termination_by jumps * span root + 10 * n.size + 6
decreasing_by
  all_goals first
    | omega
    | (have h := Node.size_lt_of_mem (Node.mem_of_node? _h); omega)
    | (have h := Nat.succ_mul jumps (span root); have h' : span root = 10 * root.size + 20 := rfl; omega)

/-- The combined stage of the values assigned to a local anywhere in the tree: generated as soon
as one of the assignments stands under a generated condition. -/
def assignedStage (jumps : Nat) (pending : List Symbol) (v : Symbol) : Classifier Stage := do
  let stages ← (store.sitesOf v).foldlM (fun stages id => do
    match stages, _h : root.preorder.find? (·.id == id) with
    | some stages, some site =>
      if ← underGenerated jumps pending site then return none
      match _h' : site.node? 1, site.kind with
      | some value, .assignment =>
        let s ← visit jumps (.free pending) value
        return some (stages ++ [s])
      | _, _ => return some stages
    | stages, _ => return stages) (some [])
  return (stages.map Stage.combine).getD .generated
termination_by jumps * span root + 10 * root.size + 19
decreasing_by
  all_goals first
    | omega
    | (have h := Node.size_lt_of_mem (Node.mem_of_node? _h')
       have h' := Node.size_le_of_mem_preorder (List.mem_of_find?_eq_some _h)
       omega)

/-- Whether a node stands in a branch or loop body that the generated program selects. -/
def underGenerated (jumps : Nat) (pending : List Symbol) (n : Node) : Classifier Bool :=
  match _h : root.above n.id with
  | none => return false
  | some steps => steps.attach.anyM fun ⟨(parent, child), _⟩ =>
    match parent.kind, _h' : parent.node? 0 with
    | .ifStatement, some selector | .forEachStatement, some selector => do
      if selector.id = child.id then return false
      return (← visit jumps (.free pending) selector) ≠ .generationTime
    | _, _ => return false
termination_by jumps * span root + 10 * root.size + 18
decreasing_by
  all_goals
    have h := Node.size_lt_of_mem (Node.mem_of_node? _h')
    have h' := Node.size_le_of_mem_above _h ‹_›
    omega

def ifStatement (jumps : Nat) (cx : Context) (n : Node) : Classifier Stage := do
  match _h : n.nodes with
  | [] => return .either
  | condition :: branches =>
    let s ← visit jumps cx condition
    let (s, inner) ← if s = .generationTime then pure (Stage.generationTime, cx)
      else pure (Stage.generated, ← selected cx "the condition" condition)
    branches.attach.forM fun ⟨m, _⟩ => do
      if m.kind = .elseClause then
        discard (visitAll jumps inner m)
        assign m.id s
      else discard (visit jumps inner m)
    return s
termination_by jumps * span root + 10 * n.size + 6
decreasing_by
  all_goals first
    | (have h := Node.size_lt_of_mem (n := n) (_h ▸ List.mem_cons_self); omega)
    | (have h := Node.size_lt_of_mem (n := n) (_h ▸ List.mem_cons_of_mem _ ‹_›); omega)

def forEachStatement (jumps : Nat) (cx : Context) (n : Node) : Classifier Stage := do
  if n.hasAwait then unsupported jumps cx n "await foreach"
  else
    match _h : n.node? 0, _h' : n.node? 1 with
    | some source, some body =>
      let s ← visit jumps cx source
      let s := if s = .generationTime then s else .generated
      if let some v := store.declared? n then bind v s
      let inner ← if s = .generationTime then pure cx else selected cx "the loop over" source
      discard (visit jumps (inner.inLoop s) body)
      return s
    | _, _ => return .either
termination_by jumps * span root + 10 * n.size + 6
decreasing_by
  all_goals first
    | omega
    | (have h := Node.size_lt_of_mem (Node.mem_of_node? _h); omega)
    | (have h := Node.size_lt_of_mem (Node.mem_of_node? _h'); omega)

end

/-! ## Stamping -/

mutual

/-- Rebuilds a tree with the stages and splices of `st`. A node that was never visited inherits
the stage of its parent. -/
def stamp (st : State) (inherited : Stage) : Node → Node
  | ⟨id, kind, span, marks, children⟩ =>
    let old : Node := ⟨id, kind, span, marks, children⟩
    let s := ((st.stages.lookup id).or old.stage?).getD inherited
    let n := Node.setStage s ⟨id, kind, span, marks, stampAll st s children⟩
    if st.splices.contains id then n.mark .splice else n

def stampAll (st : State) (inherited : Stage) : List (Child Node) → List (Child Node)
  | [] => []
  | .token t :: rest => .token t :: stampAll st inherited rest
  | .node n :: rest => .node (stamp st inherited n) :: stampAll st inherited rest

end

end Staging

/-- A tree with a stage on every node, and what was reported about it. -/
structure Classification where
  tree : Node
  diagnostics : List Diagnostic
deriving Repr

/-- Infers the stages of an annotated tree. -/
def classify (store : FactStore) (env : Environment) (n : Node) :
    Except Defect Classification := do
  let (_, st) ← (Staging.visit n store env n.size (.free []) n).run .initial
  return ⟨Staging.stamp st .either n, st.diagnostics⟩

end Stencil
