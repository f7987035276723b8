import Stencil.Expansion.Interpreter
import Stencil.Quotation.Quoter

/-!
# Residual code

The direct meaning of a classified template: its body is run in order, and what is not run at
generation time is emitted. No generator program is made.

* A generation-time expression statement is evaluated, a generation-time `if` runs the branch it
  chooses, and a generation-time `foreach` runs its body once for each item of its source.
* Any other statement is emitted each time it is reached: its tree is built again, with the
  literal of its value in place of each outermost generation-time expression that is no literal,
  and with the code that each splice comes to.
* A generated block that holds generation-time statements takes what these emit. Names made up in
  it are in a scope of its own.

What a block takes is collected in a list of the machine, and every node built gets a number there,
so running the template and running its generator can be compared step by step.
-/
namespace Stencil.Residual

open Expansion

variable (store : FactStore) (own : Nat)

/-- Gives a node a number that no other node has. -/
def numbered (n : Node) : Run Node := return { n with id := ← newIdentity }

/-- Evaluates an expression. Without closures evaluation nests no deeper than the expression has
nodes. -/
def evaluate (env : Scoping) (n : Node) : Run Value := eval own n.size env n

/-- The code of a splice. -/
def spliced : Value → Run Node
  | .node n => return n
  | v => do numbered (← asNode v)

/-- The token that writes down a value of a type; `none` for types whose values have no literal. -/
def literalToken? : TypeExpr → Option (Value → Run Token)
  | .string => some fun v => return .detached .stringLiteral (← sound v.text)
  | .char => some fun v => return .detached .charLiteral (← sound v.text)
  | .int | .long => some fun v => return .detached .intLiteral (toString (← typed v.asInt).toInt)
  | .float | .double =>
    some fun v => return .detached .floatLiteral (Number.literalText (← typed v.asFloat))
  | _ => none

/-- The literal of an expression's value; `default` if the type of the expression says nothing
about its value. -/
def literalOf (env : Scoping) (n : Node) : Run Node :=
  match (store.type? n).bind literalToken? with
  | some token => do numbered (.literal (← token (← evaluate own env n)))
  | none => numbered (.keywordLiteral .defaultKeyword)

/-- Whether a part of generated code is replaced by the literal of its value. The name of a callee
is no value. -/
def isLifted (callee : Bool) (n : Node) : Bool :=
  n.kind.isExpression && n.stage? == some .generationTime && n.kind != .literal &&
    !(callee && (n.kind == .memberAccess || n.kind == .identifier))

/-- The branch of an `if` that its condition chooses. -/
def branch? (n : Node) : Bool → Option Node
  | true => n.node? 1
  | false => (n.nodeOfKind? .elseClause).bind (·.node? 0)

theorem size_lt_of_branch? {n m : Node} {chosen : Bool} (h : branch? n chosen = some m) :
    m.size < n.size := by
  cases chosen with
  | true => exact Node.size_lt_of_mem (Node.mem_of_node? h)
  | false =>
    obtain ⟨clause, hc, hm⟩ := Option.bind_eq_some_iff.1 h
    have outer := Node.size_lt_of_mem (Node.mem_of_nodeOfKind? hc)
    have inner := Node.size_lt_of_mem (Node.mem_of_node? hm)
    omega

mutual

/-- Generated code for a node; `callee` says that it stands as the method part of a call. -/
def code (env : Scoping) (callee : Bool) (n : Node) : Run Node := do
  if n.kind.isStatement then
    if n.kind = .block && n.nodes.any Quotation.isHostLevel then
      let place ← inNestedScope own (collected env n)
      numbered (← constructNode .block [.list place])
    else rebuilt env n
  else if n.hasMark .splice then spliced (← evaluate own env n)
  else if isLifted callee n then literalOf store own env n
  else rebuilt env n
termination_by 6 * n.size + 4

/-- The node with its parts generated anew. -/
def rebuilt (env : Scoping) (n : Node) : Run Node := do
  let children ← n.children.attach.zipIdx.mapM fun
    | (⟨.token t, _⟩, _) => pure (.token (.detached t.kind t.text))
    | (⟨.node m, _⟩, index) => .node <$> code env (index = 0 && n.kind = .invocation) m
  numbered (.build n.kind children)
termination_by 6 * n.size
decreasing_by have := Node.size_lt_of_mem (Node.mem_nodes.2 ‹_›); omega

/-- Runs one statement of a template; what it emits is added to the list at `place`. -/
def statement (place : Nat) (env : Scoping) (n : Node) : Run Flow := do
  if n.stage? = some .generationTime then
    match n.kind with
    | .ifStatement =>
      let chosen ← typed (← evaluate own env (← childOf n 0)).asBool
      match _h : branch? n chosen with
      | some branch => statements place env branch
      | none => return .ongoing
    | .forEachStatement =>
      let items ← itemsOf (← evaluate own env (← childOf n 0))
      match _h : n.node? 1 with
      | some body =>
        forEachItem (fun item => do
          let inner ← nestedIn env
          define inner n.nameOrEmpty item
          statements place inner body) items
      | none => return .ongoing
    | .breakStatement => return .broken
    | .continueStatement => return .continued
    | _ =>
      discard (evaluate own env (← childOf n 0))
      return .ongoing
  else
    appendTo place [.node (← code env false n)]
    return .ongoing
termination_by 6 * n.size + 5
decreasing_by
  · have := size_lt_of_branch? _h; omega
  · have := Node.size_lt_of_mem (Node.mem_of_node? _h); omega
  · omega

/-- Runs the statements of a block until one does not go on. -/
def statements (place : Nat) (env : Scoping) (n : Node) : Run Flow :=
  inOrder (fun ⟨m, _⟩ => statement place env m) n.nodes.attach
termination_by 6 * n.size
decreasing_by have := Node.size_lt_of_mem ‹_›; omega

/-- Runs the statements of a block and collects what they emit in a new list. A jump must not leave
the block. -/
def collected (env : Scoping) (n : Node) : Run Nat := do
  let place ← newPlace #[]
  let flow ← statements place env n
  discard flow.value
  return place
termination_by 6 * n.size + 1

end

/-- Runs a template with its parameters bound to the arguments of the context. -/
def block (template : Node) : Run Node := do
  let env ← nestedIn []
  (template.nodes.filter (·.kind == .parameter)).forM (bindParameter own env)
  let place ← match template.nodeOfKind? .block with
    | some body => collected store own env body
    | none => newPlace #[]
  numbered (← constructNode .block [.list place])

end Residual

/-- The code that a classified template comes to in a target, found by running the template. -/
def residualize (store : FactStore) (target : Target) (arguments : List (String × Datum))
    (template : Node) : Except Expansion.Stop Node :=
  let (own, m) := Expansion.Machine.initial.addContext target arguments
  match Expansion.entering own (Residual.block store own template) m with
  | .ok n _ => .ok n.flatten
  | .error e _ => .error e

end Stencil
