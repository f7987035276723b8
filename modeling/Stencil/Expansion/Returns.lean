import Stencil.Target
import Stencil.Tree.Build

/-!
# Returning from the target

A `return` of a template is written into the target as the shape of its result demands: a method
without a result evaluates the value and leaves, a method with one returns it, and methods that
produce sequences hand out the items of the value one by one.
-/
namespace Stencil.Expansion

/-- Literals and names, possibly in parentheses or cast, can be dropped without being evaluated. -/
def isPure (n : Node) : Bool :=
  match n.kind with
  | .literal | .identifier | .this => true
  | .parenthesized =>
    match _h : n.node? 0 with
    | some inner => isPure inner
    | none => false
  | .cast =>
    match _h : n.node? 1 with
    | some inner => isPure inner
    | none => false
  | _ => false
termination_by n.size
decreasing_by all_goals exact Node.size_lt_of_mem (Node.mem_of_node? _h)

/-- A statement that evaluates a value. What cannot stand as a statement is discarded into `_`. -/
def evaluated (value : Node) : Node :=
  match value.kind with
  | .invocation | .assignment | .step | .await => .expressionStatement value
  | _ => .expressionStatement (.assignment (.identifier "_") value)

/-- `{ value; return; }`, without the value if it is pure. -/
def voidReturn (value : Option Node) : Node :=
  let kept := (value.filter fun v => !isPure v).toList.map evaluated
  (Node.block (kept ++ [.returnStatement none])).mark .synthetic

/-- `{ foreach (var item in value) yield return item; yield break; }` -/
def handOut (awaited : Bool) (value : Node) (item : String) : Node :=
  let each := Node.forEachStatement awaited (.ofName item) value (.yieldReturn (.identifier item))
  (Node.block [each, .yieldBreak]).mark .flatten

/-- Acquires the enumerator so that it is released on every path, and yields what it produces. -/
def drain (awaited : Bool) (value : Node) (enumerator : String) : Node :=
  let advance := if awaited then "MoveNextAsync" else "MoveNext"
  let moveNext := Node.invocation (.memberAccess (.identifier enumerator) advance) []
  let condition := if awaited then .await moveNext else moveNext
  let current := Node.memberAccess (.identifier enumerator) "Current"
  let pump := Node.whileStatement condition (.yieldReturn current)
  let acquired := Node.localDeclaration (.ofName enumerator) (some value)
  (Node.block [.usingStatement awaited acquired (.block [pump]), .yieldBreak]).mark .flatten

/-- The value as it is returned: one that is only known to be generated code is cast. -/
def returnedValue (type : TypeExpr) (dynamic : Bool) (value : Node) : Node :=
  if dynamic && type ≠ .dynamic then .cast type.text value else value

/-- The statement that stands for `return value;` in a target. `fresh` provides the names of the
variables of written-out loops. -/
def lowerReturn {m : Type → Type} [Monad m] (fresh : String → m String) (shape : ResultShape)
    (value : Option Node) (dynamic : Bool) : m Node :=
  match shape, value with
  | .void, value | .awaitable .void, value => return voidReturn value
  | .value type, value | .awaitable type, value =>
    return .returnStatement (value.map (returnedValue type dynamic))
  | _, none => return .yieldBreak
  | .sequence _, some value => return handOut false value (← fresh "item")
  | .asyncSequence _, some value => return handOut true value (← fresh "item")
  | .enumerator _, some value => return drain false value (← fresh "enumerator")
  | .asyncEnumerator _, some value => return drain true value (← fresh "enumerator")

/-- What the name of a method's own body adds to the name of the method. -/
def ownBodyEnding : String := "_Original"

/-- The call that a template wraps, in the form asked for. -/
def wrappedCall (target : Target) (form : CallForm) : Node :=
  let call := Node.call (target.name ++ ownBodyEnding)
    (target.parameters.map fun p => .identifier p.name)
  if form = .awaitable then .await call else call

end Stencil.Expansion
