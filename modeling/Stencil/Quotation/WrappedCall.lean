import Stencil.Diagnostic
import Stencil.Facts.Store
import Stencil.Tree.Ancestors

/-!
# The wrapped call

A template may ask once for the call that it wraps, and only as the value of a `return` or as the
value of a variable declared alone. The first such call of a template, in source order, is the one
that generators provide; every other occurrence is reported.
-/
namespace Stencil.Quotation

/-- The form in which a node asks for the wrapped call, if it does. -/
def wrappedForm? (store : FactStore) (n : Node) : Option CallForm :=
  if n.kind = .invocation then (store.symbol? n).bind Symbol.deferred else none

/-- Whether a node of the template is returned or initializes a variable declared alone. -/
def isProvidable (template n : Node) : Bool :=
  match template.above n.id with
  | some ((parent, _) :: rest) =>
    match parent.kind, rest with
    | .returnStatement, _ => true
    | .declarator, (declaration, _) :: _ => declaration.nodes.length == 1
    | _, _ => false
  | _ => false

/-- All nodes that ask for the wrapped call, in source order. -/
def wrappedCalls (store : FactStore) (template : Node) : List Node :=
  template.preorder.filter fun n => (wrappedForm? store n).isSome

/-- The call that the generator provides, by its number, and its form. -/
def provided? (store : FactStore) (template : Node) : Option (Nat × CallForm) := do
  let n ← (wrappedCalls store template).head?
  let form ← wrappedForm? store n
  if isProvidable template n then some (n.id, form) else none

def misuse (store : FactStore) (n : Node) (phrase : String) : Diagnostic :=
  let callee := ((store.symbol? n).map Symbol.text).getD ""
  ⟨.wrappedCall, .quoting, n.span, s!"`{callee}` {phrase}", [("callee", callee)]⟩

/-- Reports a first call that stands in the wrong place, and all further calls. -/
def misuses (store : FactStore) (template : Node) : List Diagnostic :=
  match wrappedCalls store template with
  | [] => []
  | first :: rest =>
    (if isProvidable template first then []
      else [misuse store first
        "must be the initializer of a single variable or the value of a `return`"]) ++
    rest.map fun n => misuse store n "can be used only once per template"

end Stencil.Quotation
