import Stencil.Text.Escaped
import Stencil.Tree.Basic

/-!
# Trees in reports

A one-line description of a tree: every node as its kind and span, with its stage if it has one,
and its children in brackets; every token with its quoted text.
-/
namespace Stencil

def Token.describe (t : Token) : String :=
  s!"{t.kind.name}({Text.quoted t.text})@{t.span.text}"

namespace Node

mutual

def describe : Node → String
  | n@⟨_, kind, span, _, children⟩ =>
    let stage := match n.stage? with
      | some s => s!"[{s.name}]"
      | none => ""
    let inner := if children.isEmpty then ""
      else "[" ++ String.intercalate ", " (describeAll children) ++ "]"
    s!"{kind.name}@{span.text}" ++ stage ++ inner

def describeAll : List (Child Node) → List String
  | [] => []
  | .token t :: rest => t.describe :: describeAll rest
  | .node n :: rest => describe n :: describeAll rest

end

end Node

end Stencil
