import Stencil.Tree.Kind

/-!
# Defects of hand-made trees

Trees read from a text have the layout of their kinds. A tree put together by other means may
lack a child or hold a statement where an expression belongs; the passes that need it then stop
with the defect they met first.
-/
namespace Stencil

inductive Defect where
  /-- the node has no child node at that index -/
  | missingChild (kind : NodeKind) (index : Nat)
  /-- a node of that kind stands where an expression belongs -/
  | notExpression (kind : NodeKind)
  /-- a token of that kind was asked for without its text -/
  | noSpelling (kind : TokenKind)
deriving DecidableEq, Repr

def Defect.message : Defect → String
  | missingChild kind index => s!"{kind.name} is missing child {index}"
  | notExpression kind =>
    s!"internal error: entered unreachable code: {kind.name} is not an expression"
  | noSpelling kind => s!"token kind {kind.name} has no canonical text"

end Stencil
