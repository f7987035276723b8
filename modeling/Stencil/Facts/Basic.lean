import Stencil.Symbol
import Stencil.TypeExpr

/-!
# Facts about nodes

What name resolution finds out about one node of a template.
-/
namespace Stencil

structure Facts where
  /-- what the node refers to -/
  symbol : Option Symbol
  /-- what the node declares -/
  declared : Option Symbol
  /-- the type of an expression, or of the variable declared -/
  type : Option TypeExpr
deriving DecidableEq, Repr, Inhabited

namespace Facts

/-- Nothing is known. -/
def none : Facts := ⟨.none, .none, .none⟩

def isNone (f : Facts) : Bool := f.symbol.isNone && f.declared.isNone && f.type.isNone

end Facts

end Stencil
