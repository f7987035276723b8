import Stencil.Symbol
import Stencil.TypeExpr

/-!
# Targets

The method that a template is expanded into. How the method hands back its result decides how a
`return` of the template is written there and in which form the wrapped call can stand for the
method's own body.
-/
namespace Stencil

structure TargetParameter where
  name : String
  type : TypeExpr
deriving DecidableEq, Repr

structure Target where
  name : String
  returns : TypeExpr
  parameters : List TargetParameter
deriving DecidableEq, Repr

/-- How a method hands back its result. -/
inductive ResultShape where
  | void
  | value (type : TypeExpr)
  /-- the awaited type, from an asynchronous body -/
  | awaitable (type : TypeExpr)
  | sequence (item : TypeExpr)
  | enumerator (item : TypeExpr)
  | asyncSequence (item : TypeExpr)
  | asyncEnumerator (item : TypeExpr)
deriving DecidableEq, Repr

namespace ResultShape

/-- The shape that a return type stands for. -/
def ofType : TypeExpr → ResultShape
  | .void => void
  | .awaitable t => awaitable t
  | .sequence t => sequence t
  | .enumerator t => enumerator t
  | .asyncSequence t => asyncSequence t
  | .asyncEnumerator t => asyncEnumerator t
  | t => value t

/-- The one form of the wrapped call that fits. -/
def form : ResultShape → CallForm
  | void | value _ => .plain
  | awaitable _ => .awaitable
  | sequence _ => .sequence
  | enumerator _ => .enumerator
  | asyncSequence _ => .asyncSequence
  | asyncEnumerator _ => .asyncEnumerator

def accepts (r : ResultShape) (f : CallForm) : Bool := r.form == f

/-- The type of the value that a `return` carries, if it carries one. -/
def returned? : ResultShape → Option TypeExpr
  | value t => some t
  | awaitable .void => none
  | awaitable t => some t
  | _ => none

end ResultShape

def Target.result (t : Target) : ResultShape := .ofType t.returns

end Stencil
