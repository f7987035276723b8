import Stencil.Diagnostic
import Stencil.Tree.Basic

/-!
# Reserved identifiers

Generator programs declare variables of their own, all of which start with `__`. A template that
uses such an identifier could capture them, so it is refused before anything else is looked at.
-/
namespace Stencil.Reserved

/-- How the variables of generator programs start. -/
def mark : String := "__"

def isReserved (name : String) : Bool := name.startsWith mark

/-- The identifiers of a tree that are spelled like generator variables, in source order within
each node. -/
def found (n : Node) : List Token :=
  n.preorder.flatMap fun m => m.tokens.filter fun t => t.kind == .identifier && isReserved t.text

def complain (t : Token) : Diagnostic where
  complaint := .reserved
  phase := .validation
  span := t.span
  message := s!"identifier `{t.text}` uses the reserved prefix `{mark}`"
  properties := [("identifier", t.text)]

/-- One diagnostic for each reserved identifier. -/
def check (n : Node) : List Diagnostic := (found n).map complain

end Stencil.Reserved
