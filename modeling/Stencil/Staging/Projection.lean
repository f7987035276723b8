import Stencil.Partition
import Stencil.Tree.Basic

/-!
# Stages over the text

A classified tree colours the text it was read from: every node owns the part of its span that no
child node covers, and marks it with its stage.
-/
namespace Stencil.Staging

/-- What is left of the text from `cursor` to `stop` once the spans, sorted by their starts, are
cut out. -/
def gaps (cursor stop : Nat) : List Span → List Span
  | [] => if cursor < stop then [⟨cursor, stop⟩] else []
  | s :: rest =>
    (if cursor < s.start then [⟨cursor, s.start⟩] else []) ++ gaps (max cursor s.stop) stop rest

/-- The parts of a node's span that no child node covers. -/
def ownSpans (n : Node) : List Span :=
  if n.span.isEmpty then []
  else
    let inner := (n.nodes.map Node.span).filter (!·.isEmpty)
    gaps n.span.start n.span.stop (inner.mergeSort Span.before)

def paint (p : Partition) (n : Node) : Partition :=
  match n.stage? with
  | some s => if s.isDeterminate then (ownSpans n).foldl (fun p t => p.mark t.start t.stop s) p else p
  | none => p

/-- The partition of the text by the stages of a classified tree. -/
def project (n : Node) : Partition := n.preorder.foldl paint .fresh

end Stencil.Staging
