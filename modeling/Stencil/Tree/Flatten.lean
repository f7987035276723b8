import Stencil.Tree.Basic

/-!
# Flattening blocks

Generated code nests blocks that nobody wrote. `flatten` moves the contents of such a block into
the block around it: always when the block is marked for it, and, if it is merely synthetic, when
it declares no variable that the move would expose. A tree in which nothing moves is not rebuilt but
shared, which `flatten?` tells.

Results:

* `Node.flatten_block` – what happens to one block;
* `Node.kind_flatten` – the root keeps its kind.
-/
namespace Stencil.Node

/-- Whether a block that stands directly in another block dissolves into it. -/
def isInlined (n : Node) : Bool :=
  n.kind == .block &&
    (n.hasMark .flatten ||
      (n.hasMark .synthetic && !n.nodes.any fun m => m.kind == .localDeclaration))

/-- A child of a block, or the contents of a dissolving block in its place. -/
def inlined : Child Node → List (Child Node)
  | .token t => [.token t]
  | .node n => if n.isInlined then n.children else [.node n]

/-- Dissolves the direct children of a block that are to be. -/
def flattenHere (n : Node) : Node :=
  if n.kind = .block then { n with children := n.children.flatMap inlined } else n

/-- Dissolves blocks throughout the tree, innermost first. -/
def flatten (n : Node) : Node := n.map flattenHere

/-! ## Sharing -/

mutual

/-- Rebuilds the tree from its leaves as `map` does, but only where `f` changes a node; `none` if it
changes none and the tree itself is the result. -/
def rewrite? (f : Node → Option Node) : Node → Option Node
  | ⟨id, kind, span, marks, children⟩ =>
    match rewriteAll? f children with
    | none => f ⟨id, kind, span, marks, children⟩
    | some children =>
      let n : Node := ⟨id, kind, span, marks, children⟩
      some ((f n).getD n)

def rewriteAll? (f : Node → Option Node) : List (Child Node) → Option (List (Child Node))
  | [] => none
  | .token t :: rest => (rewriteAll? f rest).map (.token t :: ·)
  | .node n :: rest =>
    match rewrite? f n, rewriteAll? f rest with
    | none, none => none
    | n', rest' => some (.node (n'.getD n) :: rest'.getD rest)

end

/-- Dissolves the direct children of a block that are to be, if there are any. -/
def flattenHere? (n : Node) : Option Node :=
  if n.kind = .block && n.nodes.any isInlined then some n.flattenHere else none

/-- Dissolves blocks throughout the tree; `none` if there is nothing to dissolve and the tree itself
is the result. -/
def flatten? (n : Node) : Option Node := n.rewrite? flattenHere?

@[simp] theorem kind_flattenHere (n : Node) : n.flattenHere.kind = n.kind := by
  unfold flattenHere; split <;> rfl

@[simp] theorem kind_flatten (n : Node) : n.flatten.kind = n.kind := by
  obtain ⟨id, kind, span, marks, children⟩ := n
  simp [flatten, map]

theorem flatten_block {id : Nat} {span : Span} {marks : List Mark} {cs : List (Child Node)} :
    flatten ⟨id, .block, span, marks, cs⟩ =
      ⟨id, .block, span, marks, (mapAll flattenHere cs).flatMap inlined⟩ := by
  simp [flatten, map, flattenHere]

end Stencil.Node
