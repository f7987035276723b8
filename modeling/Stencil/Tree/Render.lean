import Stencil.Defect
import Stencil.Tree.Layout

/-!
# Printing trees

`render` turns the layout of a node into text. The compact style keeps everything on one line; the
pretty style indents by four spaces. Printing stops at the first child that the layout finds
absent.
-/
namespace Stencil

/-- A line break and the indentation after it. -/
def Style.line (style : Style) (depth : Nat) : String :=
  match style with
  | .compact => " "
  | .pretty => "\n" ++ String.ofList (List.replicate (4 * depth) ' ')

namespace Node

/-- The text of a node whose first line is indented `depth` times. -/
def renderAt (style : Style) (depth : Nat) (n : Node) : Except Defect String := do
  let parts ← (layout style n).attach.mapM fun
    | ⟨.text s, _⟩ => pure s
    | ⟨.line d, _⟩ => pure (style.line (depth + d))
    | ⟨.node d m, _⟩ => renderAt style (depth + d) m
    | ⟨.absent kind index, _⟩ => throw (.missingChild kind index)
  return String.join parts
termination_by n.size
decreasing_by exact size_lt_of_mem_layout ‹_›

def render (style : Style) (n : Node) : Except Defect String := n.renderAt style 0

def compact (n : Node) : Except Defect String := n.render .compact

def pretty (n : Node) : Except Defect String := n.render .pretty

end Node

end Stencil
