import Mathlib.Data.List.Forall2
import Stencil.Proofs.Tree.Tidy
import Stencil.Source.Grammar

/-!
# Trees that read alike

`Alike n n'`: `n'` is what reading the print of `n` gives. Places and numbers are forgotten, and
where the layout of `n` writes parentheses, `n'` has a parenthesized node.

Results:

* `alike_node` – kinds whose children are printed as they are;
* `Alike.binary`, `Alike.cast` and so on – kinds with operands, which may be in parentheses.
-/
namespace Stencil.Source

/-- `n'` reads the print of `n`, with `fence` in parentheses. -/
def AlikeIn (fence : Bool) (n n' : Node) : Prop := n'.tidy false = (n.tidy true).fencedIf fence

/-- `n'` reads the print of `n`. -/
abbrev Alike : Node → Node → Prop := AlikeIn false

/-- The same for children. -/
def Child.Alike (c c' : Child Node) : Prop :=
  c'.mapped (Node.tidy false) = c.mapped (Node.tidy true)

theorem unplaced_eq {t t' : Token} (hk : t'.kind = t.kind) (ht : t'.text = t.text) :
    t'.unplaced = t.unplaced := by
  simp [Token.unplaced, hk, ht]

theorem Child.Alike.token {t t' : Token} (hk : t'.kind = t.kind) (ht : t'.text = t.text) :
    Child.Alike (.token t) (.token t') :=
  congrArg Child.token (unplaced_eq hk ht)

theorem Child.Alike.node {n n' : Node} (h : Source.Alike n n') :
    Child.Alike (.node n) (.node n') :=
  congrArg Child.node h

theorem alike_asNodes {ns ns' : List Node} (h : List.Forall₂ Alike ns ns') :
    List.Forall₂ Child.Alike (Source.Grammar.asNodes ns) (Source.Grammar.asNodes ns') :=
  List.forall₂_map_left_iff.2 (List.forall₂_map_right_iff.2 (h.imp fun _ _ => .node))

theorem mapped_of_alike {cs cs' : List (Child Node)} (h : List.Forall₂ Child.Alike cs cs') :
    cs'.map (Child.mapped (Node.tidy false)) = cs.map (Child.mapped (Node.tidy true)) := by
  induction h with
  | nil => rfl
  | cons hc _ ih => rw [List.map_cons, List.map_cons, ih, hc]

section

variable {id id' : Nat} {span span' : Span} {marks : List Mark}

/-- Nodes are alike when their children are, with the parentheses that the kind asks for. -/
theorem alike_of_children {kind : NodeKind} {cs cs' : List (Child Node)}
    (h : cs'.map (Child.mapped (Node.tidy false)) =
      fencedChildren true kind (cs.map (Child.mapped (Node.tidy true)))) :
    Alike ⟨id, kind, span, marks, cs⟩ ⟨id', kind, span', marks, cs'⟩ := by
  show Node.tidy false _ = Node.tidy true _
  rw [Node.tidy_eq, Node.tidy_eq, fencedChildren_false, h]

theorem alike_node {kind : NodeKind} {cs cs' : List (Child Node)} (hk : kind.hasOperand = false)
    (h : List.Forall₂ Child.Alike cs cs') :
    Alike ⟨id, kind, span, marks, cs⟩ ⟨id', kind, span', marks, cs'⟩ := by
  refine alike_of_children ?_
  rw [fencedChildren_of_not_hasOperand hk, mapped_of_alike h]

/-- Parentheses that were read are those that are written. -/
theorem AlikeIn.parenthesized {n n' : Node} (h : AlikeIn true n n') :
    Alike ⟨id, .parenthesized, span, [], [.node n]⟩ n' := by
  refine h.trans (Eq.symm ?_)
  show Node.tidy true _ = _
  rw [Node.tidy_eq]
  rfl

theorem alikeIn_parens {n n' : Node} (h : Alike n n') :
    AlikeIn true n ⟨id, .parenthesized, span, [], [.node n']⟩ := by
  rw [AlikeIn, Node.tidy_eq]
  simp only [List.map, Child.mapped, fencedChildren]
  rw [show n'.tidy false = n.tidy true from h]
  rfl

theorem mapped_node_of_alikeIn {p : NodeKind → Bool} {n n' : Node} (h : AlikeIn (p n.kind) n n') :
    Child.mapped (Node.tidy false) (.node n') =
      (Child.mapped (Node.tidy true) (.node n)).fenced fun k => true && p k := by
  simp only [Child.mapped, Child.fenced, Node.kind_tidy, Bool.true_and]
  rw [show n'.tidy false = _ from h]

theorem mapped_token {t t' : Token} (hk : t'.kind = t.kind) (ht : t'.text = t.text) :
    Child.mapped (Node.tidy false) (.token t') = .token t.unplaced :=
  congrArg Child.token (unplaced_eq hk ht)

theorem fenced_token (p : NodeKind → Bool) (t : Token) :
    (Child.mapped (Node.tidy true) (.token t)).fenced p = .token t.unplaced := rfl

namespace Alike

theorem binary {l l' r r' : Node} {t t' : Token} (hl : AlikeIn l.kind.fencedBinaryOperand l l')
    (hk : t'.kind = t.kind) (ht : t'.text = t.text)
    (hr : AlikeIn r.kind.fencedBinaryOperand r r') :
    Alike ⟨id, .binary, span, marks, [.node l, .token t, .node r]⟩
      ⟨id', .binary, span', marks, [.node l', .token t', .node r']⟩ := by
  refine alike_of_children ?_
  simp only [fencedChildren, List.map_cons, List.map_nil, mapped_node_of_alikeIn hl,
    mapped_node_of_alikeIn hr, mapped_token hk ht, fenced_token]

theorem unary {n n' : Node} {t t' : Token} (hk : t'.kind = t.kind) (ht : t'.text = t.text)
    (h : AlikeIn n.kind.fencedOperand n n') :
    Alike ⟨id, .unary, span, marks, [.token t, .node n]⟩
      ⟨id', .unary, span', marks, [.token t', .node n']⟩ := by
  refine alike_of_children ?_
  simp only [fencedChildren, List.map_cons, List.map_nil, mapped_node_of_alikeIn h,
    mapped_token hk ht, fenced_token]

theorem await {n n' : Node} (h : AlikeIn n.kind.fencedOperand n n') :
    Alike ⟨id, .await, span, marks, [.node n]⟩ ⟨id', .await, span', marks, [.node n']⟩ := by
  refine alike_of_children ?_
  simp only [fencedChildren, List.map_cons, List.map_nil, mapped_node_of_alikeIn h]

theorem cast {type type' n n' : Node} (ht : Alike type type')
    (h : AlikeIn n.kind.fencedOperand n n') :
    Alike ⟨id, .cast, span, marks, [.node type, .node n]⟩
      ⟨id', .cast, span', marks, [.node type', .node n']⟩ := by
  refine alike_of_children ?_
  have hc : Child.Alike (.node type) (.node type') := .node ht
  simp only [fencedChildren, List.map_cons, List.map_nil, mapped_node_of_alikeIn h]
  rw [hc]

/-- An operand and a token after it. -/
theorem suffixed {kind : NodeKind} {n n' : Node} {t t' : Token}
    (hkind : kind = .memberAccess ∨ kind = .step) (h : AlikeIn n.kind.fencedOperand n n')
    (hk : t'.kind = t.kind) (ht : t'.text = t.text) :
    Alike ⟨id, kind, span, marks, [.node n, .token t]⟩
      ⟨id', kind, span', marks, [.node n', .token t']⟩ := by
  refine alike_of_children ?_
  rcases hkind with rfl | rfl <;>
    simp only [fencedChildren, List.map_cons, List.map_nil, mapped_node_of_alikeIn h,
      mapped_token hk ht, fenced_token]

/-- An operand and the nodes it is applied to. -/
theorem applied {kind : NodeKind} {n n' : Node} {ns ns' : List Node}
    (hkind : kind = .invocation ∨ kind = .elementAccess) (h : AlikeIn n.kind.fencedOperand n n')
    (hs : List.Forall₂ Alike ns ns') :
    Alike ⟨id, kind, span, marks, Source.Grammar.asNodes (n :: ns)⟩
      ⟨id', kind, span', marks, Source.Grammar.asNodes (n' :: ns')⟩ := by
  refine alike_of_children ?_
  have args := mapped_of_alike (alike_asNodes hs)
  simp only [Source.Grammar.asNodes] at args
  rcases hkind with rfl | rfl <;>
    simp only [Source.Grammar.asNodes, fencedChildren, List.map_cons, mapped_node_of_alikeIn h,
      args]

theorem conditional {c c' t t' f f' : Node} (hc : AlikeIn c.kind.fencedBinaryOperand c c')
    (ht : Alike t t') (hf : Alike f f') :
    Alike ⟨id, .conditional, span, marks, Source.Grammar.asNodes [c, t, f]⟩
      ⟨id', .conditional, span', marks, Source.Grammar.asNodes [c', t', f']⟩ := by
  refine alike_of_children ?_
  have ht : Child.Alike (.node t) (.node t') := .node ht
  have hf : Child.Alike (.node f) (.node f') := .node hf
  simp only [Source.Grammar.asNodes, List.map_cons, List.map_nil, fencedChildren,
    mapped_node_of_alikeIn hc]
  rw [ht, hf]

end Alike

end

end Stencil.Source
