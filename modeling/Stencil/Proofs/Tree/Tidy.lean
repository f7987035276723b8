import Stencil.Proofs.Source.Shape
import Stencil.Proofs.Tree.Relayout

/-!
# Trees without places, and their parentheses

A layout writes parentheses around an operand that could not stand there bare. `Node.tidy` forgets
where a tree was read; with its flag it also puts a parenthesized node wherever the layout writes
parentheses, so that `tidy true` is the tree that the printed text spells out.

Results:

* `renderAt_tidy` – tidying a tree that was read does not change its print;
* `erased_tidy` – nor does it change what is left when parenthesized nodes are dropped.
-/
namespace Stencil

/-! ## Tidying -/

/-- The node in parentheses. -/
def Node.parens (n : Node) : Node := ⟨0, .parenthesized, .detached, [], [.node n]⟩

/-- The node, in parentheses if `fence` asks for them. -/
def Node.fencedIf (fence : Bool) (n : Node) : Node := if fence then n.parens else n

/-- A child node in parentheses if its kind asks for them. -/
def Child.fenced (p : NodeKind → Bool) : Child Node → Child Node
  | .token t => .token t
  | .node n => .node (n.fencedIf (p n.kind))

/-- The children of a node; with `fence`, in parentheses where the layout of its kind writes
them. -/
def fencedChildren (fence : Bool) (kind : NodeKind) (cs : List (Child Node)) : List (Child Node) :=
  match kind, cs with
  | .binary, cs => cs.map (Child.fenced fun k => fence && k.fencedBinaryOperand)
  | .conditional, c :: cs => c.fenced (fun k => fence && k.fencedBinaryOperand) :: cs
  | .unary, cs | .step, cs | .memberAccess, cs | .await, cs =>
    cs.map (Child.fenced fun k => fence && k.fencedOperand)
  | .invocation, c :: cs | .elementAccess, c :: cs =>
    c.fenced (fun k => fence && k.fencedOperand) :: cs
  | .cast, c :: cs => c :: cs.map (Child.fenced fun k => fence && k.fencedOperand)
  | _, cs => cs

/-- Kinds with a child that may be printed in parentheses. -/
def NodeKind.hasOperand : NodeKind → Bool
  | .binary | .conditional | .unary | .step | .memberAccess | .await | .invocation
  | .elementAccess | .cast => true
  | _ => false

theorem NodeKind.hasOperand_eq_false {kind : NodeKind} (h : kind.isExpression = false) :
    kind.hasOperand = false := by
  cases kind <;> first | rfl | cases h

theorem fencedChildren_of_not_hasOperand {kind : NodeKind} (h : kind.hasOperand = false)
    (fence : Bool) (cs : List (Child Node)) : fencedChildren fence kind cs = cs := by
  unfold fencedChildren
  split
  all_goals first | rfl | cases h

theorem fencedChildren_false (kind : NodeKind) (cs : List (Child Node)) :
    fencedChildren false kind cs = cs := by
  have same : Child.fenced (fun _ => false) = fun c => c := by
    funext c
    cases c <;> rfl
  unfold fencedChildren
  split <;> simp [same]

namespace Node

/-- The tree without numbers and places; with `fence`, the parentheses that its layout writes
are nodes. -/
def tidy (fence : Bool) : Node → Node :=
  map fun n => ⟨0, n.kind, .detached, n.marks,
    fencedChildren fence n.kind (n.children.map (Child.mapped fun m => m))⟩

theorem tidy_eq (fence : Bool) (n : Node) :
    n.tidy fence = ⟨0, n.kind, .detached, n.marks,
      fencedChildren fence n.kind (n.children.map (Child.mapped (tidy fence)))⟩ := by
  obtain ⟨id, kind, span, marks, children⟩ := n
  rw [tidy, map]
  simp only [mapAll_eq]

@[simp] theorem kind_tidy (fence : Bool) (n : Node) : (n.tidy fence).kind = n.kind := by
  rw [tidy_eq]

/-- The inside of a parenthesized node, any other node itself. -/
def unwrapped (n : Node) : Node :=
  match n.kind, n.children with
  | .parenthesized, [.node inner] => inner
  | _, _ => n

/-- What is left of the tree when parenthesized nodes, numbers and places are dropped. -/
def erased : Node → Node :=
  map fun n => unwrapped
    ⟨0, n.kind, .detached, n.marks, n.children.map (Child.mapped fun m => m)⟩

theorem erased_eq (n : Node) :
    n.erased = unwrapped ⟨0, n.kind, .detached, n.marks, n.children.map (Child.mapped erased)⟩ := by
  obtain ⟨id, kind, span, marks, children⟩ := n
  rw [erased, map]
  simp only [mapAll_eq]

theorem erased_fencedIf (fence : Bool) (n : Node) : (n.fencedIf fence).erased = n.erased := by
  cases fence with
  | false => rfl
  | true => rw [fencedIf, if_pos rfl, parens, erased_eq]; rfl

/-- Parentheses around operands leave what is under them. -/
theorem erased_fencedChildren (fence : Bool) (kind : NodeKind) (cs : List (Child Node)) :
    (fencedChildren fence kind cs).map (Child.mapped erased) = cs.map (Child.mapped erased) := by
  have one (p : NodeKind → Bool) (c : Child Node) :
      (c.fenced p).mapped erased = c.mapped erased := by
    cases c with
    | token t => rfl
    | node n => simp [Child.fenced, Child.mapped, erased_fencedIf]
  unfold fencedChildren
  split <;> simp [one]

/-- Tidying a tree does not change what is left of it. -/
theorem erased_tidy (fence : Bool) (n : Node) : (n.tidy fence).erased = n.erased := by
  have below : ∀ c ∈ n.children, (c.mapped (tidy fence)).mapped erased = c.mapped erased := by
    intro c hc
    cases c with
    | token t => rfl
    | node m =>
      have := size_lt_of_mem (mem_nodes.2 hc)
      simp only [Child.mapped, erased_tidy fence m]
  rw [erased_eq (n.tidy fence), erased_eq n, tidy_eq]
  simp only [erased_fencedChildren, List.map_map]
  congr 2
  exact List.map_congr_left below
termination_by n.size

/-! ## What a layout reads of a tidied node -/

theorem keeps_tidy (fence : Bool) : Keeps (tidy fence) where
  kind := kind_tidy fence
  tokens n := by
    have same (p : NodeKind → Bool) : ∀ c : Child Node, (c.fenced p).token? = c.token? := by
      intro c
      cases c <;> rfl
    have kept (kind : NodeKind) (cs : List (Child Node)) :
        (fencedChildren fence kind cs).filterMap Child.token? = cs.filterMap Child.token? := by
      unfold fencedChildren
      split <;> simp [List.filterMap_cons, List.filterMap_map, same]
    rw [tidy_eq, Node.tokens, Node.tokens, kept, List.filterMap_map, List.map_filterMap]
    congr 1
    funext c
    cases c <;> rfl

theorem through_tidy {fence : Bool} {n : Node} (h : n.kind.hasOperand = false) :
    Through (tidy fence) n := by
  rw [Through, tidy_eq, nodes, nodes, fencedChildren_of_not_hasOperand h, List.filterMap_map,
    List.map_filterMap]
  congr 1
  funext c
  cases c <;> rfl

end Node

/-! ## Printing a tidied tree -/

/-- Both lists of pieces have the same text. -/
def SamePrint (ps qs : List Piece) : Prop :=
  ∀ style depth, renderPieces style depth ps = renderPieces style depth qs

namespace SamePrint

variable {ps qs ps' qs' : List Piece}

theorem refl (ps : List Piece) : SamePrint ps ps := fun _ _ => rfl

theorem of_eq (h : ps = qs) : SamePrint ps qs := h ▸ refl ps

theorem append (h : SamePrint ps qs) (h' : SamePrint ps' qs') :
    SamePrint (ps ++ ps') (qs ++ qs') := by
  intro style depth
  rw [renderPieces_append, renderPieces_append, h, h']

theorem cons (p : Piece) (h : SamePrint ps qs) : SamePrint (p :: ps) (p :: qs) :=
  append (refl [p]) h

/-- A parenthesized node prints as parentheses around its inside. -/
theorem parens (n : Node) :
    SamePrint [.node 0 n.parens] [.text "(", .node 0 n, .text ")"] := by
  intro style depth
  have inside : n.parens.renderAt style depth =
      renderPieces style depth [.text "(", .node 0 n, .text ")"] := renderAt_eq ..
  show (n.parens.renderAt style (depth + 0) >>= fun s => pure (s ++ "")) = _
  rw [Nat.add_zero, inside]
  simp

variable {fence : Bool}

theorem wrapped {p : NodeKind → Bool} (hp : p .parenthesized = false) (n : Node) :
    SamePrint
      (Layout.wrapped (p ((n.tidy fence).fencedIf (fence && p n.kind)).kind)
        ((n.tidy fence).fencedIf (fence && p n.kind)))
      ((Layout.wrapped (p n.kind) n).map (Piece.mapped (Node.tidy fence))) := by
  cases h : fence && p n.kind with
  | false =>
    refine of_eq ?_
    simp only [Node.fencedIf, Bool.false_eq_true, if_false, Node.kind_tidy]
    cases p n.kind <;> rfl
  | true =>
    simp only [Bool.and_eq_true] at h
    have outer : ((n.tidy fence).fencedIf true).kind = .parenthesized := rfl
    rw [outer, hp, h.2]
    exact parens _

theorem operand (n : Node) :
    SamePrint (Layout.operand ((n.tidy fence).fencedIf (fence && n.kind.fencedOperand)))
      ((Layout.operand n).map (Piece.mapped (Node.tidy fence))) := by
  simp only [operand_eq]
  exact wrapped rfl n

theorem binaryOperand (n : Node) :
    SamePrint (Layout.binaryOperand ((n.tidy fence).fencedIf (fence && n.kind.fencedBinaryOperand)))
      ((Layout.binaryOperand n).map (Piece.mapped (Node.tidy fence))) := by
  simp only [binaryOperand_eq]
  exact wrapped rfl n

end SamePrint

theorem Child.outline_eq_node {c : Child Node} {k : NodeKind} :
    c.outline = .node k ↔ ∃ n : Node, c = .node n ∧ n.kind = k := by
  cases c <;> simp [Child.outline]

theorem Child.outline_eq_token {c : Child Node} {t : Token} :
    c.outline = .token t ↔ c = .token t := by
  cases c <;> simp [Child.outline]

namespace Layout

variable {style : Style} {id : Nat} {span : Span} {marks : List Mark}

theorem layout_binary (l r : Node) (t : Token) :
    layout style ⟨id, .binary, span, marks, [.node l, .token t, .node r]⟩ =
      binaryOperand l ++ ([Piece.text " ", .text t.text, .text " "] ++ binaryOperand r) := by
  simp [layout, child, Node.node?, Node.nodes, Node.tokenText, Node.token?, Node.tokens,
    List.filterMap_cons]

theorem layout_unary (t : Token) (m : Node) :
    layout style ⟨id, .unary, span, marks, [.token t, .node m]⟩ = .text t.text :: operand m := by
  simp [layout, child, Node.node?, Node.nodes, Node.tokenText, Node.token?, Node.tokens,
    List.filterMap_cons]

theorem layout_step (m : Node) (t : Token) :
    layout style ⟨id, .step, span, marks, [.node m, .token t]⟩ =
      operand m ++ [Piece.text t.text] := by
  simp [layout, child, Node.node?, Node.nodes, Node.tokenText, Node.token?, Node.tokens,
    List.filterMap_cons]

theorem layout_conditional (c t f : Node) :
    layout style ⟨id, .conditional, span, marks, [.node c, .node t, .node f]⟩ =
      binaryOperand c ++ [Piece.text " ? ", .node 0 t, .text " : ", .node 0 f] := by
  simp [layout, child, Node.node?, Node.nodes, plain]

theorem layout_invocation (m : Node) (args : List (Child Node)) :
    layout style ⟨id, .invocation, span, marks, .node m :: args⟩ =
      operand m ++ (.text "(" :: separated ", " ((args.filterMap Child.node?).map plain) ++
        [Piece.text ")"]) := by
  simp [layout, child, Node.node?, Node.nodes]

theorem layout_memberAccess (m : Node) {t : Token} (ht : t.kind = .identifier) :
    layout style ⟨id, .memberAccess, span, marks, [.node m, .token t]⟩ =
      operand m ++ [Piece.text ".", .text t.text] := by
  simp [layout, child, Node.node?, Node.nodes, Node.nameOrEmpty, Node.name?, Node.tokenOfKind?,
    Node.tokens, ht]

theorem layout_elementAccess (m i : Node) :
    layout style ⟨id, .elementAccess, span, marks, [.node m, .node i]⟩ =
      operand m ++ [Piece.text "[", .node 0 i, .text "]"] := by
  simp [layout, child, Node.node?, Node.nodes, plain]

theorem layout_cast (t m : Node) :
    layout style ⟨id, .cast, span, marks, [.node t, .node m]⟩ =
      [Piece.text "(", .node 0 t, .text ")"] ++ operand m := by
  simp [layout, child, Node.node?, Node.nodes, plain]

theorem layout_await (m : Node) :
    layout style ⟨id, .await, span, marks, [.node m]⟩ = .text "await " :: operand m := by
  simp [layout, child, Node.node?, Node.nodes]

end Layout

open Layout in
/-- Kinds with operands: parentheses are written by the layout or are nodes. -/
theorem samePrint_layout_of_hasOperand {fence : Bool} {style : Style} {n : Node}
    (h : Rule n.kind n.outline) (hk : n.kind.hasOperand = true) :
    SamePrint (layout style (n.tidy fence)) ((layout style n).map (Piece.mapped (Node.tidy fence))) := by
  obtain ⟨id, kind, span, marks, children⟩ := n
  rw [Node.tidy_eq]
  simp only [Node.outline] at h hk ⊢
  generalize hp : children.map Child.outline = parts at h
  cases h with
  | operation hkind =>
    rcases hkind with rfl | rfl
    · simp only [List.map_eq_cons_iff, Child.outline_eq_node, Child.outline_eq_token,
        List.map_eq_nil_iff] at hp
      obtain ⟨_, _, rfl, ⟨l, rfl, _⟩, _, _, rfl, rfl, _, _, rfl, ⟨r, rfl, _⟩, rfl⟩ := hp
      simp only [fencedChildren, List.map, Child.mapped, Child.fenced, layout_binary,
        List.map_append, Node.kind_tidy]
      exact (SamePrint.binaryOperand l).append ((SamePrint.refl _).append (.binaryOperand r))
    · cases hk
  | unary =>
    simp only [List.map_eq_cons_iff, Child.outline_eq_node, Child.outline_eq_token,
      List.map_eq_nil_iff] at hp
    obtain ⟨_, _, rfl, rfl, _, _, rfl, ⟨m, rfl, _⟩, rfl⟩ := hp
    simp only [fencedChildren, List.map, Child.mapped, Child.fenced, layout_unary, Node.kind_tidy]
    exact (SamePrint.operand m).cons _
  | step =>
    simp only [List.map_eq_cons_iff, Child.outline_eq_node, Child.outline_eq_token,
      List.map_eq_nil_iff] at hp
    obtain ⟨_, _, rfl, ⟨m, rfl, _⟩, _, _, rfl, rfl, rfl⟩ := hp
    simp only [fencedChildren, List.map, Child.mapped, Child.fenced, layout_step,
      List.map_append, Node.kind_tidy]
    exact (SamePrint.operand m).append (.refl _)
  | conditional =>
    simp only [List.map_eq_cons_iff, Child.outline_eq_node, List.map_eq_nil_iff] at hp
    obtain ⟨_, _, rfl, ⟨c, rfl, _⟩, _, _, rfl, ⟨t, rfl, _⟩, _, _, rfl, ⟨f, rfl, _⟩, rfl⟩ := hp
    simp only [fencedChildren, List.map, Child.mapped, Child.fenced, layout_conditional,
      List.map_append, Node.kind_tidy]
    exact (SamePrint.binaryOperand c).append (.refl _)
  | @invocation ks hne =>
    cases ks with
    | nil => contradiction
    | cons k ks =>
      obtain ⟨_, args, rfl, hm, hargs⟩ := List.map_eq_cons_iff.1 hp
      obtain ⟨m, rfl, _⟩ := Child.outline_eq_node.1 hm
      have tidied : (args.map (Child.mapped (Node.tidy fence))).filterMap Child.node? =
          (args.filterMap Child.node?).map (Node.tidy fence) := by
        rw [List.filterMap_map, List.map_filterMap]
        congr 1
        funext c
        cases c <;> rfl
      simp only [fencedChildren, List.map_cons, Child.mapped, Child.fenced, layout_invocation,
        List.map_append, Node.kind_tidy, tidied, separated_mapped fun m _ => plain_mapped]
      exact (SamePrint.operand m).append (.refl _)
  | memberAccess _ hn =>
    simp only [List.map_eq_cons_iff, Child.outline_eq_node, Child.outline_eq_token,
      List.map_eq_nil_iff] at hp
    obtain ⟨_, _, rfl, ⟨m, rfl, _⟩, _, _, rfl, rfl, rfl⟩ := hp
    simp only [fencedChildren, List.map, Child.mapped, Child.fenced, layout_memberAccess _ hn,
      layout_memberAccess _ (t := Token.unplaced _) hn, List.map_append, Node.kind_tidy]
    exact (SamePrint.operand m).append (.refl _)
  | elementAccess =>
    simp only [List.map_eq_cons_iff, Child.outline_eq_node, List.map_eq_nil_iff] at hp
    obtain ⟨_, _, rfl, ⟨m, rfl, _⟩, _, _, rfl, ⟨i, rfl, _⟩, rfl⟩ := hp
    simp only [fencedChildren, List.map, Child.mapped, Child.fenced, layout_elementAccess,
      List.map_append, Node.kind_tidy]
    exact (SamePrint.operand m).append (.refl _)
  | cast =>
    simp only [List.map_eq_cons_iff, Child.outline_eq_node, List.map_eq_nil_iff] at hp
    obtain ⟨_, _, rfl, ⟨t, rfl, _⟩, _, _, rfl, ⟨m, rfl, _⟩, rfl⟩ := hp
    simp only [fencedChildren, List.map, Child.mapped, Child.fenced, layout_cast,
      List.map_append, Node.kind_tidy]
    exact (SamePrint.refl _).append (.operand m)
  | operand hkind =>
    simp only [List.map_eq_cons_iff, Child.outline_eq_node, List.map_eq_nil_iff] at hp
    obtain ⟨_, _, rfl, ⟨m, rfl, _⟩, rfl⟩ := hp
    simp only [List.mem_cons, List.not_mem_nil, or_false] at hkind
    rcases hkind with rfl | rfl | rfl | rfl
    · cases hk
    · simp only [fencedChildren, List.map, Child.mapped, Child.fenced, layout_await,
        Node.kind_tidy]
      exact (SamePrint.operand m).cons _
    · cases hk
    · cases hk
  | routine hkind => rcases hkind with rfl | rfl <;> cases hk
  | guarded hkind => rcases hkind with rfl | rfl <;> cases hk
  | returning hkind => rcases hkind with rfl | rfl <;> cases hk
  | bare hkind =>
    have none : ∀ k ∈ [NodeKind.emptyStatement, .breakStatement, .continueStatement, .yieldBreak,
      .this], k.hasOperand = false := by decide
    simp [none kind hkind] at hk
  | _ => cases hk

open Layout in
/-- Other kinds: the layout is the same with its nodes tidied. -/
theorem layout_tidy {fence : Bool} {style : Style} {n : Node} (h : Source.IsRead n)
    (hk : n.kind.hasOperand = false) :
    layout style (n.tidy fence) = (layout style n).map (Piece.mapped (Node.tidy fence)) := by
  have rule : Rule n.kind n.outline := (h n n.mem_preorder_self).2.1
  have below {i : Nat} {m : Node} (hm : n.node? i = some m) : Rule m.kind m.outline :=
    (h m (Node.preorder_subset (Node.mem_of_node? hm) m.mem_preorder_self)).2.1
  have hf := Node.keeps_tidy fence
  have through : Node.Through (Node.tidy fence) n := Node.through_tidy hk
  have of_kind {k : NodeKind} (hk : k.isExpression = false) {m : Node} (hm : m.kind = k) :
      Node.Through (Node.tidy fence) m :=
    Node.through_tidy (NodeKind.hasOperand_eq_false (hm ▸ hk))
  have declarators {m : Node} (hm : ∀ d ∈ m.nodes, d.kind = .declarator) (d : Node)
      (hd : d ∈ m.nodes) : Node.Through (Node.tidy fence) d := of_kind rfl (hm d hd)
  have named {k : NodeKind} (hk : k.isExpression = false) (m : Node) (_ : m ∈ n.nodes)
      (hm : m.kind = k) : Node.Through (Node.tidy fence) m := of_kind hk hm
  have part {i : Nat} : child (n.tidy fence) i forPart =
      (child n i forPart).map (Piece.mapped (Node.tidy fence)) :=
    child_mapped hf through fun m hm => forPart_mapped hf (fun hs => Node.through_tidy
      (NodeKind.hasOperand_eq_false (by revert hs; cases m.kind <;> decide)))
      fun hd => declarators ((below hm).nodes_localDeclaration hd)
  have one {i : Nat} : child (n.tidy fence) i plain =
      (child n i plain).map (Piece.mapped (Node.tidy fence)) :=
    child_mapped hf through fun m _ => plain_mapped
  have body {i : Nat} : child (n.tidy fence) i (embedded style) =
      (child n i (embedded style)).map (Piece.mapped (Node.tidy fence)) :=
    child_mapped hf through fun m _ => embedded_mapped hf
  cases hkind : n.kind with
  | block =>
    have empty : (n.tidy fence).children.isEmpty = n.children.isEmpty := by
      rw [Node.tidy_eq, fencedChildren_of_not_hasOperand hk]
      simp
    simpa only [layout, Node.kind_tidy, hkind] using block_mapped through empty
  | localDeclaration =>
    simp only [layout, Node.kind_tidy, hkind, List.map_append,
      declaration_mapped hf through (declarators (rule.nodes_localDeclaration hkind))]
    rfl
  | usingStatement =>
    obtain ⟨declared, b, hnodes, hd⟩ := rule.nodes_usingStatement hkind
    have head : n.node? 0 = some declared := by simp [Node.node?, hnodes]
    have inside : child (n.tidy fence) 0 declaration =
        (child n 0 declaration).map (Piece.mapped (Node.tidy fence)) := by
      refine child_mapped hf through fun m hm => ?_
      cases head.symm.trans hm
      exact declaration_mapped hf (of_kind rfl hd)
        (declarators ((below head).nodes_localDeclaration hd))
    simp only [layout, Node.kind_tidy, hkind, inside, body, awaitPrefix_mapped hf, List.map_append,
      List.map_cons, Piece.mapped]
  | switchStatement =>
    simp only [layout, Node.kind_tidy, hkind, one, show (n.tidy fence).nodes = _ from through,
      ← List.map_tail, sections_mapped hf fun m hm =>
        of_kind rfl (rule.nodes_switchStatement hkind m hm), List.map_append, List.map_cons,
      List.map_nil, Piece.mapped]
  | doStatement =>
    simp only [layout, Node.kind_tidy, hkind, one,
      child_mapped hf through fun m _ => doBody_mapped hf, List.map_append, List.map_cons,
      List.map_nil, Piece.mapped]
  | query =>
    simp only [layout, Node.kind_tidy, hkind, one, hf.nameOrEmpty, List.map_append,
      clause_mapped hf through (named (k := .whereClause) rfl),
      clause_mapped hf through (named (k := .selectClause) rfl), List.map_cons, List.map_nil,
      Piece.mapped]
  | binary | conditional | unary | step | memberAccess | await | invocation | elementAccess
  | cast => simp [hkind, NodeKind.hasOperand] at hk
  | _ =>
    simp only [layout, Node.kind_tidy, hkind, List.map_cons, List.map_append, one, body, part,
      show (n.tidy fence).nodes = _ from through, hf.nameOrEmpty, hf.tokenText,
      separated_mapped fun m _ => plain_mapped, parameters_mapped hf through (named rfl),
      parameter_mapped hf through, awaitPrefix_mapped hf, literal_mapped hf,
      routine_mapped hf through (named rfl), declarator_mapped hf through,
      switchSection_mapped hf through, ifStatement_mapped hf through (named rfl),
      returned_mapped through, lambdaBody_mapped hf through, List.map_nil, Piece.mapped]

/-- Tidying a tree that was read does not change its print. -/
theorem renderAt_tidy (fence : Bool) {n : Node} (h : Source.IsRead n) (style : Style)
    (depth : Nat) : (n.tidy fence).renderAt style depth = n.renderAt style depth := by
  have layouts : renderPieces style depth (layout style (n.tidy fence)) =
      renderPieces style depth ((layout style n).map (Piece.mapped (Node.tidy fence))) := by
    cases hk : n.kind.hasOperand with
    | true =>
      exact samePrint_layout_of_hasOperand (h n n.mem_preorder_self).2.1 hk style depth
    | false => rw [layout_tidy h hk]
  rw [renderAt_eq, renderAt_eq, layouts]
  refine renderPieces_mapped fun d m hm => ?_
  have := size_lt_of_mem_layout hm
  have read : Source.IsRead m := fun x hx =>
    h x (Node.preorder_trans (mem_preorder_of_mem_layout hm) hx)
  exact renderAt_tidy fence read style (depth + d)
termination_by n.size

end Stencil
