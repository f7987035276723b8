import Stencil.Proofs.Tree.Places
import Stencil.Proofs.Tree.Relayout

/-!
# Trees that can be printed

Printing stops at a child that a node should have and lacks. The layouts only ask for children that
the kind of the node cannot do without, so a tree that is laid out has a text in both styles.

Results:

* `isWhole_layout` – no piece of a laid out node is absent;
* `Node.Laid.renders` – a tree that is laid out has a text.
-/
namespace Stencil

def Piece.isPresent : Piece → Bool
  | .absent .. => false
  | _ => true

namespace Layout

/-- No child is missing among the pieces. -/
def IsWhole (ps : List Piece) : Prop := ∀ p ∈ ps, p.isPresent

section

variable {ps qs : List Piece} {p : Piece} {n : Node}

@[simp] theorem isWhole_nil : IsWhole [] := by simp [IsWhole]

@[simp] theorem isWhole_cons : IsWhole (p :: ps) ↔ p.isPresent ∧ IsWhole ps := by
  simp [IsWhole]

@[simp] theorem isWhole_append : IsWhole (ps ++ qs) ↔ IsWhole ps ∧ IsWhole qs := by
  simp only [IsWhole, List.mem_append]
  exact ⟨fun h => ⟨fun p hp => h p (.inl hp), fun p hp => h p (.inr hp)⟩,
    fun h p hp => hp.elim (h.1 p) (h.2 p)⟩

@[simp] theorem isPresent_text (s : String) : (Piece.text s).isPresent := rfl

@[simp] theorem isPresent_line (d : Nat) : (Piece.line d).isPresent := rfl

@[simp] theorem isPresent_node (d : Nat) (n : Node) : (Piece.node d n).isPresent := rfl

@[simp] theorem isWhole_plain (n : Node) : IsWhole (plain n) := by
  simp [plain]

@[simp] theorem isWhole_wrapped (b : Bool) (n : Node) : IsWhole (wrapped b n) := by
  cases b <;> simp [wrapped]

@[simp] theorem isWhole_operand (n : Node) : IsWhole (operand n) := isWhole_wrapped _ n

@[simp] theorem isWhole_binaryOperand (n : Node) : IsWhole (binaryOperand n) :=
  isWhole_wrapped _ n

@[simp] theorem isWhole_embedded (style : Style) (n : Node) : IsWhole (embedded style n) := by
  unfold embedded
  split <;> simp

theorem isWhole_separated {s : String} {pss : List (List Piece)} (h : ∀ ps ∈ pss, IsWhole ps) :
    IsWhole (separated s pss) := by
  fun_induction separated s pss with
  | case1 => simp
  | case2 ps => exact h ps (by simp)
  | case3 ps rest _ ih =>
    simp only [isWhole_append, isWhole_cons, isPresent_text, true_and]
    exact ⟨h ps (by simp), ih fun qs hq => h qs (by simp [hq])⟩

@[simp] theorem isWhole_each (s : String) (ns : List Node) :
    IsWhole (separated s (ns.map plain)) :=
  isWhole_separated (by simp)

@[simp] theorem isWhole_declarator (n : Node) : IsWhole (declarator n) := by
  unfold declarator
  split <;> simp

@[simp] theorem isWhole_declaration (n : Node) : IsWhole (declaration n) := by
  rw [declaration, isWhole_cons]
  exact ⟨rfl, isWhole_separated (by simp)⟩

@[simp] theorem isWhole_parameter (n : Node) : IsWhole (parameter n) := by
  unfold parameter
  split <;> simp

@[simp] theorem isWhole_parameters (n : Node) : IsWhole (parameters n) := by
  refine isWhole_separated fun ps hp => ?_
  obtain ⟨c, _, rfl⟩ := List.mem_map.1 hp
  exact isWhole_parameter c

@[simp] theorem isWhole_lines (d : Nat) (ns : List Node) : IsWhole (lines d ns) := by
  induction ns with
  | nil => exact isWhole_nil
  | cons n ns ih =>
    rw [lines, List.flatMap_cons, isWhole_append]
    exact ⟨by simp, ih⟩

@[simp] theorem isWhole_switchSection (d : Nat) (n : Node) : IsWhole (switchSection d n) := by
  unfold switchSection
  split
  · simp
  · split <;> simp

@[simp] theorem isWhole_sections (ns : List Node) : IsWhole (sections ns) := by
  induction ns with
  | nil => exact isWhole_nil
  | cons n ns ih =>
    rw [sections, List.flatMap_cons, isWhole_append]
    exact ⟨by simp, ih⟩

@[simp] theorem isWhole_block (n : Node) : IsWhole (block n) := by
  unfold block
  split <;> simp

@[simp] theorem isWhole_routine (s : String) (n : Node) : IsWhole (routine s n) := by
  unfold routine
  split <;> simp

@[simp] theorem isWhole_awaitPrefix (n : Node) : IsWhole (awaitPrefix n) := by
  unfold awaitPrefix
  split <;> simp

@[simp] theorem isWhole_doBody (style : Style) (n : Node) : IsWhole (doBody style n) := by
  unfold doBody
  split <;> simp

@[simp] theorem isWhole_returned (n : Node) : IsWhole (returned n) := by
  unfold returned
  split <;> simp

@[simp] theorem isWhole_literal (n : Node) : IsWhole (literal n) := by
  unfold literal
  split <;> simp

@[simp] theorem isWhole_lambdaBody (n : Node) : IsWhole (lambdaBody n) := by
  unfold lambdaBody
  split
  · split <;> simp
  · simp

/-! ## Required children -/

theorem isWhole_child (h : n.FitsKind) {i : Nat} (hi : i < required n.kind)
    {f : Node → List Piece} (hf : ∀ c ∈ n.nodes, IsWhole (f c)) : IsWhole (child n i f) := by
  obtain ⟨c, hc⟩ := n.exists_node? h hi
  rw [child, hc]
  exact hf c (Node.mem_of_node? hc)

theorem isWhole_forPart (h : n.FitsKind) : IsWhole (forPart n) := by
  unfold forPart
  split
  · simp
  · simp
  · next hk => exact isWhole_child h (by rw [hk]; decide) fun c _ => isWhole_plain c
  · simp

theorem isWhole_clause {kind : NodeKind} (hr : 0 < required kind) (keyword : String)
    (h : ∀ c ∈ n.nodes, c.FitsKind) : IsWhole (clause keyword n kind) := by
  unfold clause
  split
  · next c hc =>
    have hk : c.kind = kind := by simpa using List.find?_some hc
    rw [isWhole_cons]
    exact ⟨rfl, isWhole_child (h c (Node.mem_of_nodeOfKind? hc)) (hk ▸ hr) fun d _ =>
      isWhole_plain d⟩
  · simp

theorem isWhole_elseBranch (h : n.FitsKind) (hk : n.kind = .elseClause) (style : Style)
    (thenKind : NodeKind) : IsWhole (elseBranch style thenKind n) := by
  have rest : IsWhole (child n 0 fun body =>
      if body.kind = .ifStatement then [.text " ", .node 0 body] else embedded style body) := by
    refine isWhole_child h (by rw [hk]; decide) fun c _ => ?_
    split <;> simp
  unfold elseBranch
  split <;> simpa using rest

theorem isWhole_ifStatement (h : n.FitsKind) (hk : n.kind = .ifStatement)
    (hc : ∀ c ∈ n.nodes, c.FitsKind) (style : Style) : IsWhole (ifStatement style n) := by
  have condition : IsWhole (child n 0 plain) :=
    isWhole_child h (by rw [hk]; decide) fun c _ => isWhole_plain c
  simp only [ifStatement, List.cons_append, isWhole_cons, isPresent_text, isWhole_append, true_and]
  refine ⟨condition, isWhole_child h (by rw [hk]; decide) fun c _ => ?_⟩
  rw [isWhole_append]
  refine ⟨isWhole_embedded style c, ?_⟩
  split
  · next clause hclause =>
    exact isWhole_elseBranch (hc clause (Node.mem_of_nodeOfKind? hclause))
      (by simpa using List.find?_some hclause) style c.kind
  · exact isWhole_nil

end

end Layout

open Layout in
/-- Nothing is absent among the pieces of a node that is laid out, with its children. -/
theorem isWhole_layout {n : Node} (h : n.FitsKind) (hc : ∀ c ∈ n.nodes, c.FitsKind)
    (style : Style) : IsWhole (layout style n) := by
  have one {i : Nat} (hi : i < required n.kind) : IsWhole (child n i plain) :=
    isWhole_child h hi fun c _ => isWhole_plain c
  have op {i : Nat} (hi : i < required n.kind) : IsWhole (child n i operand) :=
    isWhole_child h hi fun c _ => isWhole_operand c
  have bin {i : Nat} (hi : i < required n.kind) : IsWhole (child n i binaryOperand) :=
    isWhole_child h hi fun c _ => isWhole_binaryOperand c
  have body {i : Nat} (hi : i < required n.kind) : IsWhole (child n i (embedded style)) :=
    isWhole_child h hi fun c _ => isWhole_embedded style c
  have repeated {i : Nat} (hi : i < required n.kind) : IsWhole (child n i (doBody style)) :=
    isWhole_child h hi fun c _ => isWhole_doBody style c
  have declared {i : Nat} (hi : i < required n.kind) : IsWhole (child n i declaration) :=
    isWhole_child h hi fun c _ => isWhole_declaration c
  have part {i : Nat} (hi : i < required n.kind) : IsWhole (child n i forPart) :=
    isWhole_child h hi fun c hm => isWhole_forPart (hc c hm)
  have filter : IsWhole (clause " where " n .whereClause) := isWhole_clause (by decide) _ hc
  have select : IsWhole (clause " select " n .selectClause) := isWhole_clause (by decide) _ hc
  unfold layout
  split
  all_goals
    next hk =>
    first
      | exact isWhole_ifStatement h hk hc style
      | (rw [hk] at one op bin body repeated declared part
         simp (disch := decide) only [isWhole_cons, isWhole_append, isPresent_text,
          isPresent_line, isWhole_nil, and_true, isWhole_each, isWhole_routine, isWhole_block,
          isWhole_declaration, isWhole_awaitPrefix, isWhole_returned, isWhole_sections,
          isWhole_switchSection, isWhole_parameter, isWhole_declarator, isWhole_literal,
          isWhole_parameters, isWhole_lambdaBody, one, op, bin, body, repeated, declared, part,
          filter, select])

/-! ## Printing -/

theorem renders_pieces {style : Style} {depth : Nat} {ps : List Piece} (h : Layout.IsWhole ps)
    (hn : ∀ d m, Piece.node d m ∈ ps → ∃ s, m.renderAt style (depth + d) = .ok s) :
    ∃ s, renderPieces style depth ps = .ok s := by
  induction ps with
  | nil => exact ⟨"", rfl⟩
  | cons p ps ih =>
    obtain ⟨hp, h⟩ := Layout.isWhole_cons.1 h
    have here : ∃ s, p.render style depth = .ok s := by
      cases p with
      | text s => exact ⟨s, rfl⟩
      | line d => exact ⟨_, rfl⟩
      | node d m => exact hn d m List.mem_cons_self
      | absent kind index => cases hp
    obtain ⟨s, hs⟩ := here
    obtain ⟨t, ht⟩ := ih h fun d m hm => hn d m (List.mem_cons_of_mem _ hm)
    exact ⟨s ++ t, by rw [renderPieces, hs, ht]; rfl⟩

theorem Node.Laid.renderAt {n : Node} (h : n.Laid) (style : Style) (depth : Nat) :
    ∃ s, n.renderAt style depth = .ok s := by
  rw [renderAt_eq]
  refine renders_pieces (isWhole_layout h.here (fun c hc => (h.child hc).here) style) ?_
  intro d m hm
  have := size_lt_of_mem_layout hm
  exact (h.below (mem_preorder_of_mem_layout hm)).renderAt style (depth + d)
termination_by n.size

/-- A tree that is laid out has a text. -/
theorem Node.Laid.renders {n : Node} (h : n.Laid) (style : Style) :
    ∃ s, n.render style = .ok s :=
  h.renderAt style 0

end Stencil
