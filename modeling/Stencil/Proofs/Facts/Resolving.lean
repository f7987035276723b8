import Stencil.Facts.Resolution
import Stencil.Proofs.Stopping
import Stencil.Proofs.Tree.Places

/-!
# Resolution always ends

The resolver walks expressions in the places where the layout of a node has one, and stops if it
finds anything else there. In a tree that is laid out it never does.

Results:

* `total_meaning`, `total_walk` – the resolver ends at a node if it ends at its parts;
* `Node.Laid.resolves` – a tree that is laid out can be resolved.
-/
namespace Stencil

/-- Slots that take no nodes but expressions. -/
def Slot.takesExpressions : Slot → Bool
  | .token _ | .literal | .operator | .expression | .label => true
  | _ => false

theorem Slot.isExpression_of_admits {s : Slot} (hs : s.takesExpressions) {k : NodeKind}
    (h : s.admits (.node k)) : k.isExpression := by
  cases s <;> simp_all [Slot.takesExpressions, Slot.admits]

namespace Node.FitsKind

variable {n m : Node}

/-- The children of most expressions are expressions. -/
theorem isExpression_child (h : n.FitsKind)
    (hs : (places n.kind).all fun p => p.slot.takesExpressions) (hm : m ∈ n.nodes) :
    m.kind.isExpression := by
  have outline : .node m.kind ∈ n.outline :=
    List.mem_map_of_mem (f := Child.outline) (mem_nodes.1 hm)
  exact h.forall_node (P := fun k => k.isExpression)
    (fun p hp _ hk => Slot.isExpression_of_admits (List.all_eq_true.1 hs p hp) hk) _ outline

theorem nodes_forEach (h : n.FitsKind) (hk : n.kind = .forEachStatement) :
    ∃ source body, n.nodes = [source, body] ∧ source.kind.isExpression := by
  have kinds := n.nodes_outline
  simp only [FitsKind, hk, places, fills_optional, fills_one, fills_nil, admits_token,
    admits_expression, admits_statement] at h
  have two : ∃ k k', n.nodes.map kind = [k, k'] ∧ k.isExpression := by
    rcases h with ⟨_, _, ho, ⟨_, rfl, -⟩, _, _, rfl, ⟨_, rfl, -⟩, _, _, rfl, ⟨k, rfl, hs⟩, _, _,
      rfl, ⟨k', rfl, -⟩, rfl⟩ | ⟨_, _, ho, ⟨_, rfl, -⟩, _, _, rfl, ⟨k, rfl, hs⟩, _, _, rfl,
      ⟨k', rfl, -⟩, rfl⟩ <;>
    exact ⟨k, k', by rw [kinds, ho]; rfl, hs⟩
  obtain ⟨k, k', hn, hs⟩ := two
  obtain ⟨source, body, hn, hk, -⟩ := two_of_kinds hn
  exact ⟨source, body, hn, hk ▸ hs⟩

theorem nodes_cast (h : n.FitsKind) (hk : n.kind = .cast) :
    ∃ type operand, n.nodes = [type, operand] ∧ operand.kind.isExpression := by
  have kinds := n.nodes_outline
  simp only [FitsKind, hk, places, fills_one, fills_nil, admits_node, admits_expression] at h
  obtain ⟨_, _, ho, rfl, _, _, rfl, ⟨k, rfl, hs⟩, rfl⟩ := h
  obtain ⟨type, operand, hn, -, rfl⟩ := two_of_kinds (kinds.trans (by rw [ho]; rfl))
  exact ⟨type, operand, hn, hs⟩

/-- A query has a source and clauses. -/
theorem nodes_query (h : n.FitsKind) (hk : n.kind = .query) :
    ∃ source clauses, n.nodes = source :: clauses ∧ source.kind.isExpression ∧
      ∀ c ∈ clauses, c.kind = .whereClause ∨ c.kind = .selectClause := by
  have kinds := n.nodes_outline
  simp only [FitsKind, hk, places, fills_optional, fills_one, fills_nil, admits_token, admits_node,
    admits_expression] at h
  obtain ⟨_, _, ho, ⟨_, rfl, -⟩, _, _, rfl, ⟨k, rfl, hs⟩, h⟩ := h
  rcases h with ⟨_, _, rfl, rfl, _, _, rfl, rfl, rfl⟩ | ⟨_, _, rfl, rfl, rfl⟩
  · obtain ⟨source, filter, select, hn, rfl, hf, hsel⟩ :=
      three_of_kinds (kinds.trans (by rw [ho]; rfl))
    exact ⟨source, [filter, select], hn, hs, by simp [hf, hsel]⟩
  · obtain ⟨source, select, hn, rfl, hsel⟩ := two_of_kinds (kinds.trans (by rw [ho]; rfl))
    exact ⟨source, [select], hn, hs, by simp [hsel]⟩

end Node.FitsKind

namespace Resolution

variable {e : Environment} {n : Node}

/-- The action finds no defect. -/
abbrev Total {α : Type} (act : Resolver α) : Prop := StopsFor (fun _ => False) act

theorem total_record (n : Node) (f : Facts) : Total (record n f) := by
  unfold record
  split
  · exact .pure _
  · exact .modify _

theorem total_declare (name : String) (kind : SymbolKind) (type : Option TypeExpr) :
    Total (declare name kind type) :=
  .bind .get fun _ => .bind (.modify _) fun _ => .pure _

theorem total_inScope {α : Type} {walk : Resolver α} (h : Total walk) : Total (inScope walk) :=
  .bind (.modify _) fun _ => .bind h fun _ => .bind (.modify _) fun _ => .pure _

theorem total_refine (target : Node) (value : TypeExpr) : Total (refine target value) := by
  unfold refine
  split
  · exact .modify _
  · exact .pure _

theorem total_operand {i : Nat} (h : ∀ m, n.node? i = some m → Total (expression e m)) :
    Total (operand e n i) := by
  rw [operand]
  split
  · next m hm => exact h m hm
  · exact .pure _

section

variable (h : n.Laid) (ih : ∀ m : Node, m.size < n.size → m.Laid →
  Total (walk e m) ∧ (m.kind.isExpression → Total (expression e m)))

include h ih

theorem total_child {m : Node} (hm : m ∈ n.nodes) :
    Total (walk e m) ∧ (m.kind.isExpression → Total (expression e m)) :=
  ih m (Node.size_lt_of_mem hm) (h.child hm)

theorem total_walkChildren : Total (walkChildren e n) := by
  rw [walkChildren]
  exact .forM _ fun m _ => (total_child h ih m.2).1

/-- The operands of an operator are walked one by one. -/
theorem total_operands (hs : (places n.kind).all fun p => p.slot.takesExpressions) (i : Nat) :
    Total (operand e n i) :=
  total_operand fun _ hm => (total_child h ih (Node.mem_of_node? hm)).2
    (h.here.isExpression_child hs (Node.mem_of_node? hm))

theorem total_meaning (hk : n.kind.isExpression) : Total (meaning e n) := by
  have operands (hs : (places n.kind).all fun p => p.slot.takesExpressions) (i : Nat) :
      Total (operand e n i) := total_operands h ih hs i
  have children (hs : (places n.kind).all fun p => p.slot.takesExpressions) {m : Node}
      (hm : m ∈ n.nodes) : Total (expression e m) :=
    (total_child h ih hm).2 (h.here.isExpression_child hs hm)
  rw [meaning]
  split
  case h_1 => exact .pure _
  case h_2 =>
    refine .bind .get fun s => ?_
    split <;> exact .pure _
  case h_3 => exact .pure _
  case h_4 heq | h_5 heq => exact .bind (operands (by rw [heq]; rfl) 0) fun _ => .pure _
  case h_6 heq =>
    exact .bind (operands (by rw [heq]; rfl) 0) fun _ =>
      .bind (operands (by rw [heq]; rfl) 1) fun _ => .pure _
  case h_7 heq => exact .bind (operands (by rw [heq]; rfl) 0) fun _ => .pure _
  case h_8 heq =>
    refine .bind (operands (by rw [heq]; rfl) 1) fun value => ?_
    split
    · exact .bind (total_refine _ _) fun _ => .bind (operands (by rw [heq]; rfl) 0) fun _ => .pure _
    · exact .bind (operands (by rw [heq]; rfl) 0) fun _ => .pure _
  case h_9 heq =>
    exact .bind (.discard (operands (by rw [heq]; rfl) 0)) fun _ =>
      .bind (operands (by rw [heq]; rfl) 1) fun _ =>
        .bind (operands (by rw [heq]; rfl) 2) fun _ => .pure _
  case h_10 heq =>
    split
    · exact .pure _
    · next callee arguments hn =>
      refine .bind (children (by rw [heq]; rfl) (hn ▸ List.mem_cons_self)) fun _ => ?_
      refine .bind (.forM _ fun m _ => ?_) fun _ => .bind .get fun _ => .pure _
      exact .discard (children (by rw [heq]; rfl) (hn ▸ List.mem_cons_of_mem _ m.2))
  case h_11 heq =>
    refine .bind (operands (by rw [heq]; rfl) 0) fun receiver => ?_
    split
    · exact .pure _
    · split <;> exact .pure _
  case h_12 heq =>
    exact .bind (operands (by rw [heq]; rfl) 0) fun _ =>
      .bind (.discard (operands (by rw [heq]; rfl) 1)) fun _ => .pure _
  case h_13 heq =>
    obtain ⟨type, value, hn, hv⟩ := h.here.nodes_cast heq
    refine .bind (.discard (total_operand fun m hm => ?_)) fun _ => .pure _
    obtain rfl : value = m := by simpa [Node.node?, hn] using hm
    exact (total_child h ih (hn ▸ by simp)).2 hv
  case h_14 heq =>
    exact .bind (.mapM _ fun m _ => children (by rw [heq]; rfl) m.2) fun _ => .pure _
  case h_15 heq =>
    refine .bind (total_inScope (.forM _ fun m _ => ?_)) fun _ => .pure _
    dsimp only
    split
    · split
      · exact .bind (total_declare _ _ _) fun _ => total_record _ _
      · exact .pure _
    · exact (total_child h ih m.2).1
  case h_16 heq => exact .bind (operands (by rw [heq]; rfl) 0) fun _ => .pure _
  case h_17 heq =>
    obtain ⟨source, clauses, hn, hs, hc⟩ := h.here.nodes_query heq
    have walked : Total (operand e n 0) := total_operand fun m hm => by
      obtain rfl : source = m := by simpa [Node.node?, hn] using hm
      exact (total_child h ih (hn ▸ List.mem_cons_self)).2 hs
    have clause {c : Node} (hc' : c ∈ n.nodes.tail) : Total (operand e c 0) := by
      have inside : c ∈ n.nodes := List.mem_of_mem_tail hc'
      have laid := h.child inside
      refine total_operand fun m hm => ?_
      have inner := Node.mem_of_node? hm
      refine (ih m ?_ (laid.child inner)).2 (laid.here.isExpression_child ?_ inner)
      · exact Nat.lt_trans (Node.size_lt_of_mem inner) (Node.size_lt_of_mem inside)
      · rw [hn] at hc'
        rcases hc c hc' with hk | hk <;> rw [hk] <;> rfl
    refine .bind walked fun _ => total_inScope ?_
    split
    · refine .bind (.discard (total_declare _ _ _)) fun _ => .bind (.foldlM _ _ ?_) fun _ => .pure _
      exact fun b c _ => .bind (clause c.2) fun _ => .pure _
    · refine .bind (.foldlM _ _ ?_) fun _ => .pure _
      exact fun b c _ => .bind (clause c.2) fun _ => .pure _
  case h_18 => cases hn : n.kind <;> first | contradiction | (rw [hn] at hk; cases hk)

theorem total_walk (expr : n.kind.isExpression → Total (expression e n)) : Total (walk e n) := by
  have children : Total (walkChildren e n) := total_walkChildren h ih
  rw [walk]
  split
  case h_1 | h_2 =>
    split
    · exact .bind (total_declare _ _ _) fun _ => .bind (total_record _ _) fun _ =>
        total_inScope children
    · exact total_inScope children
  case h_3 =>
    split
    · exact .bind (total_declare _ _ _) fun _ => total_record _ _
    · exact .pure _
  case h_4 | h_5 | h_6 => exact total_inScope children
  case h_7 heq =>
    dsimp only
    split
    case' h_1 value hv =>
      have inside := Node.mem_of_node? hv
      have isExpression := h.here.isExpression_child (by rw [heq]; rfl) inside
      refine .bind (.map _ ((total_child h ih inside).2 isExpression)) fun type => ?_
    case' h_2 => refine .bind (.pure _) fun type => ?_
    all_goals
      split
      · exact .bind (total_declare _ _ _) fun _ => total_record _ _
      · exact .pure _
  case h_8 heq =>
    obtain ⟨source, body, hn, hs⟩ := h.here.nodes_forEach heq
    have walked : Total (operand e n 0) := total_operand fun m hm => by
      obtain rfl : source = m := by simpa [Node.node?, hn] using hm
      exact (total_child h ih (hn ▸ List.mem_cons_self)).2 hs
    refine .bind walked fun _ => total_inScope ?_
    dsimp only
    split
    case' h_1 => refine .bind (total_declare _ _ _) fun _ => .bind (total_record _ _) fun _ => ?_
    all_goals
      split
      · next hb => exact (total_child h ih (Node.mem_of_node? hb)).1
      · exact .pure _
  case h_9 =>
    split
    · next hk => exact .discard (expr hk)
    · exact children

end

/-- Walking a tree that is laid out ends. -/
theorem total_of_laid (n : Node) (h : n.Laid) :
    Total (walk e n) ∧ (n.kind.isExpression → Total (expression e n)) := by
  have ih (m : Node) (hlt : m.size < n.size) (hm : m.Laid) := total_of_laid m hm
  have expr (hk : n.kind.isExpression) : Total (expression e n) := by
    rw [expression]
    exact .bind (total_meaning h ih hk) fun _ => .bind (total_record _ _) fun _ => .pure _
  exact ⟨total_walk h ih expr, expr⟩
termination_by n.size

end Resolution

/-- A tree that is laid out can be resolved. -/
theorem Node.Laid.resolves {n : Node} (h : n.Laid) (e : Environment) :
    ∃ f, e.resolve n = .ok f := by
  cases hr : (Resolution.walk e n).run (.initial e) with
  | error d => exact ((Resolution.total_of_laid n h).1 _ d hr).elim
  | ok r => exact ⟨r.2.found, by rw [Environment.resolve, hr]; rfl⟩

end Stencil
