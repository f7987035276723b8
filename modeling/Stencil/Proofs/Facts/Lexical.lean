import Mathlib.Data.List.TakeWhile
import Stencil.Proofs.Tree.Paths

/-!
# Lexical scopes

Which declaration a name refers to is a matter of the tree alone. Some constructs are scopes. A
declaration belongs to the innermost scope around it, but the variable of a `foreach` or a query
belongs to that construct itself. It counts from where it stands on, after its initializer or
source if it has one. A name refers to the last declaration of that name that counts where it
stands, in the innermost scope that has one.

Results:

* `binding?_eq_find?` – the rule, read off the list of all declarations that are visible;
* `visible_root`, `visible_child` – how this list grows on the way down to a name: by what the
  parent declares and by what earlier siblings leave in the scope around them.
-/
namespace Stencil

/-- Constructs that are scopes: the file, templates, local functions, blocks, the loops with a
variable, `using`, lambdas and queries. -/
def NodeKind.isScope : NodeKind → Bool
  | .compilationUnit | .template | .localFunction | .block | .forStatement | .usingStatement
  | .forEachStatement | .lambda | .query => true
  | _ => false

/-- Constructs that declare their name in the scope around them. -/
def NodeKind.declaresAround : NodeKind → Bool
  | .template | .localFunction | .parameter | .declarator => true
  | _ => false

/-- Constructs that declare their name in themselves. -/
def NodeKind.declaresWithin : NodeKind → Bool
  | .forEachStatement | .query => true
  | _ => false

def NodeKind.declares (k : NodeKind) : Bool := k.declaresAround || k.declaresWithin

theorem NodeKind.declaresWithin_of_declaresAround {k : NodeKind} (h : k.declaresAround) :
    k.declaresWithin = false := by
  cases k <;> first | rfl | cases h

theorem NodeKind.isScope_of_declaresWithin {k : NodeKind} (h : k.declaresWithin) : k.isScope := by
  cases k <;> first | rfl | cases h

/-- Constructs whose first part, an initializer or a source, does not see the name declared. -/
def NodeKind.declaresLate : NodeKind → Bool
  | .declarator | .forEachStatement | .query => true
  | _ => false

namespace Lexical

/-- The scopes around a node, innermost first. -/
def scopes (t x : Node) : List Node :=
  (((t.above x.id).getD []).map Prod.fst).filter (·.kind.isScope)

/-- The scope that a declaration belongs to. -/
def scopeOf? (t d : Node) : Option Node :=
  if d.kind.declaresWithin then some d else (scopes t d).head?

/-- The nodes that begin before a node does, in source order. -/
def earlier (t x : Node) : List Node := t.preorder.takeWhile (·.id ≠ x.id)

/-- Whether a node stands in the part of a declaration that does not see its name. -/
def pending (x d : Node) : Bool :=
  d.kind.declaresLate && (d.node? 0).any fun part => part.preorder.any (·.id == x.id)

/-- The declarations of a scope among some nodes. -/
def declarationsIn (t p : Node) (ns : List Node) : List Node :=
  ns.filter fun d => d.kind.declares && (scopeOf? t d).any (·.id == p.id)

/-- The declarations of a scope that count where a node stands, in source order. -/
def counting (t p x : Node) : List Node :=
  (declarationsIn t p (earlier t x)).filter fun d => !pending x d

/-- The declaration of a name that counts where a node stands: the last one of the innermost scope
that has any. -/
def binding? (t x : Node) (name : String) : Option Node :=
  (scopes t x).findSome? fun p => ((counting t p x).filter (·.name? == some name)).getLast?

/-! ## Declarations by nearness -/

/-- All declarations that count where a node stands, nearest first. -/
def visible (t x : Node) : List Node := (scopes t x).flatMap fun p => (counting t p x).reverse

theorem binding?_eq_find? (t x : Node) (name : String) :
    binding? t x name = (visible t x).find? (·.name? == some name) := by
  unfold binding? visible
  induction scopes t x with
  | nil => rfl
  | cons p ps ih =>
    rw [List.findSome?_cons, List.flatMap_cons, List.find?_append, ← ih,
      ← List.head?_filter, List.filter_reverse, List.head?_reverse]
    cases ((counting t p x).filter (·.name? == some name)).getLast? <;> rfl

/-- The declarations that a construct leaves in the scope around it, in source order. -/
def leaves (n : Node) : List Node :=
  (if n.kind.declaresAround then [n] else []) ++
    if n.kind.isScope then [] else n.nodes.attach.flatMap fun ⟨m, _⟩ => leaves m
termination_by n.size
decreasing_by exact Node.size_lt_of_mem ‹_›

theorem leaves_eq (n : Node) : leaves n = (if n.kind.declaresAround then [n] else []) ++
    if n.kind.isScope then [] else n.nodes.flatMap leaves := by
  rw [leaves]
  congr 2
  rw [List.flatMap_subtype (g := leaves) fun _ _ => rfl, List.unattach_attach]

/-! ## Scopes on the way down -/

theorem preorder_nodes (n : Node) : n.preorder = n :: n.nodes.flatMap Node.preorder := by
  rw [Node.preorder_eq, Node.preorderAll_eq]
  rfl

/-- A subtree stands in the tree as one stretch. -/
theorem exists_stretch {t n : Node} (hn : n ∈ t.preorder) :
    ∃ before after, t.preorder = before ++ n.preorder ++ after := by
  rcases Node.mem_preorder.1 hn with rfl | ⟨c, hc, hn⟩
  · exact ⟨[], [], by simp⟩
  · have := Node.size_lt_of_mem hc
    obtain ⟨before, after, hs⟩ := exists_stretch hn
    obtain ⟨pre, post, hp⟩ := List.append_of_mem hc
    refine ⟨t :: pre.flatMap Node.preorder ++ before, after ++ post.flatMap Node.preorder, ?_⟩
    rw [preorder_nodes, hp, List.flatMap_append, List.flatMap_cons, hs]
    simp only [List.append_assoc, List.cons_append]
termination_by t.size

theorem scopes_root (t : Node) : scopes t t = [] := by
  rw [scopes, Node.above_self]
  rfl

section

variable {t n c d p q : Node} {pre post : List Node} (h : t.Numbered)

include h

theorem scopes_child (hn : n ∈ t.preorder) (hc : c ∈ n.nodes) :
    scopes t c = (if n.kind.isScope then [n] else []) ++ scopes t n := by
  obtain ⟨steps, hs⟩ := h.exists_above hn
  rw [scopes, scopes, h.above_of_mem_nodes hn hc, hs]
  simp only [Option.map_some, Option.getD_some, List.map_cons, List.filter_cons]
  split <;> rfl

/-- Within a child the scopes around a node are those that the child has around it, and then what
the parent is. -/
theorem scopes_below (hc : c ∈ t.nodes) (hd : d ∈ c.preorder) :
    scopes t d = scopes c d ++ if t.kind.isScope then [t] else [] := by
  obtain ⟨steps, hs⟩ := (h.child hc).exists_above hd
  rw [scopes, scopes, h.above_child hc hd, hs]
  simp only [Option.map_some, Option.getD_some, List.map_append, List.map_cons, List.map_nil,
    List.filter_append, List.filter_cons, List.filter_nil]

/-- A scope around a node has a part in which the node stands. -/
theorem exists_part (hd : d ∈ t.preorder) (hp : p ∈ scopes t d) :
    p ∈ t.preorder ∧ ∃ part ∈ p.nodes, d ∈ part.preorder := by
  obtain ⟨steps, hs⟩ := h.exists_above hd
  rw [scopes, hs, List.mem_filter, List.mem_map] at hp
  obtain ⟨⟨⟨q, part⟩, hm, rfl⟩, -⟩ := hp
  obtain ⟨hq, hpart, hx⟩ := h.mem_of_mem_above hd hs hm
  exact ⟨hq, part, hpart, hx⟩

theorem size_lt_scope (hd : d ∈ t.preorder) (hp : p ∈ scopes t d) : d.size < p.size := by
  obtain ⟨-, part, hpart, hx⟩ := exists_part h hd hp
  exact Nat.lt_of_le_of_lt (Node.size_le_of_mem_preorder hx) (Node.size_lt_of_mem hpart)

theorem scopes_ne_nil (hk : t.kind.isScope) (hn : n ∈ t.preorder) (hne : n ≠ t) :
    scopes t n ≠ [] := by
  rcases Node.mem_preorder.1 hn with rfl | ⟨c, hc, hn⟩
  · exact absurd rfl hne
  · rw [scopes_below h hc hn, if_pos hk]
    exact List.append_ne_nil_of_right_ne_nil _ (List.cons_ne_nil _ _)

/-! ## Declarations on the way down -/

theorem mem_of_scopeOf? (hd : d ∈ t.preorder) (hq : scopeOf? t d = some q) : q ∈ t.preorder := by
  unfold scopeOf? at hq
  split at hq
  · cases hq
    exact hd
  · exact (exists_part h hd (List.mem_of_mem_head? hq)).1

/-- Scopes are told apart by their numbers. -/
theorem any_scopeOf? (hd : d ∈ t.preorder) (hp : p ∈ t.preorder) :
    (scopeOf? t d).any (·.id == p.id) = true ↔ scopeOf? t d = some p := by
  rw [Option.any_eq_true]
  constructor
  · rintro ⟨q, hq, hid⟩
    rw [hq, h.eq_of_id (mem_of_scopeOf? h hd hq) hp (beq_iff_eq.1 hid)]
  · exact fun hq => ⟨p, hq, beq_self_eq_true _⟩

/-- What is declared in a construct belongs to a scope in there, or to the innermost one around. -/
theorem scopeOf?_below {c d : Node} (hc : c ∈ t.preorder) (hd : d ∈ c.preorder)
    (hq : scopeOf? t d = some q) : q ∈ c.preorder ∨ (scopes t c).head? = some q := by
  rcases Node.mem_preorder.1 hd with rfl | ⟨m, hm, hd⟩
  · unfold scopeOf? at hq
    split at hq
    · cases hq
      exact .inl (Node.mem_preorder_self _)
    · exact .inr hq
  · have := Node.size_lt_of_mem hm
    rcases scopeOf?_below (Node.mem_preorder_of_mem_nodes hc hm) hd hq with hq | hq
    · exact .inl (Node.preorder_subset hm hq)
    · rw [scopes_child h hc hm] at hq
      split at hq
      · cases hq
        exact .inl (Node.mem_preorder_self _)
      · exact .inr hq
termination_by c.size

/-- What is declared in a scope belongs to it, or to a scope in there. -/
theorem scopeOf?_within (hp : p ∈ t.preorder) (hk : p.kind.isScope) (hd : d ∈ p.preorder)
    (own : d = p → d.kind.declaresWithin) (hq : scopeOf? t d = some q) : q ∈ p.preorder := by
  rcases Node.mem_preorder.1 hd with rfl | ⟨m, hm, hd⟩
  · rw [scopeOf?, if_pos (own rfl)] at hq
    cases hq
    exact Node.mem_preorder_self _
  · rcases scopeOf?_below h (Node.mem_preorder_of_mem_nodes hp hm) hd hq with hq | hq
    · exact Node.preorder_subset hm hq
    · rw [scopes_child h hp hm, if_pos hk] at hq
      cases hq
      exact Node.mem_preorder_self _

/-- Scopes further out get nothing from a construct. -/
theorem declarationsIn_outer (hc : c ∈ t.preorder) (hp : p ∈ scopes t c)
    (hne : (scopes t c).head? ≠ some p) : declarationsIn t p c.preorder = [] := by
  refine List.filter_eq_nil_iff.2 fun d hd hdecl => ?_
  have inside := Node.preorder_trans hc hd
  rw [Bool.and_eq_true, any_scopeOf? h inside (exists_part h hc hp).1] at hdecl
  rcases scopeOf?_below h hc hd hdecl.2 with hq | hq
  · exact absurd (Node.size_le_of_mem_preorder hq) (Nat.not_le.2 (size_lt_scope h hc hp))
  · exact hne hq

omit h in
theorem declarationsIn_flatMap (t p : Node) (ns : List Node) :
    declarationsIn t p (ns.flatMap Node.preorder) =
      ns.flatMap fun m => declarationsIn t p m.preorder := List.filter_flatMap

omit h in
theorem declarationsIn_append (t p : Node) (ns ms : List Node) :
    declarationsIn t p (ns ++ ms) = declarationsIn t p ns ++ declarationsIn t p ms :=
  List.filter_append ..

/-- What a construct itself declares for a scope around it. -/
theorem declarationsIn_self (hc : c ∈ t.preorder) (hp : (scopes t c).head? = some p) :
    declarationsIn t p [c] = if c.kind.declaresAround then [c] else [] := by
  have hmem := List.mem_of_mem_head? hp
  have other : p ≠ c := fun he => Nat.lt_irrefl _ (he ▸ size_lt_scope h hc hmem)
  have owner := any_scopeOf? h hc (exists_part h hc hmem).1
  unfold declarationsIn
  rw [List.filter_singleton, cond_eq_ite]
  by_cases hw : c.kind.declaresWithin
  · have none : (scopeOf? t c).any (·.id == p.id) = false := by
      rw [Bool.eq_false_iff, ne_eq, owner, scopeOf?, if_pos hw]
      exact fun he => other (Option.some.inj he).symm
    have around : c.kind.declaresAround = false :=
      Bool.eq_false_iff.2 fun ha => by simp [NodeKind.declaresWithin_of_declaresAround ha] at hw
    rw [none, around, Bool.and_false]
  · have some : (scopeOf? t c).any (·.id == p.id) = true := by
      rw [owner, scopeOf?, if_neg hw]
      exact hp
    rw [some, Bool.and_true, NodeKind.declares, Bool.eq_false_iff.2 hw, Bool.or_false]

/-- The innermost scope gets what the construct leaves around it. -/
theorem declarationsIn_inner {c : Node} (hc : c ∈ t.preorder)
    (hp : (scopes t c).head? = some p) : declarationsIn t p c.preorder = leaves c := by
  have hmem := List.mem_of_mem_head? hp
  have parts : c.preorder = [c] ++ c.nodes.flatMap Node.preorder := preorder_nodes c
  rw [parts, declarationsIn_append, declarationsIn_self h hc hp, declarationsIn_flatMap, leaves_eq]
  congr 1
  split
  · next hk =>
    refine List.flatMap_eq_nil_iff.2 fun m hm => ?_
    have around := scopes_child h hc hm
    rw [if_pos hk] at around
    refine declarationsIn_outer h (Node.mem_preorder_of_mem_nodes hc hm) ?_ ?_
    · rw [around]
      exact List.mem_cons_of_mem _ hmem
    · rw [around]
      exact fun he => Nat.lt_irrefl _ (Option.some.inj he ▸ size_lt_scope h hc hmem)
  · next hk =>
    refine List.flatMap_congr fun m hm => ?_
    have := Node.size_lt_of_mem hm
    refine declarationsIn_inner (Node.mem_preorder_of_mem_nodes hc hm) ?_
    rw [scopes_child h hc hm, if_neg hk]
    exact hp
termination_by c.size

/-! ## Earlier and pending declarations -/

theorem earlier_eq (before after : List Node) (ht : t.preorder = before ++ d :: after) :
    earlier t d = before := by
  have apart : ∀ x ∈ before, x.id ≠ d.id := by
    have nodup := h
    rw [Node.Numbered, ht, List.map_append, List.nodup_append] at nodup
    exact fun x hx => nodup.2.2 _ (List.mem_map_of_mem hx) _ (by simp)
  rw [earlier, ht, List.takeWhile_append_of_pos (by simpa using apart),
    List.takeWhile_cons_of_neg (by simp), List.append_nil]

theorem earlier_child (hn : n ∈ t.preorder) (hnodes : n.nodes = pre ++ c :: post) :
    earlier t c = earlier t n ++ n :: pre.flatMap Node.preorder := by
  obtain ⟨before, after, ht⟩ := exists_stretch hn
  have inside : n.preorder = n :: pre.flatMap Node.preorder ++
      c :: (c.nodes.flatMap Node.preorder ++ post.flatMap Node.preorder) := by
    rw [preorder_nodes n, hnodes, List.flatMap_append, List.flatMap_cons, preorder_nodes c]
    rfl
  have here : earlier t n = before := by
    refine earlier_eq h before (n.nodes.flatMap Node.preorder ++ after) ?_
    rw [ht, preorder_nodes n, List.append_assoc, List.cons_append]
  rw [here]
  refine earlier_eq h _ (c.nodes.flatMap Node.preorder ++ post.flatMap Node.preorder ++ after) ?_
  rw [ht, inside]
  simp only [List.append_assoc, List.cons_append]

omit h in
theorem ne_of_mem_earlier (hd : d ∈ earlier t n) : d.id ≠ n.id := by
  simpa using List.mem_takeWhile_imp hd

omit h in
theorem mem_of_mem_earlier (hd : d ∈ earlier t n) : d ∈ t.preorder :=
  (List.takeWhile_sublist _).mem hd

theorem not_mem_earlier (hn : n ∈ t.preorder) (hd : d ∈ n.preorder) : d ∉ earlier t n := by
  obtain ⟨before, after, ht⟩ := exists_stretch hn
  have here : earlier t n = before := by
    refine earlier_eq h before (n.nodes.flatMap Node.preorder ++ after) ?_
    rw [ht, preorder_nodes n, List.append_assoc, List.cons_append]
  have nodup := List.Nodup.of_map _ h
  rw [ht, List.append_assoc, List.nodup_append] at nodup
  rw [here]
  exact fun hb => nodup.2.2 d hb d (List.mem_append_left _ hd) rfl

theorem any_id {x part : Node} (hx : x ∈ t.preorder) (hpart : part ∈ t.preorder) :
    part.preorder.any (·.id == x.id) = true ↔ x ∈ part.preorder := by
  rw [List.any_eq_true]
  constructor
  · rintro ⟨y, hy, hid⟩
    exact h.eq_of_id (Node.preorder_trans hpart hy) hx (beq_iff_eq.1 hid) ▸ hy
  · exact fun hx => ⟨x, hx, beq_self_eq_true _⟩

/-- A declaration that began before the parent is pending in the child if it is in the parent. -/
theorem pending_child (hn : n ∈ t.preorder) (hc : c ∈ n.nodes) (hd : d ∈ earlier t n) :
    pending c d = pending n d := by
  have hdt := mem_of_mem_earlier hd
  have hct := Node.mem_preorder_of_mem_nodes hn hc
  unfold pending
  cases hpart : d.node? 0 with
  | none => rfl
  | some part =>
    have inside := Node.mem_of_node? hpart
    have hpt := Node.mem_preorder_of_mem_nodes hdt inside
    have same : c ∈ part.preorder ↔ n ∈ part.preorder := by
      refine ⟨fun hx => ?_, fun hx => Node.mem_preorder_of_mem_nodes hx hc⟩
      rcases Node.exists_parent hx with rfl | ⟨m, hm, hx⟩
      · exact absurd (congrArg Node.id (h.parent_unique hdt hn inside hc)) (ne_of_mem_earlier hd)
      · exact h.parent_unique (Node.preorder_trans hpt hm) hn hx hc ▸ hm
    simp only [Option.any_some]
    congr 1
    rw [Bool.eq_iff_iff, any_id h hct hpt, any_id h hn hpt, same]

/-- The parent is pending in its first child, if it declares late. -/
theorem pending_parent (hn : n ∈ t.preorder) (hnodes : n.nodes = pre ++ c :: post) :
    pending c n = (n.kind.declaresLate && pre.isEmpty) := by
  have hm : c ∈ n.nodes := by simp [hnodes]
  unfold pending Node.node?
  congr 1
  rw [hnodes]
  cases pre with
  | nil =>
    simp only [List.nil_append, List.getElem?_cons_zero, Option.any_some, List.isEmpty_nil]
    exact List.any_eq_true.2 ⟨c, c.mem_preorder_self, beq_self_eq_true _⟩
  | cons first rest =>
    have apart := (h.below hn).siblings
    rw [hnodes, List.cons_append, List.pairwise_cons] at apart
    simp only [List.cons_append, List.getElem?_cons_zero, Option.any_some, List.isEmpty_cons]
    rw [List.any_eq_false]
    intro x hx hid
    exact apart.1 c (by simp) x hx c c.mem_preorder_self (beq_iff_eq.1 hid)

/-- Declarations in earlier siblings are not pending any more. -/
theorem pending_sibling (hn : n ∈ t.preorder) (hnodes : n.nodes = pre ++ c :: post)
    (hd : d ∈ pre.flatMap Node.preorder) : pending c d = false := by
  obtain ⟨m, hm, hd⟩ := List.mem_flatMap.1 hd
  have apart := (h.below hn).siblings
  rw [hnodes, List.pairwise_append] at apart
  unfold pending
  cases hpart : d.node? 0 with
  | none => exact Bool.and_false _
  | some part =>
    have none : part.preorder.any (·.id == c.id) = false := by
      rw [List.any_eq_false]
      intro x hx hid
      have inside := Node.preorder_trans hd (Node.preorder_subset (Node.mem_of_node? hpart) hx)
      exact apart.2.2 m hm c (by simp) x inside c c.mem_preorder_self (beq_iff_eq.1 hid)
    rw [Option.any_some, none, Bool.and_false]

/-! ## The list of visible declarations -/

omit h in
/-- What a construct declares for its part after the parts `pre`. -/
def announced (n : Node) (pre : List Node) : List Node :=
  if n.kind.declares && !(n.kind.declaresLate && pre.isEmpty) then [n] else []

/-- What counts in a child: what counts in its parent, what the parent declares, and what stands
in earlier siblings. -/
theorem counting_child (hn : n ∈ t.preorder) (hnodes : n.nodes = pre ++ c :: post) (p : Node) :
    counting t p c = (declarationsIn t p (earlier t n)).filter (fun d => !pending n d) ++
      declarationsIn t p (announced n pre) ++
        pre.flatMap fun m => declarationsIn t p m.preorder := by
  have hc : c ∈ n.nodes := by simp [hnodes]
  have parts : n :: pre.flatMap Node.preorder = [n] ++ pre.flatMap Node.preorder := rfl
  rw [counting, earlier_child h hn hnodes, parts, declarationsIn_append, declarationsIn_append,
    List.filter_append, List.filter_append, declarationsIn_flatMap, List.append_assoc]
  congr 1
  · refine List.filter_congr fun d hd => ?_
    rw [pending_child h hn hc (List.mem_filter.1 hd).1]
  congr 1
  · unfold declarationsIn announced
    rw [List.filter_singleton, cond_eq_ite]
    cases hdecl : n.kind.declares <;>
      cases hown : (scopeOf? t n).any (·.id == p.id) <;>
      cases hlate : n.kind.declaresLate && pre.isEmpty <;>
      simp [hdecl, hown, pending_parent h hn hnodes, hlate]
  · refine List.filter_eq_self.2 fun d hd => ?_
    rw [pending_sibling h hn hnodes (List.mem_flatMap.2 ?_)]
    · rfl
    · obtain ⟨m, hm, hd⟩ := List.mem_flatMap.1 hd
      exact ⟨m, hm, (List.mem_filter.1 hd).1⟩

/-- Scopes beyond the innermost one are as they were. -/
theorem counting_outer (hn : n ∈ t.preorder) (hnodes : n.nodes = pre ++ c :: post)
    (hp : p ∈ scopes t n) (hne : (scopes t n).head? ≠ some p) :
    counting t p c = counting t p n := by
  have none := declarationsIn_outer h hn hp hne
  have parts : n.preorder = [n] ++ n.nodes.flatMap Node.preorder := preorder_nodes n
  rw [parts, declarationsIn_append, List.append_eq_nil_iff, declarationsIn_flatMap, hnodes,
    List.flatMap_append, List.append_eq_nil_iff] at none
  rw [counting_child h hn hnodes, none.2.1, List.append_nil]
  have announced : declarationsIn t p (announced n pre) = [] := by
    unfold announced
    split
    · exact none.1
    · rfl
  rw [announced, List.append_nil]
  rfl

/-- The innermost scope around the parent gets what the parent declares for it and, unless the
parent is a scope, what earlier siblings leave. -/
theorem counting_inner (hn : n ∈ t.preorder) (hnodes : n.nodes = pre ++ c :: post)
    (hp : (scopes t n).head? = some p) : counting t p c =
      counting t p n ++ (if n.kind.declaresAround then announced n pre else []) ++
        if n.kind.isScope then [] else pre.flatMap leaves := by
  rw [counting_child h hn hnodes]
  have left : (pre.flatMap fun m => declarationsIn t p m.preorder) =
      if n.kind.isScope then [] else pre.flatMap leaves := by
    have around (m : Node) (hm : m ∈ pre) := scopes_child h hn (c := m) (by simp [hnodes, hm])
    have inside (m : Node) (hm : m ∈ pre) : m ∈ t.preorder :=
      Node.mem_preorder_of_mem_nodes hn (by simp [hnodes, hm])
    split
    · next hk =>
      refine List.flatMap_eq_nil_iff.2 fun m hm => declarationsIn_outer h (inside m hm) ?_ ?_
      · rw [around m hm, if_pos hk]
        exact List.mem_cons_of_mem _ (List.mem_of_mem_head? hp)
      · rw [around m hm, if_pos hk]
        exact fun he => Nat.lt_irrefl _
          (Option.some.inj he ▸ size_lt_scope h hn (List.mem_of_mem_head? hp))
    · next hk =>
      refine List.flatMap_congr fun m hm => declarationsIn_inner h (inside m hm) ?_
      rw [around m hm, if_neg hk]
      exact hp
  have self : declarationsIn t p (announced n pre) =
      if n.kind.declaresAround then announced n pre else [] := by
    unfold announced
    split
    · exact declarationsIn_self h hn hp
    · split <;> rfl
  rw [left, self]
  rfl

/-- A scope has its own variable and what earlier siblings leave. -/
theorem counting_own (hn : n ∈ t.preorder) (hnodes : n.nodes = pre ++ c :: post)
    (hk : n.kind.isScope) : counting t n c =
      (if n.kind.declaresWithin then announced n pre else []) ++ pre.flatMap leaves := by
  have own (d : Node) (hd : d ∈ t.preorder) (hs : scopeOf? t d = some n) :
      d ∈ n.preorder := by
    unfold scopeOf? at hs
    split at hs
    · cases hs
      exact n.mem_preorder_self
    · obtain ⟨-, part, hpart, hx⟩ := exists_part h hd (List.mem_of_mem_head? hs)
      exact Node.preorder_subset hpart hx
  have before : declarationsIn t n (earlier t n) = [] := by
    refine List.filter_eq_nil_iff.2 fun d hd hdecl => ?_
    have inside := mem_of_mem_earlier hd
    rw [Bool.and_eq_true, any_scopeOf? h inside hn] at hdecl
    exact not_mem_earlier h hn (own d inside hdecl.2) hd
  have left : (pre.flatMap fun m => declarationsIn t n m.preorder) = pre.flatMap leaves := by
    refine List.flatMap_congr fun m hm => ?_
    have inside : m ∈ n.nodes := by simp [hnodes, hm]
    refine declarationsIn_inner h (Node.mem_preorder_of_mem_nodes hn inside) ?_
    rw [scopes_child h hn inside, if_pos hk]
    rfl
  have self : declarationsIn t n (announced n pre) =
      if n.kind.declaresWithin then announced n pre else [] := by
    have within : n.kind.declaresWithin = (scopeOf? t n).any (·.id == n.id) := by
      rw [Bool.eq_iff_iff, any_scopeOf? h hn hn, scopeOf?]
      split
      · next hw => simp [hw]
      · next hw =>
        refine iff_of_false hw fun he => ?_
        exact Nat.lt_irrefl _ (size_lt_scope h hn (List.mem_of_mem_head? he))
    unfold announced declarationsIn
    split
    · next ha =>
      rw [Bool.and_eq_true] at ha
      rw [List.filter_singleton, cond_eq_ite, ← within, ha.1, Bool.true_and]
    · split <;> rfl
  rw [counting_child h hn hnodes, before, left, self]
  rfl

omit h in
/-- Each scope has more nodes than those further in. -/
theorem pairwise_scopes {t x : Node} (h : t.Numbered) (hx : x ∈ t.preorder) :
    (scopes t x).Pairwise fun p q => p.size < q.size := by
  rcases Node.mem_preorder.1 hx with rfl | ⟨c, hc, hx⟩
  · rw [scopes_root]
    exact .nil
  · have := Node.size_lt_of_mem hc
    rw [scopes_below h hc hx]
    refine List.pairwise_append.2 ⟨pairwise_scopes (h.child hc) hx, ?_, fun p hp q hq => ?_⟩
    · split
      · exact List.pairwise_singleton _ _
      · exact .nil
    · split at hq
      · obtain ⟨inside, -⟩ := exists_part (h.child hc) hx hp
        rw [List.mem_singleton.1 hq]
        exact Nat.lt_of_le_of_lt (Node.size_le_of_mem_preorder inside) this
      · cases hq
termination_by t.size

omit h in
theorem visible_root (t : Node) : visible t t = [] := by
  rw [visible, scopes_root]
  rfl

/-- What is visible in a child is what is visible in its parent, what the parent declares, and what
earlier siblings leave around them. -/
theorem visible_child (hk : t.kind = .compilationUnit) (hn : n ∈ t.preorder)
    (hnodes : n.nodes = pre ++ c :: post) :
    visible t c = (pre.flatMap leaves).reverse ++ announced n pre ++ visible t n := by
  have hc : c ∈ n.nodes := by simp [hnodes]
  rw [visible, visible, scopes_child h hn hc, List.flatMap_append]
  cases hs : scopes t n with
  | nil =>
    obtain rfl : n = t := by
      by_contra hne
      exact scopes_ne_nil h (by rw [hk]; rfl) hn hne hs
    have silent : announced n pre = [] := by simp [announced, hk, NodeKind.declares,
      NodeKind.declaresAround, NodeKind.declaresWithin]
    have scope : n.kind.isScope = true := by rw [hk]; rfl
    rw [if_pos scope, silent]
    simp only [List.flatMap_cons, List.flatMap_nil, List.append_nil]
    rw [counting_own h hn hnodes scope, silent, ite_self, List.nil_append]
  | cons q qs =>
    have head : (scopes t n).head? = some q := by rw [hs]; rfl
    have others : qs.flatMap (fun p => (counting t p c).reverse) =
        qs.flatMap fun p => (counting t p n).reverse := by
      refine List.flatMap_congr fun p hp => ?_
      have sizes := pairwise_scopes h hn
      rw [hs, List.pairwise_cons] at sizes
      rw [counting_outer h hn hnodes (by rw [hs]; exact List.mem_cons_of_mem _ hp)]
      rw [head]
      exact fun he => Nat.lt_irrefl _ (Option.some.inj he ▸ sizes.1 p hp)
    rw [List.flatMap_cons, List.flatMap_cons, others, counting_inner h hn hnodes head]
    have single : (announced n pre).reverse = announced n pre := by
      unfold announced
      split <;> rfl
    -- what the parent declares belongs to the scope around it, or to itself if it is a scope
    by_cases ha : n.kind.declaresAround
    · have hw := NodeKind.declaresWithin_of_declaresAround ha
      by_cases scope : n.kind.isScope <;>
        simp [counting_own h hn hnodes, scope, ha, hw, single]
    · by_cases hw : n.kind.declaresWithin
      · have scope := NodeKind.isScope_of_declaresWithin hw
        simp [counting_own h hn hnodes, scope, ha, hw, single]
      · have silent : announced n pre = [] := by simp [announced, NodeKind.declares, ha, hw]
        by_cases scope : n.kind.isScope <;>
          simp [counting_own h hn hnodes, scope, silent]

end

end Lexical

end Stencil
