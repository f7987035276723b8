import Stencil.Proofs.Facts.Resolving
import Stencil.Proofs.Facts.Stretches
import Stencil.Proofs.Source.Shape

/-!
# The walk keeps to the scopes

Which declarations are visible at which node is a parameter here, a list for every node, nearest
first. All that is asked of it is that children see what the parent sees, what the parent declares,
and what earlier children leave (`Placed.children`). Then every construct of a tree that follows
the grammar leads the walk on as the tree says, and what is found about a name is what it refers to
among the visible declarations.

Results:

* `obeys_expression`, `obeys_walk` – one construct, if its parts keep to the order;
* `keeps`, `obeys_file` – all constructs, and the whole file.
-/
namespace Stencil

section

variable {n : Node}

/-- Kinds of expressions and clauses with a fixed number of operands. -/
def NodeKind.arity? : NodeKind → Option Nat
  | .parenthesized | .unary | .step | .await | .memberAccess | .whereClause | .selectClause =>
    some 1
  | .binary | .assignment | .elementAccess | .cast => some 2
  | .conditional => some 3
  | _ => none

/-- Kinds of expressions that are made of operands only. -/
def NodeKind.isOperation : NodeKind → Bool
  | .parenthesized | .unary | .step | .await | .memberAccess | .binary | .assignment
  | .elementAccess | .conditional | .invocation | .list => true
  | _ => false

theorem NodeKind.isOperation_spec {k : NodeKind} (h : k.isOperation) :
    k.isExpression ∧ k.isScope = false ∧ k.declares = false ∧
      (places k).all fun p => p.slot.takesExpressions := by
  cases k <;> first | exact ⟨rfl, rfl, rfl, rfl⟩ | cases h

theorem Rule.length_nodes (h : Rule n.kind n.outline) {k : Nat} (hk : n.kind.arity? = some k) :
    n.nodes.length = k := by
  have hlen : n.nodes.length = (n.outline.filterMap Child.node?).length := by
    rw [← n.nodes_outline, List.length_map]
  rw [hlen]
  generalize n.kind = kind at h hk
  generalize n.outline = parts at h
  cases h with
  | routine hkind => rcases hkind with rfl | rfl <;> cases hk
  | guarded hkind => rcases hkind with rfl | rfl <;> cases hk
  | returning hkind => rcases hkind with rfl | rfl <;> cases hk
  | operation hkind => rcases hkind with rfl | rfl <;> (cases hk; rfl)
  | bare hkind =>
    simp only [List.mem_cons, List.not_mem_nil, or_false] at hkind
    rcases hkind with rfl | rfl | rfl | rfl | rfl <;> cases hk
  | operand hkind =>
    simp only [List.mem_cons, List.not_mem_nil, or_false] at hkind
    rcases hkind with rfl | rfl | rfl | rfl <;> (cases hk; rfl)
  | _ => first | (cases hk; done) | (cases hk; rfl)

/-- What no slot of a node takes does not stand in it. -/
theorem Node.FitsKind.child_ne (h : n.FitsKind) {k : NodeKind}
    (hk : (places n.kind).all fun p => !p.slot.admits (.node k)) {c : Node} (hc : c ∈ n.nodes) :
    c.kind ≠ k := by
  have outline : .node c.kind ∈ n.outline :=
    List.mem_map_of_mem (f := Child.outline) (Node.mem_nodes.1 hc)
  refine h.forall_node (P := (· ≠ k)) (fun p hp k' hk' => ?_) _ outline
  rintro rfl
  have := List.all_eq_true.1 hk p hp
  rw [hk'] at this
  cases this

/-- Declarations and references have a name. -/
theorem Rule.exists_name (h : Rule n.kind n.outline)
    (hk : n.kind.declares ∨ n.kind = .identifier) : ∃ name, n.name? = some name := by
  have found : ∃ t ∈ n.tokens, t.kind = .identifier := by
    rw [n.tokens_outline]
    generalize n.kind = kind at h hk
    generalize n.outline = parts at h
    cases h with
    | routine _ hn | parameter hn | typedParameter hn | declarator hn | initialized hn
    | forEachStatement hn | awaitForEach _ hn | identifier hn | query hn =>
      exact ⟨_, by simp, hn⟩
    | guarded hkind | returning hkind | operation hkind =>
      rcases hkind with rfl | rfl <;> exact absurd hk (by decide)
    | bare hkind =>
      simp only [List.mem_cons, List.not_mem_nil, or_false] at hkind
      rcases hkind with rfl | rfl | rfl | rfl | rfl <;> exact absurd hk (by decide)
    | operand hkind =>
      simp only [List.mem_cons, List.not_mem_nil, or_false] at hkind
      rcases hkind with rfl | rfl | rfl | rfl <;> exact absurd hk (by decide)
    | _ => exact absurd hk (by decide)
  obtain ⟨t, ht, hkt⟩ := found
  cases hf : n.tokens.find? (·.kind == .identifier) with
  | none => exact absurd hkt (by simpa using List.find?_eq_none.1 hf t ht)
  | some t' => exact ⟨t'.text, by rw [Node.name?, Node.tokenOfKind?, hf]; rfl⟩

/-- The first child of a cast is its type. -/
theorem Rule.nodes_cast (h : Rule n.kind n.outline) (hk : n.kind = .cast) :
    ∃ type operand, n.nodes = [type, operand] ∧ type.kind = .typeName ∧
      operand.kind.isExpression := by
  have hkinds := n.nodes_outline
  rw [hk] at h
  generalize n.outline = parts at h hkinds
  cases h with
  | cast ho =>
    obtain ⟨type, operand, hnodes, ht, rfl⟩ := two_of_kinds hkinds
    exact ⟨type, operand, hnodes, ht, ho⟩
  | _ => simp_all

/-- A parameter has at most a type below it. -/
theorem Rule.nodes_parameter (h : Rule n.kind n.outline) (hk : n.kind = .parameter) :
    ∀ m ∈ n.nodes, m.kind = .typeName := by
  have hkinds := n.nodes_outline
  rw [hk] at h
  generalize n.outline = parts at h hkinds
  cases h with
  | parameter _ =>
    rw [List.map_eq_nil_iff.1 hkinds]
    simp
  | typedParameter _ =>
    obtain ⟨type, hnodes, ht⟩ := one_of_kinds hkinds
    simpa [hnodes] using ht
  | _ => simp_all

end

namespace Resolution

open Lexical

/-! ## Nodes in their places -/

/-- What the name in a node refers to, if the declarations `ds` are visible. -/
def referent (e : Environment) (own : Node → Symbol) (ds : List Node) (x : Node) : Option Symbol :=
  x.name?.bind fun name =>
    match ds.find? (·.name? == some name) with
    | some d => some (own d)
    | none => (e.globalSymbol? name).map Prod.fst

/-- The facts about a node are those that the rule asks for. -/
structure Right (e : Environment) (own : Node → Symbol) (vis : Node → List Node) (x : Node)
    (f : Facts) : Prop where
  symbol : x.kind = .identifier → f.symbol = referent e own (vis x) x
  declared : x.kind.isNoted → f.declared = some (own x)

/-- The kind of symbol that a node declares. -/
def declaredKind (inLambda : Bool) : NodeKind → SymbolKind
  | .template => .template
  | .parameter => if inLambda then .localVar else .parameter
  | _ => .localVar

/-- The node follows the grammar, its symbol is its own, and the children see what it sees, what it
declares and what earlier children leave. -/
structure Placed (own : Node → Symbol) (vis : Node → List Node) (n : Node) : Prop where
  rule : Rule n.kind n.outline
  fits : n.FitsKind
  symbols : ∀ c ∈ n.nodes, c.kind.declares → own c =
    ⟨(own c).id, c.nameOrEmpty, declaredKind (n.kind == .lambda) c.kind, none, none⟩
  named : ∀ d ∈ vis n, d.name? = some (own d).name
  children : ∀ pre c post, n.nodes = pre ++ c :: post →
    vis c = (pre.flatMap leaves).reverse ++ announced n pre ++ vis n

def Suits (own : Node → Symbol) (vis : Node → List Node) (n : Node) : Prop :=
  ∀ m ∈ n.preorder, Placed own vis m

variable {e : Environment} {own : Node → Symbol} {vis : Node → List Node} {n c : Node}

/-! ## What children see -/

theorem Suits.child (h : Suits own vis n) (hc : c ∈ n.nodes) : Suits own vis c :=
  fun m hm => h m (Node.preorder_subset hc hm)

theorem Suits.here (h : Suits own vis n) : Placed own vis n := h n n.mem_preorder_self

/-- Expressions other than lambdas and queries consist of expressions, apart from the type of a
cast. -/
theorem Placed.isExpression_child (h : Placed own vis n) (hk : n.kind.isExpression)
    (hs : n.kind.isScope = false) (hc : c ∈ n.nodes) :
    c.kind.isExpression ∨ c.kind = .typeName := by
  by_cases hcast : n.kind = .cast
  · obtain ⟨type, operand, hn, ht, ho⟩ := h.rule.nodes_cast hcast
    rw [hn] at hc
    rcases List.mem_cons.1 hc with rfl | hc
    · exact .inr ht
    · rw [List.mem_singleton.1 hc]
      exact .inl ho
  · refine .inl (h.fits.isExpression_child ?_ hc)
    revert hk hs hcast
    cases n.kind <;> first | exact fun _ _ _ => rfl | exact fun hk => absurd hk (by decide) |
      exact fun _ hs => absurd hs (by decide) | exact fun _ _ hc => absurd rfl hc

theorem order_operation (hk : n.kind.isOperation) (hne : n.kind ≠ .assignment) :
    order n = n.nodes.flatMap order :=
  order_plain (NodeKind.isOperation_spec hk).2.2.1 hne

theorem leaves_typeName (h : Rule n.kind n.outline) (hk : n.kind = .typeName) :
    leaves n = [] ∧ order n = [] := by
  have none : n.nodes = [] := h.nodes_leaf (by rw [hk]; rfl)
  rw [leaves_eq, order_plain (by rw [hk]; rfl) (by rw [hk]; decide), none, hk]
  exact ⟨rfl, rfl⟩

/-- An expression leaves nothing in the scope around it. -/
theorem leaves_expression (n : Node) (h : Suits own vis n) (hk : n.kind.isExpression) :
    leaves n = [] := by
  have around : n.kind.declaresAround = false := by
    revert hk
    cases n.kind <;> first | exact fun _ => rfl | exact fun hk => absurd hk (by decide)
  rw [leaves_eq, around]
  cases hs : n.kind.isScope with
  | true => rfl
  | false =>
    refine List.flatMap_eq_nil_iff.2 fun c hc => ?_
    have := Node.size_lt_of_mem hc
    rcases h.here.isExpression_child hk hs hc with hck | hck
    · exact leaves_expression c (h.child hc) hck
    · exact (leaves_typeName (h.child hc).here.rule hck).1
termination_by n.size

theorem Placed.operand_clause (h : Placed own vis n)
    (hk : n.kind = .whereClause ∨ n.kind = .selectClause) :
    ∃ m, n.nodes = [m] ∧ m.kind.isExpression := by
  obtain ⟨m, hm⟩ := List.length_eq_one_iff.1
    (h.rule.length_nodes (k := 1) (by rcases hk with hk | hk <;> rw [hk] <;> rfl))
  exact ⟨m, hm, h.fits.isExpression_child (by rcases hk with hk | hk <;> rw [hk] <;> rfl)
    (by simp [hm])⟩

theorem leaves_clause (h : Suits own vis n)
    (hk : n.kind = .whereClause ∨ n.kind = .selectClause) : leaves n = [] := by
  obtain ⟨m, hm, expr⟩ := h.here.operand_clause hk
  have around : n.kind.declaresAround = false := by rcases hk with hk | hk <;> rw [hk] <;> rfl
  have scope : n.kind.isScope = false := by rcases hk with hk | hk <;> rw [hk] <;> rfl
  rw [leaves_eq, hm, around, scope, List.flatMap_singleton,
    leaves_expression m (h.child (by simp [hm])) expr]
  rfl

/-- What a declaration begins with sees what the declaration sees, if the name is declared late. -/
theorem Placed.visible_first (h : Placed own vis n) (hk : n.kind.declaresLate) {post : List Node}
    (hn : n.nodes = c :: post) : vis c = vis n := by
  rw [h.children [] c post hn, announced, hk, List.isEmpty_nil, Bool.and_self, Bool.not_true,
    Bool.and_false]
  rfl

/-- An operand sees what the whole expression sees. -/
theorem Suits.visible_operand (h : Suits own vis n) (hk : n.kind.isExpression)
    (hs : n.kind.isScope = false) (hc : c ∈ n.nodes) : vis c = vis n := by
  obtain ⟨pre, post, hn⟩ := List.append_of_mem hc
  have silent : announced n pre = [] := by
    have : n.kind.declares = false := by
      revert hk hs
      cases n.kind <;> first | exact fun _ _ => rfl | exact fun hk => absurd hk (by decide) |
        exact fun _ hs => absurd hs (by decide)
    rw [announced, this]
    rfl
  have nothing : pre.flatMap leaves = [] := by
    refine List.flatMap_eq_nil_iff.2 fun m hm => ?_
    have inside : m ∈ n.nodes := by rw [hn]; exact List.mem_append_left _ hm
    rcases h.here.isExpression_child hk hs inside with hmk | hmk
    · exact leaves_expression m (h.child inside) hmk
    · exact (leaves_typeName (h.child inside).here.rule hmk).1
  rw [h.here.children pre c post hn, nothing, silent]
  rfl

theorem flatMap_attach {α β : Type} (xs : List α) (f : α → List β) :
    (xs.attach.flatMap fun x => f x.1) = xs.flatMap f := by
  rw [List.flatMap_subtype (g := f) fun _ _ => rfl, List.unattach_attach]

theorem forM_attach (ns : List Node) (f : Node → Resolver PUnit) :
    (ns.attach.forM fun x => f x.1) = ns.forM f := by
  change forM ns.attach (fun x => f x.1) = forM ns f
  conv_rhs => rw [← List.attach_map_subtype_val ns, List.forM_map]

/-- A file stands in nothing. -/
theorem Placed.child_ne_file (h : Placed own vis n) (hc : c ∈ n.nodes) :
    c.kind ≠ .compilationUnit :=
  h.fits.child_ne (by cases n.kind <;> rfl) hc

/-- The symbol of a node outside of the parameters of a lambda. -/
def OwnSymbol (own : Node → Symbol) (n : Node) : Prop :=
  n.kind.declares → own n = ⟨(own n).id, n.nameOrEmpty, declaredKind false n.kind, none, none⟩

theorem Placed.ownSymbol (h : Placed own vis n) (hc : c ∈ n.nodes)
    (hne : n.kind ≠ .lambda ∨ c.kind ≠ .parameter) : OwnSymbol own c := by
  intro hd
  have same : declaredKind (n.kind == .lambda) c.kind = declaredKind false c.kind := by
    rcases hne with hne | hne
    · rw [beq_eq_false_iff_ne.2 hne]
    · revert hne
      cases c.kind <;> first | exact fun _ => rfl | exact fun hne => absurd rfl hne
  rw [← same]
  exact h.symbols c hc hd

theorem OwnSymbol.eq {kind : SymbolKind} {name : String} (h : OwnSymbol own n)
    (hd : n.kind.declares) (hk : declaredKind false n.kind = kind) (hname : n.name? = some name) :
    own n = ⟨(own n).id, name, kind, none, none⟩ := by
  have named : n.nameOrEmpty = name := by rw [Node.nameOrEmpty, hname]; rfl
  have := h hd
  rwa [named, hk] at this

theorem right_announced (hd : n.kind.isNoted) (type : Option TypeExpr) :
    Right e own vis n ⟨none, some (own n), type⟩ :=
  ⟨fun hk => absurd hd (by rw [hk]; decide), fun _ => rfl⟩

/-- Below a parameter nothing is declared and nothing is told. -/
theorem Suits.parameter (h : Suits own vis n) (hk : n.kind = .parameter) :
    order n = [n] ∧ leaves n = [n] ∧ ∀ x ∈ n.preorder, x.kind.isTold → x ∈ [n] := by
  have types (m : Node) (hm : m ∈ n.nodes) :=
    leaves_typeName (h.child hm).here.rule (h.here.rule.nodes_parameter hk m hm)
  refine ⟨?_, ?_, fun x hx ht => ?_⟩
  · rw [order_first (by rw [hk]; rfl) (by rw [hk]; rfl),
      List.flatMap_eq_nil_iff.2 fun m hm => (types m hm).2]
    rfl
  · rw [leaves_eq, List.flatMap_eq_nil_iff.2 fun m hm => (types m hm).1, hk]
    rfl
  · rcases Node.mem_preorder.1 hx with rfl | ⟨m, hm, hx⟩
    · exact List.mem_singleton_self _
    · have kind := h.here.rule.nodes_parameter hk m hm
      have none : m.nodes = [] := (h.child hm).here.rule.nodes_leaf (by rw [kind]; rfl)
      rw [preorder_nodes, none, List.flatMap_nil, List.mem_singleton] at hx
      rw [hx, kind] at ht
      cases ht

/-- Walking the node declares and finds what the rule says, as a statement and as an expression. -/
structure Keeps (e : Environment) (own : Node → Symbol) (vis : Node → List Node) (n : Node) :
    Prop where
  walk : Obeys own (Right e own vis) (vis n) (order n) (leaves n) n.preorder (walk e n)
  expression : n.kind.isExpression →
    Obeys own (Right e own vis) (vis n) (order n) [] n.preorder (expression e n)

/-- Children one after the other, each of which sees what the earlier ones leave. -/
theorem Obeys.children {R : Node → Facts → Prop} {base pre rest : List Node}
    {f : Node → Resolver PUnit} (hn : n.nodes = pre ++ rest)
    (hvis : ∀ pre c post, n.nodes = pre ++ c :: post → vis c = (pre.flatMap leaves).reverse ++ base)
    (hf : ∀ c ∈ n.nodes, Obeys own R (vis c) (order c) (leaves c) c.preorder (f c)) :
    Obeys own R ((pre.flatMap leaves).reverse ++ base) (rest.flatMap order) (rest.flatMap leaves)
      (rest.flatMap Node.preorder) (rest.forM f) := by
  induction rest generalizing pre with
  | nil => exact .pure _
  | cons c rest ih =>
    have first := hf c (by simp [hn])
    rw [hvis pre c rest hn] at first
    refine .bind first fun _ => ?_
    have later := ih (show n.nodes = (pre ++ [c]) ++ rest by simp [hn])
    rw [List.flatMap_append, List.reverse_append, List.append_assoc,
      List.flatMap_singleton] at later
    exact later

theorem Obeys.operand {R : Node → Facts → Prop} {ds ord out cover : List Node} {i : Nat} {m : Node}
    (hm : n.node? i = some m) (h : Obeys own R ds ord out cover (expression e m)) :
    Obeys own R ds ord out cover (operand e n i) := by
  rw [Resolution.operand]
  split
  · next m' hm' =>
    obtain rfl : m = m' := Option.some.inj (hm.symm.trans hm')
    exact h
  · next hm' => cases hm.symm.trans hm'

section

variable (h : Suits own vis n) (ih : ∀ m : Node, m.size < n.size → Suits own vis m →
  m.kind ≠ .compilationUnit → OwnSymbol own m → Keeps e own vis m)

include h ih

theorem keeps_child (hc : c ∈ n.nodes) (hne : n.kind ≠ .lambda ∨ c.kind ≠ .parameter) :
    Keeps e own vis c :=
  ih c (Node.size_lt_of_mem hc) (h.child hc) (h.here.child_ne_file hc) (h.here.ownSymbol hc hne)

/-- The children in order, where the node declares the same for all of them. -/
theorem obeys_walkChildren (base : List Node) (hne : n.kind ≠ .lambda)
    (hvis : ∀ pre, announced n pre ++ vis n = base) :
    Obeys own (Right e own vis) base (n.nodes.flatMap order) (n.nodes.flatMap leaves)
      (n.nodes.flatMap Node.preorder) (walkChildren e n) := by
  rw [walkChildren_eq]
  refine Obeys.children (List.nil_append _).symm (fun pre c post hn => ?_) fun c hc =>
    (keeps_child h ih hc (.inl hne)).walk
  rw [h.here.children pre c post hn, List.append_assoc, hvis]

/-- A part of an expression, walked where the whole expression is. -/
theorem obeys_part (hk : n.kind.isExpression) (hs : n.kind.isScope = false) (hc : c ∈ n.nodes)
    (hck : c.kind.isExpression) :
    Obeys own (Right e own vis) (vis n) (order c) [] c.preorder (expression e c) := by
  have hne : n.kind ≠ .lambda := fun he => by rw [he] at hs; cases hs
  rw [← h.visible_operand hk hs hc]
  exact (keeps_child h ih hc (.inl hne)).expression hck

/-! ## Expressions -/

theorem obeys_operation (hk : n.kind.isOperation) (hc : c ∈ n.nodes) :
    Obeys own (Right e own vis) (vis n) (order c) [] c.preorder (expression e c) := by
  obtain ⟨isExpression, scope, -, slots⟩ := NodeKind.isOperation_spec hk
  exact obeys_part h ih isExpression scope hc (h.here.fits.isExpression_child slots hc)

theorem obeys_operand (hk : n.kind.isOperation) {m : Node} {i : Nat} (hm : n.node? i = some m) :
    Obeys own (Right e own vis) (vis n) (order m) [] m.preorder (operand e n i) :=
  .operand hm (obeys_operation h ih hk (Node.mem_of_node? hm))

/-- One operand, and something made of its type. -/
theorem obeys_one (hk : n.kind.isOperation) (ha : n.kind.arity? = some 1)
    {k : TypeExpr → Resolver (Option Symbol × TypeExpr)} (hr : ∀ t, ∃ r, k t = pure r) :
    Obeys own (Right e own vis) (vis n) (order n) [] (n.nodes.flatMap Node.preorder)
      (operand e n 0 >>= k) := by
  have hne : n.kind ≠ .assignment := fun he => by rw [he] at ha; cases ha
  obtain ⟨m, hn⟩ := List.length_eq_one_iff.1 (h.here.rule.length_nodes ha)
  have first := obeys_operand h ih hk (i := 0) (m := m) (by rw [Node.node?, hn]; rfl)
  rw [order_operation hk hne, hn, List.flatMap_singleton, List.flatMap_singleton]
  refine first.andNothing fun t => ?_
  obtain ⟨r, hr⟩ := hr t
  rw [hr]
  exact .pure r

theorem obeys_binary (hk : n.kind = .binary) :
    Obeys own (Right e own vis) (vis n) (order n) [] (n.nodes.flatMap Node.preorder)
      (meaning e n) := by
  have operation : n.kind.isOperation := by rw [hk]; rfl
  obtain ⟨l, r, hn⟩ := List.length_eq_two.1 (h.here.rule.length_nodes (k := 2) (by rw [hk]; rfl))
  have left := obeys_operand h ih operation (i := 0) (m := l) (by rw [Node.node?, hn]; rfl)
  have right := obeys_operand h ih operation (i := 1) (m := r) (by rw [Node.node?, hn]; rfl)
  rw [order_operation operation (by rw [hk]; decide), hn, meaning]
  simp only [hk, List.flatMap_cons, List.flatMap_nil, List.append_nil]
  exact left.andThen fun _ => right.result _

theorem obeys_elementAccess (hk : n.kind = .elementAccess) :
    Obeys own (Right e own vis) (vis n) (order n) [] (n.nodes.flatMap Node.preorder)
      (meaning e n) := by
  have operation : n.kind.isOperation := by rw [hk]; rfl
  obtain ⟨l, r, hn⟩ := List.length_eq_two.1 (h.here.rule.length_nodes (k := 2) (by rw [hk]; rfl))
  have receiver := obeys_operand h ih operation (i := 0) (m := l) (by rw [Node.node?, hn]; rfl)
  have index := obeys_operand h ih operation (i := 1) (m := r) (by rw [Node.node?, hn]; rfl)
  rw [order_operation operation (by rw [hk]; decide), hn, meaning]
  simp only [hk, List.flatMap_cons, List.flatMap_nil, List.append_nil]
  exact receiver.andThen fun _ => index.discard.result _

/-- The value of an assignment is walked before its target. -/
theorem obeys_assignment (hk : n.kind = .assignment) :
    Obeys own (Right e own vis) (vis n) (order n) [] (n.nodes.flatMap Node.preorder)
      (meaning e n) := by
  have operation : n.kind.isOperation := by rw [hk]; rfl
  obtain ⟨target, value, hn⟩ :=
    List.length_eq_two.1 (h.here.rule.length_nodes (k := 2) (by rw [hk]; rfl))
  have place : n.node? 0 = some target := by rw [Node.node?, hn]; rfl
  have later := obeys_operand h ih operation place
  have first := obeys_operand h ih operation (i := 1) (m := value) (by rw [Node.node?, hn]; rfl)
  have both := first.andThen fun t =>
    (Obeys.refine target t).andThen fun _ => later.result fun t => ((none : Option Symbol), t)
  rw [order_assignment hk hn, meaning]
  simp only [hk, place, hn]
  refine both.covering ?_ ?_
  · simp
  · simp only [List.flatMap_cons, List.flatMap_nil, List.append_nil, List.mem_append,
      List.nil_append]
    exact fun x hx _ => hx.symm

theorem obeys_conditional (hk : n.kind = .conditional) :
    Obeys own (Right e own vis) (vis n) (order n) [] (n.nodes.flatMap Node.preorder)
      (meaning e n) := by
  have operation : n.kind.isOperation := by rw [hk]; rfl
  obtain ⟨c, t, f, hn⟩ := List.length_eq_three.1
    (h.here.rule.length_nodes (k := 3) (by rw [hk]; rfl))
  have condition := obeys_operand h ih operation (i := 0) (m := c) (by rw [Node.node?, hn]; rfl)
  have whenTrue := obeys_operand h ih operation (i := 1) (m := t) (by rw [Node.node?, hn]; rfl)
  have whenFalse := obeys_operand h ih operation (i := 2) (m := f) (by rw [Node.node?, hn]; rfl)
  rw [order_operation operation (by rw [hk]; decide), hn, meaning]
  simp only [hk, List.flatMap_cons, List.flatMap_nil, List.append_nil]
  exact condition.discard.andThen fun _ => whenTrue.andThen fun _ => whenFalse.result _

theorem obeys_invocation (hk : n.kind = .invocation) :
    Obeys own (Right e own vis) (vis n) (order n) [] (n.nodes.flatMap Node.preorder)
      (meaning e n) := by
  have operation : n.kind.isOperation := by rw [hk]; rfl
  rw [order_operation operation (by rw [hk]; decide), meaning]
  simp only [hk]
  split
  · next hn =>
    rw [hn]
    exact .pure _
  · next callee arguments hn =>
    have expression {m : Node} (hm : m ∈ callee :: arguments) :=
      obeys_operation h ih operation (hn ▸ hm)
    have walked := Obeys.forM (o := fun x : { m // m ∈ arguments } => order x.1)
      (c := fun x => x.1.preorder) arguments.attach fun x _ =>
        (expression (List.mem_cons_of_mem _ x.2)).discard
    rw [flatMap_attach, flatMap_attach arguments Node.preorder] at walked
    rw [hn, List.flatMap_cons, List.flatMap_cons]
    refine .andThen (expression List.mem_cons_self) fun returns => ?_
    exact walked.andNothing fun _ => .look fun s => ⟨_, rfl⟩

theorem obeys_list (hk : n.kind = .list) :
    Obeys own (Right e own vis) (vis n) (order n) [] (n.nodes.flatMap Node.preorder)
      (meaning e n) := by
  have operation : n.kind.isOperation := by rw [hk]; rfl
  have walked := Obeys.mapM (o := fun x : { m // m ∈ n.nodes } => order x.1)
    (c := fun x => x.1.preorder) n.nodes.attach fun x _ => obeys_operation h ih operation x.2
  rw [flatMap_attach, flatMap_attach n.nodes Node.preorder] at walked
  rw [order_operation operation (by rw [hk]; decide), meaning]
  simp only [hk]
  exact walked.result _

/-- Nothing is walked in the type of a cast, and there is nothing to find. -/
theorem obeys_cast (hk : n.kind = .cast) :
    Obeys own (Right e own vis) (vis n) (order n) [] (n.nodes.flatMap Node.preorder)
      (meaning e n) := by
  obtain ⟨type, value, hn, ht, hv⟩ := h.here.rule.nodes_cast hk
  have rule := (h.child (c := type) (by simp [hn])).here.rule
  have told := leaves_typeName rule ht
  have none : type.nodes = [] := rule.nodes_leaf (by rw [ht]; rfl)
  have walked := obeys_part h ih (by rw [hk]; rfl) (by rw [hk]; rfl) (c := value) (by simp [hn]) hv
  have inside : n.node? 1 = some value := by rw [Node.node?, hn]; rfl
  rw [order_plain (by rw [hk]; rfl) (by rw [hk]; decide), hn, meaning]
  simp only [hk, List.flatMap_cons, List.flatMap_nil, List.append_nil, told.2, List.nil_append]
  refine (Obeys.result _ (.discard (.operand inside walked))).covering (by simp) fun x hx hk => ?_
  rcases List.mem_append.1 hx with hx | hx
  · rw [preorder_nodes, none, List.flatMap_nil, List.mem_singleton] at hx
    rw [hx, ht] at hk
    cases hk
  · exact hx

/-- The parameters of a lambda are locals. -/
theorem obeys_lambdaPart (hk : n.kind = .lambda) (hc : c ∈ n.nodes) :
    Obeys own (Right e own vis) (vis c) (order c) (leaves c) c.preorder (do
      if c.kind = .parameter then
        if let some name := c.name? then
          let declared ← declare name .localVar none
          record c ⟨none, some declared, none⟩
      else walk e c) := by
  split
  · next hp =>
    -- elsewhere a parameter has a symbol of another kind, so its own walk is of no use here
    have suits := h.child hc
    obtain ⟨horder, hleaves, htold⟩ := suits.parameter hp
    obtain ⟨name, hname⟩ := suits.here.rule.exists_name (.inl (by rw [hp]; rfl))
    have named : c.nameOrEmpty = name := by rw [Node.nameOrEmpty, hname]; rfl
    have symbol := h.here.symbols c hc (by rw [hp]; rfl)
    rw [hk, hp, named] at symbol
    rw [hname, horder, hleaves]
    exact (Obeys.announce none none symbol (right_announced (by rw [hp]; rfl) _)).covering
      (by simpa using c.mem_preorder_self) htold
  · next hp => exact (keeps_child h ih hc (.inr hp)).walk

theorem obeys_lambda (hk : n.kind = .lambda) :
    Obeys own (Right e own vis) (vis n) (order n) [] (n.nodes.flatMap Node.preorder)
      (meaning e n) := by
  have base (pre : List Node) (c : Node) (post : List Node) (hn : n.nodes = pre ++ c :: post) :
      vis c = (pre.flatMap leaves).reverse ++ vis n := by
    have silent : announced n pre = [] := by rw [announced, hk]; rfl
    rw [h.here.children pre c post hn, silent, List.append_nil]
  have all := Obeys.children (List.nil_append _).symm base fun c hc => obeys_lambdaPart h ih hk hc
  rw [← forM_attach] at all
  rw [order_plain (by rw [hk]; rfl) (by rw [hk]; decide), meaning]
  simp only [hk]
  exact .result _ (.inScope all)

/-- A clause is walked with the variable of the query in scope. -/
theorem obeys_clause (hk : n.kind = .query) {pre post : List Node} (hne : pre ≠ [])
    (hn : n.nodes = pre ++ c :: post) (hpre : pre.flatMap leaves = [])
    (hc : c.kind = .whereClause ∨ c.kind = .selectClause) :
    Obeys own (Right e own vis) (n :: vis n) (order c) [] c.preorder (operand e c 0) := by
  have inside : c ∈ n.nodes := by simp [hn]
  have suits := h.child inside
  have below (m : Node) (hlt : m.size < c.size) := ih m (hlt.trans (Node.size_lt_of_mem inside))
  obtain ⟨m, hm, expr⟩ := suits.here.operand_clause hc
  have hmc : m ∈ c.nodes := by simp [hm]
  have walked := (keeps_child suits below hmc
    (.inl (by rcases hc with hc | hc <;> rw [hc] <;> decide))).expression expr
  have quiet : c.kind.declares = false := by rcases hc with hc | hc <;> rw [hc] <;> rfl
  have announcing : announced n pre = [n] := by
    rw [announced, hk]
    cases pre with
    | nil => exact absurd rfl hne
    | cons first rest => rfl
  have visible : vis m = n :: vis n := by
    rw [suits.here.children [] m [] hm, announced, quiet, h.here.children pre c post hn, hpre,
      announcing]
    rfl
  rw [visible] at walked
  rw [order_plain quiet (by rcases hc with hc | hc <;> rw [hc] <;> decide), hm,
    List.flatMap_singleton]
  refine (Obeys.operand (by rw [Node.node?, hm]; rfl) walked).covering
    (Node.preorder_subset hmc) fun x hx ht => ?_
  rcases Node.mem_preorder.1 hx with rfl | ⟨m', hm', hx⟩
  · rcases hc with hc | hc <;> rw [hc] at ht <;> cases ht
  · rw [hm, List.mem_singleton] at hm'
    exact hm' ▸ hx

theorem obeys_query (own' : OwnSymbol own n) (hk : n.kind = .query) :
    Obeys own (Right e own vis) (vis n) (order n) [] (n.nodes.flatMap Node.preorder)
      (meaning e n) := by
  obtain ⟨source, clauses, hn, hs, hclauses⟩ := h.here.fits.nodes_query hk
  have hsource : source ∈ n.nodes := by simp [hn]
  have walked := (keeps_child h ih hsource (.inl (by rw [hk]; decide))).expression hs
  rw [h.here.visible_first (by rw [hk]; rfl) hn] at walked
  have clause (c : Node) (hc : c ∈ clauses) :
      Obeys own (Right e own vis) (n :: vis n) (order c) [] c.preorder (operand e c 0) := by
    obtain ⟨pre, post, hp⟩ := List.append_of_mem hc
    have quiet : (source :: pre).flatMap leaves = [] := by
      refine List.flatMap_eq_nil_iff.2 fun m hm => ?_
      rcases List.mem_cons.1 hm with rfl | hm
      · exact leaves_expression m (h.child hsource) hs
      · have inside : m ∈ clauses := by rw [hp]; exact List.mem_append_left _ hm
        exact leaves_clause (h.child (by rw [hn]; exact List.mem_cons_of_mem _ inside))
          (hclauses m inside)
    have split : n.nodes = (source :: pre) ++ c :: post := by rw [hn, hp]; rfl
    exact obeys_clause h ih hk (List.cons_ne_nil _ _) split quiet (hclauses c hc)
  have tail : n.nodes.tail = clauses := by rw [hn]; rfl
  have folded (b : TypeExpr) := Obeys.foldlM (o := fun x : { m // m ∈ n.nodes.tail } => order x.1)
    (c := fun x => x.1.preorder) (f := fun selected x => do
      let type ← operand e x.1 0
      return if x.1.kind = .selectClause then type else selected) n.nodes.tail.attach b
    fun selected x _ => .result _ (clause x.1 (tail ▸ x.2))
  rw [flatMap_attach, flatMap_attach n.nodes.tail Node.preorder] at folded
  obtain ⟨name, hname⟩ := h.here.rule.exists_name (.inl (by rw [hk]; rfl))
  have symbol : own n = ⟨(own n).id, name, .localVar, none, none⟩ :=
    own'.eq (by rw [hk]; rfl) (by rw [hk]; rfl) hname
  have orders : order n = order source ++ ([n] ++ n.nodes.tail.flatMap order) := by
    rw [order_late (by rw [hk]; rfl) (by rw [hk]; rfl), List.append_assoc, hn]
    simp
  have covers : n.nodes.flatMap Node.preorder =
      source.preorder ++ ([] ++ n.nodes.tail.flatMap Node.preorder) := by rw [hn]; rfl
  have inside (t : TypeExpr) := Obeys.inScope
    ((Obeys.discard (.declare (some (t.element?.getD .object)) symbol)).bind fun _ =>
      (folded .object).result fun selected => ((none : Option Symbol), TypeExpr.sequence selected))
  rw [orders, covers, meaning]
  simp only [hk, hname]
  exact .andThen (.operand (by rw [Node.node?, hn]; rfl) walked) inside

/-- An expression, if its parts keep to the order. -/
theorem obeys_meaning (own' : OwnSymbol own n) (hk : n.kind.isExpression) :
    Obeys own (Right e own vis) (vis n) (order n) [] (n.nodes.flatMap Node.preorder)
      (meaning e n) := by
  have leaf (hleaf : n.kind.isLeaf) (hd : n.kind.declares = false) (hne : n.kind ≠ .assignment) :
      n.nodes = [] ∧ order n = [] := by
    have none := h.here.rule.nodes_leaf hleaf
    rw [order_plain hd hne, none]
    exact ⟨rfl, rfl⟩
  cases hn : n.kind with
  | literal | this =>
    obtain ⟨none, nothing⟩ := leaf (by rw [hn]; rfl) (by rw [hn]; rfl) (by rw [hn]; decide)
    rw [none, nothing, meaning]
    simp only [hn]
    exact .pure _
  | identifier =>
    obtain ⟨none, nothing⟩ := leaf (by rw [hn]; rfl) (by rw [hn]; rfl) (by rw [hn]; decide)
    rw [none, nothing, meaning]
    simp only [hn]
    refine .look fun s => ?_
    split <;> exact ⟨_, rfl⟩
  | parenthesized | step | unary | await =>
    rw [meaning]
    simp only [hn]
    exact obeys_one h ih (by rw [hn]; rfl) (by rw [hn]; rfl) fun t => ⟨_, rfl⟩
  | memberAccess =>
    rw [meaning]
    simp only [hn]
    refine obeys_one h ih (by rw [hn]; rfl) (by rw [hn]; rfl) fun t => ?_
    split
    · exact ⟨_, rfl⟩
    · split <;> exact ⟨_, rfl⟩
  | binary => exact obeys_binary h ih hn
  | elementAccess => exact obeys_elementAccess h ih hn
  | assignment => exact obeys_assignment h ih hn
  | conditional => exact obeys_conditional h ih hn
  | invocation => exact obeys_invocation h ih hn
  | list => exact obeys_list h ih hn
  | cast => exact obeys_cast h ih hn
  | lambda => exact obeys_lambda h ih hn
  | query => exact obeys_query h ih own' hn
  | _ =>
    rw [hn] at hk
    cases hk

end

/-- What the resolver looks up is what the rule refers to. -/
theorem Ready.referent {ord : List Node} {s : State} (hs : Ready own (vis n) ord s)
    (named : ∀ d ∈ vis n, d.name? = some (own d).name) :
    (n.name?.bind (named? e s)).map Prod.fst = referent e own (vis n) n := by
  unfold Resolution.referent
  cases n.name? with
  | none => rfl
  | some name =>
    have found : (s.local? name).map Local.symbol =
        ((vis n).find? (·.name? == some name)).map own := by
      have here := congrArg (List.find? (·.name == name)) hs.visible
      rw [State.symbols, ← List.map_flatten, List.find?_map, List.find?_map] at here
      rw [State.local?]
      refine here.trans (congrArg _ (List.find?_congr fun d hd => ?_))
      rw [Function.comp_apply, named d hd]
      rfl
    rw [Option.bind_some, Option.bind_some, named?]
    cases hl : s.local? name with
    | none =>
      rw [hl, Option.map_none, eq_comm, Option.map_eq_none_iff] at found
      rw [found]
    | some l =>
      rw [hl, Option.map_some, eq_comm, Option.map_eq_some_iff] at found
      obtain ⟨d, hd, hown⟩ := found
      rw [hd]
      exact congrArg some hown.symm

section

variable (h : Suits own vis n) (ih : ∀ m : Node, m.size < n.size → Suits own vis m →
  m.kind ≠ .compilationUnit → OwnSymbol own m → Keeps e own vis m)

include h

theorem obeys_identifier (hk : n.kind = .identifier) :
    Obeys own (Right e own vis) (vis n) (order n) [] n.preorder (expression e n) := by
  have none : n.nodes = [] := h.here.rule.nodes_leaf (by rw [hk]; rfl)
  rw [order_plain (by rw [hk]; rfl) (by rw [hk]; decide), preorder_nodes, none]
  intro s hs a s' hr
  rw [expression] at hr
  obtain ⟨r, mid, hm, hrecord⟩ := Pass.exists_of_bind hr
  have meant : r.1 = (n.name?.bind (named? e s)).map Prod.fst ∧ mid = s := by
    rw [meaning] at hm
    simp only [hk] at hm
    obtain ⟨looked, mid', hg, hm⟩ := Pass.exists_of_bind hm
    cases hg
    split at hm
    · next symbol type found =>
      cases hm
      rw [found]
      exact ⟨rfl, rfl⟩
    · next found =>
      cases hm
      rw [found]
      exact ⟨rfl, rfl⟩
  obtain ⟨symbol, rfl⟩ := meant
  have right : Right e own vis n ⟨r.1, Option.none, some r.2⟩ :=
    ⟨fun _ => symbol.trans (hs.referent h.here.named), fun hd => absurd hd (by rw [hk]; decide)⟩
  exact (Obeys.record (by simp [Facts.isNone]) right).result (fun _ => r.2) mid hs a s' hrecord

include ih

theorem obeys_expression (own' : OwnSymbol own n) (hk : n.kind.isExpression) :
    Obeys own (Right e own vis) (vis n) (order n) [] n.preorder (expression e n) := by
  by_cases hident : n.kind = .identifier
  · exact obeys_identifier h hident
  · have right (r : Option Symbol × TypeExpr) : Right e own vis n ⟨r.1, none, some r.2⟩ := by
      refine ⟨fun he => absurd he hident, fun hd => absurd hd ?_⟩
      revert hk
      cases n.kind <;> decide
    rw [expression]
    have := (obeys_meaning h ih own' hk).andThen fun r =>
      (Obeys.record (by simp [Facts.isNone]) (right r)).result fun _ => r.2
    rw [List.append_nil] at this
    refine this.covering ?_ ?_
    · rw [preorder_nodes]
      simp
    · intro x hx _
      rw [preorder_nodes] at hx
      simpa [or_comm] using hx

theorem obeys_routine (own' : OwnSymbol own n) {name : String} {kind : SymbolKind}
    (hk : n.kind = .template ∨ n.kind = .localFunction) (hname : n.name? = some name)
    (hkind : declaredKind false n.kind = kind) :
    Obeys own (Right e own vis) (vis n) (order n) (leaves n) n.preorder (do
      let declared ← declare name kind (some .object)
      record n ⟨none, some declared, none⟩
      inScope (walkChildren e n)) := by
  have declares : n.kind.declares := by rcases hk with hk | hk <;> rw [hk] <;> rfl
  have late : n.kind.declaresLate = false := by rcases hk with hk | hk <;> rw [hk] <;> rfl
  have noted : n.kind.isNoted := by rcases hk with hk | hk <;> rw [hk] <;> rfl
  have around : leaves n = [n] ++ [] := by
    rw [leaves_eq]
    rcases hk with hk | hk <;> rw [hk] <;> rfl
  have children := obeys_walkChildren h ih ([n] ++ vis n)
    (by rcases hk with hk | hk <;> rw [hk] <;> decide)
    fun pre => by rw [announced, declares, late]; rfl
  rw [order_first declares late, around, preorder_nodes]
  exact .announceThen _ _ (own'.eq declares hkind hname) (right_announced noted none)
    (.inScope children)

omit ih in
theorem obeys_parameter (own' : OwnSymbol own n) {name : String} (hk : n.kind = .parameter)
    (hname : n.name? = some name) (type : TypeExpr) :
    Obeys own (Right e own vis) (vis n) (order n) (leaves n) n.preorder (do
      let declared ← declare name .parameter (some type)
      record n ⟨none, some declared, some type⟩) := by
  obtain ⟨horder, hleaves, htold⟩ := h.parameter hk
  have symbol : own n = ⟨(own n).id, name, .parameter, none, none⟩ :=
    own'.eq (by rw [hk]; rfl) (by rw [hk]; rfl) hname
  rw [horder, hleaves]
  exact (Obeys.announce _ _ symbol (right_announced (by rw [hk]; rfl) _)).covering
    (by simpa using n.mem_preorder_self) htold

/-- A scope that declares nothing. -/
theorem obeys_scope (hd : n.kind.declares = false) (hs : n.kind.isScope) (hne : n.kind ≠ .lambda) :
    Obeys own (Right e own vis) (vis n) (order n) (leaves n) n.preorder
      (inScope (walkChildren e n)) := by
  have around : n.kind.declaresAround = false := (Bool.or_eq_false_iff.1 hd).1
  have quiet : n.kind.isTold = false := by
    revert hd hs
    cases n.kind <;> decide
  have children := obeys_walkChildren h ih (vis n) hne fun pre => by rw [announced, hd]; rfl
  have none : leaves n = [] := by rw [leaves_eq, around, hs]; rfl
  rw [none, order_plain hd fun he => by rw [he] at hs; cases hs]
  exact children.inScope.ofNodes quiet

/-- The initializer is walked before the name is declared. -/
theorem obeys_declarator (own' : OwnSymbol own n) (hk : n.kind = .declarator) :
    Obeys own (Right e own vis) (vis n) (order n) (leaves n) n.preorder (walk e n) := by
  obtain ⟨name, hname⟩ := h.here.rule.exists_name (.inl (by rw [hk]; rfl))
  have symbol : own n = ⟨(own n).id, name, .localVar, none, none⟩ :=
    own'.eq (by rw [hk]; rfl) (by rw [hk]; rfl) hname
  have announce (type : Option TypeExpr) : Obeys own (Right e own vis) (vis n) [n] [n] [n] (do
      let declared ← declare name .localVar type
      record n ⟨none, some declared, type⟩) :=
    .announce type type symbol (right_announced (by rw [hk]; rfl) type)
  have around : leaves n = [n] ++ n.nodes.flatMap leaves := by rw [leaves_eq, hk]; rfl
  rw [order_late (by rw [hk]; rfl) (by rw [hk]; rfl), around, preorder_nodes, walk]
  simp only [hk, hname]
  rcases h.here.rule.nodes_declarator hk with hn | ⟨value, hn, hv⟩
  · split
    · next value hvalue => simp [Node.node?, hn] at hvalue
    · rw [hn, pure_bind]
      exact announce none
  · have inside : value ∈ n.nodes := by simp [hn]
    have walked := (keeps_child h ih inside (.inl (by rw [hk]; decide))).expression hv
    rw [h.here.visible_first (by rw [hk]; rfl) hn] at walked
    split
    · next value' hvalue =>
      obtain rfl : value = value' := by simpa [Node.node?, hn] using hvalue
      rw [hn]
      simp only [List.take_one, List.drop_one, List.head?_cons, Option.toList_some,
        List.tail_cons, List.flatMap_cons, List.flatMap_nil, List.append_nil,
        leaves_expression value (h.child inside) hv]
      refine ((Obeys.map some walked).andThen announce).covering ?_ ?_
      · simp
      · exact fun x hx _ => by simpa [or_comm] using hx
    · next hnone => simp [Node.node?, hn] at hnone

/-- The source of a loop is walked outside of its scope, before the variable is declared. -/
theorem obeys_forEach (own' : OwnSymbol own n) (hk : n.kind = .forEachStatement) :
    Obeys own (Right e own vis) (vis n) (order n) (leaves n) n.preorder (walk e n) := by
  obtain ⟨name, hname⟩ := h.here.rule.exists_name (.inl (by rw [hk]; rfl))
  obtain ⟨source, body, hn, hs, -⟩ := h.here.rule.nodes_forEach hk
  have symbol : own n = ⟨(own n).id, name, .localVar, none, none⟩ :=
    own'.eq (by rw [hk]; rfl) (by rw [hk]; rfl) hname
  have hsource : source ∈ n.nodes := by simp [hn]
  have hbody : body ∈ n.nodes := by simp [hn]
  have second : vis body = n :: vis n := by
    rw [h.here.children [source] body [] hn, announced, hk, List.flatMap_singleton,
      leaves_expression source (h.child hsource) hs]
    rfl
  have walked := (keeps_child h ih hsource (.inl (by rw [hk]; decide))).expression hs
  have after := (keeps_child h ih hbody (.inl (by rw [hk]; decide))).walk
  rw [h.here.visible_first (by rw [hk]; rfl) hn] at walked
  rw [second] at after
  have item (t : TypeExpr) := Obeys.inScope (.announceThen (R := Right e own vis)
    (some (iteratedType t)) (some (iteratedType t)) (k := fun _ => walk e body) symbol
    (right_announced (by rw [hk]; rfl) _) after)
  have place : n.node? 0 = some source := by rw [Node.node?, hn]; rfl
  have next : n.node? 1 = some body := by rw [Node.node?, hn]; rfl
  have none : leaves n = [] := by rw [leaves_eq, hk]; rfl
  rw [order_late (by rw [hk]; rfl) (by rw [hk]; rfl), none, preorder_nodes, hn, walk]
  simp only [hk, hname, List.take_one, List.drop_one, List.head?_cons, Option.toList_some,
    List.tail_cons, List.flatMap_cons, List.flatMap_nil, List.append_nil]
  rw [List.append_assoc]
  refine .covering (show Obeys own (Right e own vis) (vis n) _ []
    (source.preorder ++ ([n] ++ body.preorder)) _ from ?_) ?_ ?_
  · refine .andThen (.operand place walked) fun t => ?_
    split
    · next m hm =>
      obtain rfl : body = m := Option.some.inj (next.symm.trans hm)
      exact item t
    · next hm =>
      rw [next] at hm
      cases hm
  · simp
  · exact fun x hx _ => by simpa [or_left_comm] using hx

/-- A construct, if its parts keep to the order. -/
theorem obeys_walk (own' : OwnSymbol own n) (hroot : n.kind ≠ .compilationUnit) :
    Obeys own (Right e own vis) (vis n) (order n) (leaves n) n.preorder (walk e n) := by
  have name (hd : n.kind.declares) := h.here.rule.exists_name (.inl hd)
  have expressions (hk : n.kind.isExpression) : Obeys own (Right e own vis) (vis n) (order n)
      (leaves n) n.preorder (discard (expression e n)) := by
    rw [leaves_expression n h hk]
    exact (obeys_expression h ih own' hk).discard
  have others (hd : n.kind.declares = false) (hs : n.kind.isScope = false)
      (ht : n.kind.isTold = false) (ha : n.kind ≠ .assignment) (hl : n.kind ≠ .lambda) :
      Obeys own (Right e own vis) (vis n) (order n) (leaves n) n.preorder (walkChildren e n) := by
    have around : n.kind.declaresAround = false := (Bool.or_eq_false_iff.1 hd).1
    have children := obeys_walkChildren h ih (vis n) hl fun pre => by rw [announced, hd]; rfl
    rw [order_plain hd ha, leaves_eq, around, hs]
    exact children.ofNodes ht
  cases hk : n.kind with
  | compilationUnit => exact absurd hk hroot
  | template | localFunction =>
    obtain ⟨name, hname⟩ := name (by rw [hk]; rfl)
    have := obeys_routine h ih own' (by simp [hk]) hname rfl
    rw [walk]
    simp only [hk, hname] at this ⊢
    exact this
  | parameter =>
    obtain ⟨name, hname⟩ := name (by rw [hk]; rfl)
    rw [walk]
    simp only [hk, hname]
    exact obeys_parameter h own' hk hname _
  | block | forStatement | usingStatement =>
    rw [walk]
    simp only [hk]
    exact obeys_scope h ih (by rw [hk]; rfl) (by rw [hk]; rfl) (by rw [hk]; decide)
  | declarator => exact obeys_declarator h ih own' hk
  | forEachStatement => exact obeys_forEach h ih own' hk
  | _ =>
    rw [walk]
    simp only [hk]
    first
      | exact expressions (by rw [hk]; rfl)
      | exact others (by rw [hk]; rfl) (by rw [hk]; rfl) (by rw [hk]; rfl) (by rw [hk]; decide)
          (by rw [hk]; decide)

end

/-- Every construct below the file keeps to the order. -/
theorem keeps (n : Node) (h : Suits own vis n) (hroot : n.kind ≠ .compilationUnit)
    (own' : OwnSymbol own n) : Keeps e own vis n := by
  -- on the size and not on the children: a query walks the operands of its clauses
  have below (m : Node) (hlt : m.size < n.size) (hs : Suits own vis m)
      (hr : m.kind ≠ .compilationUnit) (ho : OwnSymbol own m) := keeps m hs hr ho
  exact ⟨obeys_walk h below own' hroot, obeys_expression h below own'⟩
termination_by n.size

/-- So does the file. -/
theorem obeys_file (h : Suits own vis n) (hk : n.kind = .compilationUnit) (hvis : vis n = []) :
    Obeys own (Right e own vis) [] (order n) (n.nodes.flatMap leaves) n.preorder
      (n.nodes.forM (walk e)) := by
  have base (pre : List Node) (c : Node) (post : List Node) (hn : n.nodes = pre ++ c :: post) :
      vis c = (pre.flatMap leaves).reverse ++ [] := by
    have silent : announced n pre = [] := by rw [announced, hk]; rfl
    rw [h.here.children pre c post hn, silent, hvis, List.append_nil]
  have walked (c : Node) (hc : c ∈ n.nodes) :=
    (keeps (e := e) c (h.child hc) (h.here.child_ne_file hc)
      (h.here.ownSymbol hc (.inl (by rw [hk]; decide)))).walk
  have all := Obeys.children (List.nil_append _).symm base walked
  rw [order_plain (by rw [hk]; rfl) (by rw [hk]; decide)]
  exact all.ofNodes (by rw [hk]; rfl)

end Resolution

end Stencil
