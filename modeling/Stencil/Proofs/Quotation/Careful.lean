import Stencil.Proofs.Expansion.Guarded
import Stencil.Proofs.Quotation.Program
import Stencil.Proofs.Staging.Statements
import Stencil.Proofs.Tree.Paths

/-!
# Careful templates

The quoter keeps jumps, reads the variables that it declares itself and puts statements into blocks
and closures of its own. Whether the result is guarded depends on what the template looks like:
where its jumps stand, and that a local is referred to only inside the block or loop that declares
it. `Careful` says what is asked of the template for a concern.

Results:

* `Row.append`, `Row.block` – guarded statements put one after another, and into a block;
* `guardedPart_methodCall`, `guarded_ifStatement` and so on – guarded code put together;
* `Careful.guardedPart`, `Careful.guarded_kept` – code that is kept from a careful template.
-/
namespace Stencil.Quotation

open Expansion

variable {c : Concern} {inside : Bool} {known : List String}

/-! ## Putting guarded code together -/

/-- Code that computes something, guarded wherever it stands. -/
structure GuardedPart (c : Concern) (known : List String) (q : Node) : Prop where
  kind : q.kind.isExpression
  guarded : Guarded c false known q

/-- Statements that are guarded where those before them have been run. -/
def Row (c : Concern) (inside : Bool) (known : List String) (steps : List Node) : Prop :=
  ∀ pre q post, steps = pre ++ q :: post →
    q.kind.isStatement ∧ Guarded c inside (declaredBy pre ++ known) q

theorem GuardedPart.mono {known' : List String} {q : Node} (h : GuardedPart c known q)
    (hk : known ⊆ known') :
    GuardedPart c known' q :=
  ⟨h.kind, h.guarded.mono id hk⟩

theorem GuardedPart.within {q : Node} (h : GuardedPart c known q) : Guarded c inside known q :=
  h.guarded.mono (fun h => by cases h) fun _ hs => hs

namespace Row

variable {steps others : List Node}

theorem nil : Row c inside known [] := by
  intro pre q post h
  simp at h

theorem singleton {q : Node} (hk : q.kind.isStatement) (h : Guarded c inside known q) :
    Row c inside known [q] := by
  intro pre q' post hsplit
  obtain ⟨rfl, rfl, -⟩ : pre = [] ∧ q' = q ∧ post = [] := by
    cases pre <;> simp_all
  exact ⟨hk, h⟩

theorem append (h : Row c inside known steps)
    (h' : Row c inside (declaredBy steps ++ known) others) :
    Row c inside known (steps ++ others) := by
  intro pre q post hsplit
  rcases List.append_eq_append_iff.1 hsplit with ⟨mid, rfl, hother⟩ | ⟨mid, hstep, hother⟩
  · obtain ⟨hk, hg⟩ := h' mid q post hother
    refine ⟨hk, hg.mono id fun s hs => ?_⟩
    rw [declaredBy_append]
    simp only [List.mem_append] at hs ⊢
    tauto
  · cases mid with
    | nil =>
      obtain ⟨hk, hg⟩ := h' [] q post (by simpa using hother.symm)
      refine ⟨hk, hg.mono id ?_⟩
      simp_all [declaredBy]
    | cons x mid =>
      obtain ⟨rfl, -⟩ := List.cons_eq_cons.1 hother
      exact h pre q mid hstep

theorem cons {q : Node} (hk : q.kind.isStatement) (h : Guarded c inside known q)
    (h' : Row c inside (declaredBy [q] ++ known) others) : Row c inside known (q :: others) :=
  (singleton hk h).append h'

theorem block (h : Row c inside known steps) : Guarded c inside known (.block steps) := by
  have nodes : (Node.block steps).nodes = steps := by
    simp [Node.block, Node.nodes, Node.build, List.filterMap_map, Function.comp_def]
  refine .block rfl (rule_block fun q hq => ?_) fun pre q post hsplit =>
    (h pre q post (nodes.symm.trans hsplit)).2
  obtain ⟨pre, post, rfl⟩ := List.append_of_mem hq
  exact (h pre q post rfl).1

end Row

theorem guarded_build (kind : NodeKind) (cs : List (Child Node))
    (supported : Staging.isSupported kind) (rule : Rule kind (cs.map Child.outline))
    (hk : kind ∉ [NodeKind.block, .identifier, .breakStatement, .continueStatement, .declarator,
      .forEachStatement])
    (parts : ∀ m ∈ cs.filterMap Child.node?, Guarded c inside known m) :
    Guarded c inside known (.build kind cs) := by
  simp only [List.mem_cons, List.not_mem_nil, or_false, not_or] at hk
  obtain ⟨hblock, hname, hbreak, hcontinue, hdeclarator, hloop⟩ := hk
  refine .plain supported rule hblock (fun h => absurd h hname)
    (fun h => absurd h (not_or.2 ⟨hbreak, hcontinue⟩))
    (fun h => absurd h (not_or.2 ⟨hdeclarator, hloop⟩)) fun m hm => ?_
  rw [Node.kind_build, beq_eq_false_iff_ne.2 hloop, Bool.or_false]
  exact parts m hm

theorem guarded_identifier {s : String} (h : c.watched s → s ∈ known) :
    Guarded c inside known (.identifier s) :=
  .plain rfl (.identifier rfl) (fun h => by cases h) (fun _ => h) (by rintro (h | h) <;> cases h)
    (by rintro (h | h) <;> cases h) (List.forall_mem_nil _)

theorem guardedPart_identifier {s : String} (h : c.watched s → s ∈ known) :
    GuardedPart c known (.identifier s) := ⟨rfl, guarded_identifier h⟩

theorem guardedPart_memberAccess {s t : String} (h : c.watched s → s ∈ known) :
    GuardedPart c known (.memberAccess (.identifier s) t) :=
  ⟨rfl, guarded_build .memberAccess [.node (.identifier s), .token (.ofName t)] rfl
    (.memberAccess rfl rfl) (by decide) (List.forall_mem_singleton.2 (guarded_identifier h))⟩

theorem guardedPart_text (s : String) : GuardedPart c known (.stringLiteral s) :=
  ⟨rfl, guarded_build .literal [.token (.detached .stringLiteral s)] rfl
    (.literal _ fun h => by cases h) (by decide) (List.forall_mem_nil _)⟩

theorem guardedPart_methodCall {s t : String} {arguments : List Node} (hs : c.watched s → s ∈ known)
    (h : ∀ q ∈ arguments, GuardedPart c known q) :
    GuardedPart c known (.methodCall s t arguments) := by
  refine ⟨rfl, guarded_build .invocation
    (.node (.memberAccess (.identifier s) t) :: arguments.map .node) rfl
    (rule_methodCall fun q hq => (h q hq).kind) (by decide) ?_⟩
  simpa [List.filterMap_map, Function.comp_def] using
    ⟨(guardedPart_memberAccess hs).guarded, fun q hq => (h q hq).guarded⟩

theorem guardedPart_closureCall {steps : List Node} (h : Row c false known steps) :
    GuardedPart c known (closureCall steps) :=
  ⟨rfl, .called (n := closureCall steps) rfl rfl rfl rfl rfl rfl rfl h.block⟩

theorem guarded_localDeclaration {s : String} {q : Node} (hs : c.allowed s)
    (h : GuardedPart c known q) :
    Guarded c inside known (.localDeclaration (.ofName s) (some q)) := by
  have declarator : Guarded c inside known (.declarator (.ofName s) (some q)) :=
    .plain rfl (.initialized rfl h.kind) (fun h => by cases h) (fun h => by cases h)
      (by rintro (h | h) <;> cases h) (fun _ => hs) (List.forall_mem_singleton.2 h.within)
  have rule : Rule .localDeclaration ([NodeKind.declarator].map .node) :=
    .localDeclaration (List.forall_mem_singleton.2 rfl)
  exact guarded_build .localDeclaration [.node (.declarator (.ofName s) (some q))] rfl rule
    (by decide) (List.forall_mem_singleton.2 declarator)

theorem guarded_expressionStatement {q : Node} (h : GuardedPart c known q) :
    Guarded c inside known (.expressionStatement q) :=
  guarded_build .expressionStatement [.node q] rfl (.expressionStatement h.kind) (by decide)
    (List.forall_mem_singleton.2 h.within)

theorem guarded_returnStatement {q : Node} (h : GuardedPart c known q) :
    Guarded c inside known (.returnStatement (some q)) :=
  guarded_build .returnStatement [.node q] rfl (.returning (.inl rfl) h.kind) (by decide)
    (List.forall_mem_singleton.2 h.within)

theorem guarded_ifStatement {condition : Node} {steps : List Node}
    (otherwise : Option (List Node)) (hc : GuardedPart c known condition)
    (h : Row c inside known steps)
    (ho : ∀ others, otherwise = some others → Row c inside known others) :
    Guarded c inside known (.ifStatement condition (.block steps) (otherwise.map .block)) := by
  cases otherwise with
  | none =>
    exact guarded_build .ifStatement [.node condition, .node (.block steps)] rfl
      (.ifStatement hc.kind rfl) (by decide)
      (List.forall_mem_cons.2 ⟨hc.within, List.forall_mem_singleton.2 h.block⟩)
  | some others =>
    have clause : Guarded c inside known (.build .elseClause [.node (.block others)]) :=
      guarded_build .elseClause [.node (.block others)] rfl (.elseClause rfl) (by decide)
        (List.forall_mem_singleton.2 (ho others rfl).block)
    exact guarded_build .ifStatement
      [.node condition, .node (.block steps), .node (.build .elseClause [.node (.block others)])]
      rfl (.ifElse hc.kind rfl) (by decide)
      (List.forall_mem_cons.2 ⟨hc.within, List.forall_mem_cons.2
        ⟨h.block, List.forall_mem_singleton.2 clause⟩⟩)

theorem guarded_forEachStatement {name : Token} {source : Node} {steps : List Node}
    (hn : name.kind = .identifier) (ha : c.allowed name.text) (hs : GuardedPart c known source)
    (h : Row c true known steps) :
    Guarded c inside known (.forEachStatement false name source (.block steps)) := by
  have named :
      (Node.forEachStatement false name source (.block steps)).nameOrEmpty = name.text := by
    simp [Node.nameOrEmpty, Node.name?, Node.tokenOfKind?, Node.tokens, Node.forEachStatement,
      Node.awaitToken, Node.build, hn]
  refine .plain rfl (.forEachStatement hn hs.kind rfl) (fun h => by cases h)
    (fun h => by cases h) (by rintro (h | h) <;> cases h) (fun _ => named.symm ▸ ha) ?_
  have parts : ∀ m ∈ [source, .block steps], Guarded c true known m :=
    List.forall_mem_cons.2 ⟨hs.within, List.forall_mem_singleton.2 h.block⟩
  have around : (inside || NodeKind.forEachStatement == .forEachStatement) = true :=
    Bool.or_true inside
  exact around.symm ▸ parts

/-! ## Careful templates -/

/-- A jump of generation time stands in the node, with no loop of the node around it. -/
inductive Loose : Node → Prop
  | jump {n : Node} (hk : n.kind = .breakStatement ∨ n.kind = .continueStatement)
    (stage : n.stage? = some .generationTime) : Loose n
  | inside {n m : Node} (hm : m ∈ n.nodes) (h : Loose m) (hk : n.kind ≠ .forEachStatement) : Loose n

/-- No jump stands in an expression. -/
theorem not_loose_of_isInert {n : Node} (laid : n.Laid)
    (supported : ∀ x ∈ n.preorder, Staging.isSupported x.kind) (hk : Staging.isInert n.kind) :
    ¬Loose n := by
  intro loose
  induction loose with
  | jump hjump => rcases hjump with hj | hj <;> rw [hj] at hk <;> cases hk
  | inside hm _ _ ih =>
    refine ih (laid.child hm) (fun x hx => supported x (Node.preorder_subset hm hx)) ?_
    exact Staging.isInert_below laid supported hk
      (Node.preorder_subset hm (Node.mem_preorder_self _))

/-- The branches of an `if`. -/
def branchesOf (n : Node) : List Node :=
  (n.node? 1).toList ++ ((n.nodeOfKind? .elseClause).bind (·.node? 0)).toList

/-- No jump of generation time stands in code that a closure may build, apart from its loop. -/
structure JumpsStay (root : Node) : Prop where
  outside : ∀ n ∈ root.nodes, ¬Loose n
  blocks : ∀ n ∈ root.preorder, n.kind = .block → ∀ m ∈ n.nodes, m.kind = .block → ¬Loose m
  conditions : ∀ n ∈ root.preorder, n.kind = .ifStatement → n.stage? ≠ some .generationTime →
    ¬Loose n
  loops : ∀ n ∈ root.preorder, n.kind = .forEachStatement → n.stage? ≠ some .generationTime →
    ∀ m ∈ n.nodes, ¬Loose m

/-- A generated local is referred to only inside the blocks and loops around its declaration, and
is not declared by itself in a branch of the generator's control flow. -/
structure LocalsStay (store : FactStore) (root : Node) : Prop where
  enclosed : ∀ x ∈ root.preorder, x.kind = .identifier → ∀ d ∈ root.preorder,
    d.kind = .declarator ∨ d.kind = .forEachStatement → ∀ v, store.symbol? x = some v →
    store.declared? d = some v → ∀ p ∈ root.preorder, p.kind = .block ∨ p.kind = .forEachStatement →
    d ∈ p.preorder → x ∈ p.preorder
  braced : ∀ n ∈ root.preorder, n.kind = .ifStatement → n.stage? = some .generationTime →
    ∀ m ∈ branchesOf n, m.kind = .localDeclaration → m.stage? = some .generationTime

/-- A classified template whose generator guards against `c`. -/
structure Careful (c : Concern) (store : FactStore) (root : Node) : Prop where
  rule : ∀ n ∈ root.preorder, Rule n.kind n.outline
  laid : root.Laid
  supported : ∀ n ∈ root.preorder, Staging.isSupported n.kind
  spliced : ∀ n ∈ root.preorder, n.hasMark .splice → n.kind.isExpression
  numbered : root.Numbered
  built : ∀ n ∈ root.preorder, n.kind = .block → n.stage? ≠ some .generationTime
  hosts : ∀ s ∈ ["Syntax", "Context", "TokenKind", "DeferredCallForm"], ¬c.watched s
  names : ∀ n ∈ root.preorder, ¬c.watched n.nameOrEmpty
  binders : ∀ n ∈ root.preorder, n.kind = .declarator ∨ n.kind = .forEachStatement →
    c.allowed n.nameOrEmpty
  accumulators : ∀ k, c.allowed (accumulatorName k)
  holders : ∀ hint k, c.allowed (holderName hint k)
  jumps : c.jumps = true → JumpsStay root
  locals : ∀ s, c.watched s → LocalsStay store root

variable {store : FactStore} {root : Node}

section

variable {n m : Node} (h : Careful c store root)

include h

theorem Careful.inert_below (hn : n ∈ root.preorder) (hk : Staging.isInert n.kind)
    (hm : m ∈ n.preorder) : Staging.isInert m.kind :=
  Staging.isInert_below (h.laid.below hn)
    (fun _ hx => h.supported _ (Node.preorder_trans hn hx)) hk hm

theorem Careful.not_loose_of_isInert (hn : n ∈ root.preorder) (hk : Staging.isInert n.kind) :
    ¬Loose n :=
  Stencil.Quotation.not_loose_of_isInert (h.laid.below hn)
    (fun _ hx => h.supported _ (Node.preorder_trans hn hx)) hk

/-- Below statements of these kinds there are no statements. -/
theorem Careful.inert_child (hn : n ∈ root.preorder)
    (hk : n.kind.isStatement ∨ n.kind = .declarator)
    (hne : n.kind ∉ [NodeKind.block, .ifStatement, .forEachStatement, .localDeclaration])
    (hm : m ∈ n.nodes) : Staging.isInert m.kind := by
  refine Staging.isInert_child (h.laid.below hn).here ?_ hm
  have supported := h.supported n hn
  generalize n.kind = k at hk hne supported
  revert hk hne supported
  cases k <;> decide

/-- Expressions are kept as they are. -/
theorem Careful.guarded_inert {inside : Bool} {n : Node} (hn : n ∈ root.preorder)
    (hk : Staging.isInert n.kind) : Guarded c inside known n := by
  refine .plain (h.supported n hn) (h.rule n hn) ?_ (fun _ hw => absurd hw (h.names n hn)) ?_ ?_
    fun m hm => ?_
  · rintro hkind
    rw [hkind] at hk
    cases hk
  · rintro (hkind | hkind) <;> rw [hkind] at hk <;> cases hk
  · rintro (hkind | hkind) <;> rw [hkind] at hk <;> cases hk
  · have := Node.size_lt_of_mem hm
    exact Careful.guarded_inert (Node.mem_preorder_of_mem_nodes hn hm)
      (h.inert_below hn hk (Node.preorder_subset hm m.mem_preorder_self))
termination_by n.size

theorem Careful.guardedPart (hn : n ∈ root.preorder) (hk : n.kind.isExpression) :
    GuardedPart c known n :=
  ⟨hk, h.guarded_inert hn (by simp [Staging.isInert, hk])⟩

/-- So are simple statements, if they do not leave the body. -/
theorem Careful.guarded_kept (hn : n ∈ root.preorder) (hs : n.kind.isStatement)
    (stage : n.stage? = some .generationTime)
    (hne : n.kind ≠ .ifStatement ∧ n.kind ≠ .forEachStatement)
    (stay : c.jumps = true → inside = false → ¬Loose n) : Guarded c inside known n := by
  have open_ : n.kind ≠ .block := fun hk => h.built n hn hk stage
  have same : (inside || n.kind == .forEachStatement) = inside := by
    rw [beq_eq_false_iff_ne.2 hne.2, Bool.or_false]
  refine .plain (h.supported n hn) (h.rule n hn) open_ (fun _ hw => absurd hw (h.names n hn))
    (fun hk hc => ?_) (h.binders n hn) fun m hm => ?_
  · by_contra hi
    exact stay hc (by simpa using hi) (.jump hk stage)
  have hm' := Node.mem_preorder_of_mem_nodes hn hm
  rw [same]
  by_cases hk : n.kind = .localDeclaration
  · have kind := (h.rule n hn).nodes_localDeclaration hk m hm
    refine .plain (h.supported m hm') (h.rule m hm') ?_ (fun _ hw => absurd hw (h.names m hm')) ?_
      (h.binders m hm') fun x hx => ?_
    · rw [kind]
      decide
    · rw [kind]
      rintro (hk | hk) <;> cases hk
    · refine h.guarded_inert (Node.mem_preorder_of_mem_nodes hm' hx)
        (h.inert_child hm' (.inr kind) ?_ hx)
      rw [kind]
      decide
  · exact h.guarded_inert hm' (h.inert_child hn (.inl hs) (by simp [*]) hm)

end

end Stencil.Quotation
