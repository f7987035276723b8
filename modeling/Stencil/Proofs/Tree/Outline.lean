import Mathlib.Data.List.Forall2
import Stencil.Staging.Classifier

/-!
# Outlines of nodes

The outline of a node is the list of its children with every child node reduced to its kind. The
passes over a tree number its nodes and mark them, but keep kinds and outlines, so what the outline
of a node says about the tree that was read it says about the tree of every later pass.

`Rule kind parts` is the grammar of outlines: which children a node of a kind may have.

Results:

* `Node.nodes_outline`, `Node.tokens_outline` – what the outline says about the children;
* `recast_number`, `recast_annotate`, `recast_stamp` – the passes keep kinds and outlines;
* `nodup_number` – numbering gives no number twice.
-/
namespace Stencil

/-- A child with only the kind of a child node. -/
def Child.outline : Child Node → Child NodeKind
  | .token t => .token t
  | .node n => .node n.kind

def Node.outline (n : Node) : List (Child NodeKind) := n.children.map Child.outline

namespace Node

theorem nodes_outline (n : Node) :
    n.nodes.map kind = n.outline.filterMap Child.node? := by
  simp only [nodes, outline, List.map_filterMap, List.filterMap_map]
  congr 1
  funext c
  cases c <;> rfl

theorem tokens_outline (n : Node) : n.tokens = n.outline.filterMap Child.token? := by
  simp only [tokens, outline, List.filterMap_map]
  congr 1
  funext c
  cases c <;> rfl

end Node

/-- The grammar of outlines. -/
inductive Rule : NodeKind → List (Child NodeKind) → Prop
  | compilationUnit {ks : List NodeKind} (hk : ∀ k ∈ ks, k = .template) :
    Rule .compilationUnit (ks.map .node)
  | routine {kind : NodeKind} (hkind : kind = .template ∨ kind = .localFunction) {name : Token}
    (hn : name.kind = .identifier) {ks : List NodeKind} (hk : ∀ k ∈ ks, k = .parameter) :
    Rule kind (.token name :: (ks ++ [NodeKind.block]).map .node)
  | parameter {name : Token} (hn : name.kind = .identifier) : Rule .parameter [.token name]
  | typedParameter {name : Token} (hn : name.kind = .identifier) :
    Rule .parameter [.node .typeName, .token name]
  | typeName {t : Token} (ht : t.kind = .typeName) : Rule .typeName [.token t]
  | block {ks : List NodeKind} (hk : ∀ k ∈ ks, k.isStatement) : Rule .block (ks.map .node)
  | localDeclaration {ks : List NodeKind} (hk : ∀ k ∈ ks, k = .declarator) :
    Rule .localDeclaration (ks.map .node)
  | declarator {name : Token} (hn : name.kind = .identifier) : Rule .declarator [.token name]
  | initialized {name : Token} (hn : name.kind = .identifier) {value : NodeKind}
    (hv : value.isExpression) : Rule .declarator [.token name, .node value]
  | expressionStatement {value : NodeKind} (hv : value.isExpression) :
    Rule .expressionStatement [.node value]
  | bare {kind : NodeKind} (hkind : kind ∈ [.emptyStatement, .breakStatement, .continueStatement,
      .yieldBreak, .this]) : Rule kind []
  | ifStatement {condition body : NodeKind} (hc : condition.isExpression)
    (hb : body.isStatement) : Rule .ifStatement [.node condition, .node body]
  | ifElse {condition body : NodeKind} (hc : condition.isExpression) (hb : body.isStatement) :
    Rule .ifStatement [.node condition, .node body, .node .elseClause]
  | elseClause {body : NodeKind} (hb : body.isStatement) : Rule .elseClause [.node body]
  | forEachStatement {name : Token} (hn : name.kind = .identifier) {source body : NodeKind}
    (hs : source.isExpression) (hb : body.isStatement) :
    Rule .forEachStatement [.token name, .node source, .node body]
  | awaitForEach {await name : Token} (ha : await.kind = .awaitKeyword)
    (hn : name.kind = .identifier) {source body : NodeKind} (hs : source.isExpression)
    (hb : body.isStatement) :
    Rule .forEachStatement [.token await, .token name, .node source, .node body]
  | guarded {kind : NodeKind} (hkind : kind = .whileStatement ∨ kind = .lockStatement)
    {subject body : NodeKind} (hs : subject.isExpression) (hb : body.isStatement) :
    Rule kind [.node subject, .node body]
  | doStatement {body condition : NodeKind} (hb : body.isStatement)
    (hc : condition.isExpression) : Rule .doStatement [.node body, .node condition]
  | forStatement {initializer condition increment body : NodeKind}
    (hi : initializer.isStatement)
    (hc : condition = .emptyStatement ∨ condition.isExpression)
    (hs : increment = .emptyStatement ∨ increment.isExpression) (hb : body.isStatement) :
    Rule .forStatement [.node initializer, .node condition, .node increment, .node body]
  | returnNothing : Rule .returnStatement []
  | returning {kind : NodeKind} (hkind : kind = .returnStatement ∨ kind = .yieldReturn)
    {value : NodeKind} (hv : value.isExpression) : Rule kind [.node value]
  | gotoStatement {label : Token} (hl : label.kind = .identifier) :
    Rule .gotoStatement [.token label]
  | switchStatement {subject : NodeKind} (hs : subject.isExpression) {ks : List NodeKind}
    (hk : ∀ k ∈ ks, k = .switchSection) : Rule .switchStatement ((subject :: ks).map .node)
  | caseSection {label : NodeKind} (hl : label.isExpression) {ks : List NodeKind}
    (hk : ∀ k ∈ ks, k.isStatement) : Rule .switchSection ((label :: ks).map .node)
  | defaultSection {label : Token} (hl : label.kind = .defaultKeyword) {ks : List NodeKind}
    (hk : ∀ k ∈ ks, k.isStatement) : Rule .switchSection (.token label :: ks.map .node)
  | usingStatement {body : NodeKind} (hb : body.isStatement) :
    Rule .usingStatement [.node .localDeclaration, .node body]
  | awaitUsing {await : Token} (ha : await.kind = .awaitKeyword) {body : NodeKind}
    (hb : body.isStatement) :
    Rule .usingStatement [.token await, .node .localDeclaration, .node body]
  | literal (t : Token) (ht : t.kind ≠ .identifier) : Rule .literal [.token t]
  | identifier {name : Token} (hn : name.kind = .identifier) : Rule .identifier [.token name]
  | operand {kind : NodeKind} (hkind : kind ∈ [.parenthesized, .await, .whereClause,
      .selectClause]) {k : NodeKind} (hk : k.isExpression) : Rule kind [.node k]
  | operation {kind : NodeKind} (hkind : kind = .binary ∨ kind = .assignment) {l r : NodeKind}
    (hl : l.isExpression) {operator : Token} (ho : operator.kind ≠ .identifier)
    (hr : r.isExpression) : Rule kind [.node l, .token operator, .node r]
  | unary {operator : Token} (ho : operator.kind ≠ .identifier) {k : NodeKind}
    (hk : k.isExpression) : Rule .unary [.token operator, .node k]
  | step {k : NodeKind} (hk : k.isExpression) {operator : Token}
    (ho : operator.kind ≠ .identifier) : Rule .step [.node k, .token operator]
  | conditional {c t f : NodeKind} (hc : c.isExpression) (ht : t.isExpression)
    (hf : f.isExpression) : Rule .conditional [.node c, .node t, .node f]
  | invocation {ks : List NodeKind} (hne : ks ≠ []) (hk : ∀ k ∈ ks, k.isExpression) :
    Rule .invocation (ks.map .node)
  | memberAccess {receiver : NodeKind} (hr : receiver.isExpression) {name : Token}
    (hn : name.kind = .identifier) : Rule .memberAccess [.node receiver, .token name]
  | elementAccess {receiver index : NodeKind} (hr : receiver.isExpression)
    (hi : index.isExpression) : Rule .elementAccess [.node receiver, .node index]
  | cast {k : NodeKind} (hk : k.isExpression) : Rule .cast [.node .typeName, .node k]
  | list {ks : List NodeKind} (hk : ∀ k ∈ ks, k.isExpression) : Rule .list (ks.map .node)
  | lambda {ks : List NodeKind} (hk : ∀ k ∈ ks, k = .parameter) {body : NodeKind}
    (hb : body = .block ∨ body.isExpression) : Rule .lambda ((ks ++ [body]).map .node)
  | query {name : Token} (hn : name.kind = .identifier) {source : NodeKind}
    (hs : source.isExpression) {ks : List NodeKind} (hk : ∀ k ∈ ks, k = .whereClause) :
    Rule .query (.token name :: (source :: ks ++ [NodeKind.selectClause]).map .node)

/-! ## What the grammar says about children -/

section

variable {n : Node}

/-- Kinds whose nodes have no child nodes. -/
def NodeKind.isLeaf : NodeKind → Bool
  | .literal | .identifier | .this | .emptyStatement | .breakStatement | .continueStatement
  | .yieldBreak | .gotoStatement | .typeName => true
  | _ => false

theorem Rule.nodes_leaf (h : Rule n.kind n.outline) (hk : n.kind.isLeaf) : n.nodes = [] := by
  have hkinds := n.nodes_outline
  rw [← List.map_eq_nil_iff (f := Node.kind), hkinds]
  generalize n.kind = k at h hk
  generalize n.outline = parts at h
  cases h with
  | routine hkind => rcases hkind with rfl | rfl <;> cases hk
  | guarded hkind => rcases hkind with rfl | rfl <;> cases hk
  | returning hkind => rcases hkind with rfl | rfl <;> cases hk
  | operation hkind => rcases hkind with rfl | rfl <;> cases hk
  | operand hkind =>
    simp only [List.mem_cons, List.not_mem_nil, or_false] at hkind
    rcases hkind with rfl | rfl | rfl | rfl <;> cases hk
  | _ => first | rfl | cases hk

theorem one_of_kinds {ns : List Node} {k : NodeKind} (h : ns.map Node.kind = [k]) :
    ∃ m, ns = [m] ∧ m.kind = k := by
  obtain ⟨m, rest, rfl, hk, hrest⟩ := List.map_eq_cons_iff.1 h
  cases List.map_eq_nil_iff.1 hrest
  exact ⟨m, rfl, hk⟩

theorem two_of_kinds {ns : List Node} {k k' : NodeKind} (h : ns.map Node.kind = [k, k']) :
    ∃ m m', ns = [m, m'] ∧ m.kind = k ∧ m'.kind = k' := by
  obtain ⟨m, rest, rfl, hk, hrest⟩ := List.map_eq_cons_iff.1 h
  obtain ⟨m', rfl, hk'⟩ := one_of_kinds hrest
  exact ⟨m, m', rfl, hk, hk'⟩

theorem three_of_kinds {ns : List Node} {k k' k'' : NodeKind}
    (h : ns.map Node.kind = [k, k', k'']) :
    ∃ m m' m'', ns = [m, m', m''] ∧ m.kind = k ∧ m'.kind = k' ∧ m''.kind = k'' := by
  obtain ⟨m, rest, rfl, hk, hrest⟩ := List.map_eq_cons_iff.1 h
  obtain ⟨m', m'', rfl, hk', hk''⟩ := two_of_kinds hrest
  exact ⟨m, m', m'', rfl, hk, hk', hk''⟩

theorem nodes_all_of_kinds {ks : List NodeKind} {P : NodeKind → Prop} (hk : ∀ k ∈ ks, P k)
    (h : n.nodes.map Node.kind = (ks.map Child.node).filterMap Child.node?) :
    ∀ m ∈ n.nodes, P m.kind := by
  intro m hm
  have := List.mem_map_of_mem (f := Node.kind) hm
  rw [h] at this
  exact hk _ (by simpa [List.filterMap_map, Function.comp_def] using this)

theorem Rule.nodes_compilationUnit (h : Rule n.kind n.outline) (hk : n.kind = .compilationUnit) :
    ∀ m ∈ n.nodes, m.kind = .template := by
  have hkinds := n.nodes_outline
  rw [hk] at h
  generalize n.outline = parts at h hkinds
  cases h with
  | compilationUnit hks => exact nodes_all_of_kinds hks hkinds
  | _ => simp_all

theorem Rule.nodes_template (h : Rule n.kind n.outline) (hk : n.kind = .template) :
    ∃ ps body, n.nodes = ps ++ [body] ∧ (∀ p ∈ ps, p.kind = .parameter) ∧ body.kind = .block := by
  have hkinds := n.nodes_outline
  rw [hk] at h
  generalize n.outline = parts at h hkinds
  cases h with
  | @routine _ _ _ _ ks hks =>
    have hkinds : n.nodes.map Node.kind = ks ++ [NodeKind.block] := by
      rw [hkinds, List.filterMap_cons_none rfl, List.filterMap_map]
      exact List.filterMap_some
    obtain ⟨ps, rest, hnodes, rfl, hrest⟩ := List.map_eq_append_iff.1 hkinds
    obtain ⟨body, rfl, hbody⟩ := one_of_kinds hrest
    exact ⟨ps, body, hnodes, fun p hp => hks _ (List.mem_map_of_mem hp), hbody⟩
  | _ => simp_all

theorem Rule.body_template (h : Rule n.kind n.outline) (hk : n.kind = .template) :
    ∃ body, n.nodeOfKind? .block = some body := by
  obtain ⟨ps, body, hnodes, hps, hbody⟩ := h.nodes_template hk
  have hfind : ps.find? (·.kind == .block) = none :=
    List.find?_eq_none.2 fun p hm => by simp [hps p hm]
  exact ⟨body, by simp [Node.nodeOfKind?, hnodes, List.find?_append, hfind, hbody]⟩

theorem Rule.nodes_block (h : Rule n.kind n.outline) (hk : n.kind = .block) :
    ∀ m ∈ n.nodes, m.kind.isStatement := by
  have hkinds := n.nodes_outline
  rw [hk] at h
  generalize n.outline = parts at h hkinds
  cases h with
  | block hks => exact nodes_all_of_kinds hks hkinds
  | _ => simp_all

theorem Rule.nodes_localDeclaration (h : Rule n.kind n.outline) (hk : n.kind = .localDeclaration) :
    ∀ m ∈ n.nodes, m.kind = .declarator := by
  have hkinds := n.nodes_outline
  rw [hk] at h
  generalize n.outline = parts at h hkinds
  cases h with
  | localDeclaration hks => exact nodes_all_of_kinds hks hkinds
  | _ => simp_all

theorem Rule.nodes_switchStatement (h : Rule n.kind n.outline) (hk : n.kind = .switchStatement) :
    ∀ m ∈ n.nodes.tail, m.kind = .switchSection := by
  have hkinds := n.nodes_outline
  rw [hk] at h
  generalize n.outline = parts at h hkinds
  cases h with
  | @switchStatement subject _ ks hks =>
    have hkinds : n.nodes.map Node.kind = subject :: ks := by
      rw [hkinds, List.filterMap_map]
      exact List.filterMap_some
    obtain ⟨m, rest, hnodes, _, rfl⟩ := List.map_eq_cons_iff.1 hkinds
    rw [hnodes]
    exact fun m hm => hks _ (List.mem_map_of_mem hm)
  | _ => simp_all

theorem Rule.nodes_returnStatement (h : Rule n.kind n.outline) (hk : n.kind = .returnStatement) :
    n.nodes = [] ∨ ∃ value, n.nodes = [value] ∧ value.kind.isExpression := by
  have hkinds := n.nodes_outline
  rw [hk] at h
  generalize n.outline = parts at h hkinds
  cases h with
  | returnNothing => exact .inl (List.map_eq_nil_iff.1 hkinds)
  | returning _ hv =>
    obtain ⟨value, hnodes, rfl⟩ := one_of_kinds hkinds
    exact .inr ⟨value, hnodes, hv⟩
  | _ => simp_all

theorem Rule.nodes_ifStatement (h : Rule n.kind n.outline) (hk : n.kind = .ifStatement) :
    ∃ condition body rest, n.nodes = condition :: body :: rest ∧ condition.kind.isExpression ∧
      body.kind.isStatement ∧ (rest = [] ∨ ∃ clause, rest = [clause] ∧ clause.kind = .elseClause) := by
  have hkinds := n.nodes_outline
  rw [hk] at h
  generalize n.outline = parts at h hkinds
  cases h with
  | ifStatement hc hb =>
    obtain ⟨condition, body, hnodes, rfl, rfl⟩ := two_of_kinds hkinds
    exact ⟨condition, body, [], hnodes, hc, hb, .inl rfl⟩
  | ifElse hc hb =>
    obtain ⟨condition, body, clause, hnodes, rfl, rfl, hclause⟩ := three_of_kinds hkinds
    exact ⟨condition, body, [clause], hnodes, hc, hb, .inr ⟨clause, rfl, hclause⟩⟩
  | _ => simp_all

theorem Rule.nodes_elseClause (h : Rule n.kind n.outline) (hk : n.kind = .elseClause) :
    ∃ body, n.nodes = [body] ∧ body.kind.isStatement := by
  have hkinds := n.nodes_outline
  rw [hk] at h
  generalize n.outline = parts at h hkinds
  cases h with
  | elseClause hb =>
    obtain ⟨body, hnodes, rfl⟩ := one_of_kinds hkinds
    exact ⟨body, hnodes, hb⟩
  | _ => simp_all

theorem Rule.nodes_usingStatement (h : Rule n.kind n.outline) (hk : n.kind = .usingStatement) :
    ∃ declared body, n.nodes = [declared, body] ∧ declared.kind = .localDeclaration := by
  have hkinds := n.nodes_outline
  rw [hk] at h
  generalize n.outline = parts at h hkinds
  cases h with
  | usingStatement | awaitUsing =>
    obtain ⟨declared, body, hnodes, hd, _⟩ := two_of_kinds hkinds
    exact ⟨declared, body, hnodes, hd⟩
  | _ => simp_all

theorem Rule.nodes_expressionStatement (h : Rule n.kind n.outline)
    (hk : n.kind = .expressionStatement) : ∃ e, n.nodes = [e] ∧ e.kind.isExpression := by
  have hkinds := n.nodes_outline
  rw [hk] at h
  generalize n.outline = parts at h hkinds
  cases h with
  | expressionStatement hv =>
    obtain ⟨e, hnodes, rfl⟩ := one_of_kinds hkinds
    exact ⟨e, hnodes, hv⟩
  | _ => simp_all

theorem Rule.nodes_memberAccess (h : Rule n.kind n.outline) (hk : n.kind = .memberAccess) :
    ∃ receiver, n.nodes = [receiver] ∧ receiver.kind.isExpression := by
  have hkinds := n.nodes_outline
  rw [hk] at h
  generalize n.outline = parts at h hkinds
  cases h with
  | memberAccess hr _ =>
    obtain ⟨receiver, hnodes, rfl⟩ := one_of_kinds hkinds
    exact ⟨receiver, hnodes, hr⟩
  | _ => simp_all

theorem Rule.nodes_declarator (h : Rule n.kind n.outline) (hk : n.kind = .declarator) :
    n.nodes = [] ∨ ∃ value, n.nodes = [value] ∧ value.kind.isExpression := by
  have hkinds := n.nodes_outline
  rw [hk] at h
  generalize n.outline = parts at h hkinds
  cases h with
  | declarator _ => exact .inl (List.map_eq_nil_iff.1 hkinds)
  | initialized _ hv =>
    obtain ⟨value, hnodes, rfl⟩ := one_of_kinds hkinds
    exact .inr ⟨value, hnodes, hv⟩
  | _ => simp_all

theorem Rule.nodes_forEach (h : Rule n.kind n.outline) (hk : n.kind = .forEachStatement) :
    ∃ source body, n.nodes = [source, body] ∧ source.kind.isExpression ∧ body.kind.isStatement := by
  have hkinds := n.nodes_outline
  rw [hk] at h
  generalize n.outline = parts at h hkinds
  cases h with
  | forEachStatement _ hs hb =>
    obtain ⟨source, body, hnodes, rfl, rfl⟩ := two_of_kinds hkinds
    exact ⟨source, body, hnodes, hs, hb⟩
  | awaitForEach _ _ hs hb =>
    obtain ⟨source, body, hnodes, rfl, rfl⟩ := two_of_kinds hkinds
    exact ⟨source, body, hnodes, hs, hb⟩
  | _ => simp_all

/-- What an `if` or `foreach` decides about, and what an `else` holds, is a statement. -/
theorem Rule.body_isStatement (h : Rule n.kind n.outline) {i : Nat} {m : Node}
    (hk : (n.kind = .ifStatement ∨ n.kind = .forEachStatement) ∧ i = 1 ∨
      n.kind = .elseClause ∧ i = 0) (hm : n.node? i = some m) : m.kind.isStatement := by
  have at_i : (n.outline.filterMap Child.node?)[i]? = some m.kind := by
    rw [← n.nodes_outline, List.getElem?_map]
    exact congrArg (Option.map Node.kind) hm
  generalize n.kind = k at h hk
  generalize n.outline = parts at h at_i
  rcases hk with ⟨rfl | rfl, rfl⟩ | ⟨rfl, rfl⟩ <;> cases h <;>
    first | contradiction | (cases at_i; assumption)

theorem Rule.typeName_of_cast (h : Rule n.kind n.outline) (hk : n.kind = .cast) {m : Node}
    (hm : n.node? 0 = some m) : m.kind = .typeName := by
  have hkinds := n.nodes_outline
  rw [hk] at h
  generalize n.outline = parts at h hkinds
  cases h with
  | cast _ =>
    obtain ⟨type, value, hnodes, ht, -⟩ := two_of_kinds hkinds
    rw [Node.node?, hnodes] at hm
    cases hm
    exact ht
  | _ => simp_all

/-- What a `return`, a declarator or an `if` starts with is an expression. -/
theorem Rule.first_isExpression (h : Rule n.kind n.outline)
    (hk : n.kind = .returnStatement ∨ n.kind = .declarator ∨ n.kind = .ifStatement) {c : Node}
    (hc : n.node? 0 = some c) : c.kind.isExpression := by
  have first : (n.outline.filterMap Child.node?).head? = some c.kind := by
    rw [← n.nodes_outline, List.head?_eq_getElem?, List.getElem?_map]
    exact congrArg (Option.map Node.kind) hc
  generalize n.kind = k at h hk
  generalize n.outline = parts at h first
  rcases hk with rfl | rfl | rfl <;> cases h <;> simp_all [List.findSome?_cons]

/-- What is assigned is an expression. -/
theorem Rule.value_isExpression (h : Rule n.kind n.outline) (hk : n.kind = .assignment) {c : Node}
    (hc : n.node? 1 = some c) : c.kind.isExpression := by
  have second : (n.outline.filterMap Child.node?)[1]? = some c.kind := by
    rw [← n.nodes_outline, List.getElem?_map]
    exact congrArg (Option.map Node.kind) hc
  rw [hk] at h
  generalize n.outline = parts at h second
  cases h with
  | operation _ _ _ hr =>
    cases second
    exact hr
  | operand hkind => simp at hkind
  | _ => simp_all

/-- The grammar gives the node exactly one name. -/
theorem Rule.name (h : Rule n.kind n.outline)
    (hk : n.kind = .parameter ∨ n.kind = .forEachStatement) :
    ∃ t ∈ n.tokens, t.kind = .identifier ∧ n.tokenOfKind? .identifier = some t := by
  have htokens := n.tokens_outline
  rw [Node.tokenOfKind?, htokens]
  generalize n.kind = k at h hk
  generalize n.outline = parts at h
  cases h with
  | routine hkind => rcases hkind with rfl | rfl <;> simp at hk
  | guarded hkind => rcases hkind with rfl | rfl <;> simp at hk
  | returning hkind => rcases hkind with rfl | rfl <;> simp at hk
  | operation hkind => rcases hkind with rfl | rfl <;> simp at hk
  | bare hkind => rcases hk with rfl | rfl <;> simp at hkind
  | operand hkind => rcases hk with rfl | rfl <;> simp at hkind
  | parameter hn => simp [hn]
  | typedParameter hn => simp [hn]
  | forEachStatement hn => simp [hn]
  | awaitForEach ha hn => simp [ha, hn]
  | _ => simp at hk

end

/-! ## Passes -/

/-- Two trees that differ in what `P` allows, but not in kinds and outlines. -/
def Recast (P : Node → Node → Prop) (n n' : Node) : Prop :=
  List.Forall₂ (fun m m' => m'.kind = m.kind ∧ m'.outline = m.outline ∧ P m m')
    n.preorder n'.preorder

/-- The same for the children of a node. -/
def RecastAll (P : Node → Node → Prop) (cs cs' : List (Child Node)) : Prop :=
  cs'.map Child.outline = cs.map Child.outline ∧
    List.Forall₂ (fun m m' => m'.kind = m.kind ∧ m'.outline = m.outline ∧ P m m')
      (Node.preorderAll cs) (Node.preorderAll cs')

variable {P : Node → Node → Prop}

theorem Recast.of_children {n n' : Node} (hk : n'.kind = n.kind)
    (hc : RecastAll P n.children n'.children) (hp : P n n') : Recast P n n' := by
  unfold Recast
  rw [Node.preorder_eq, Node.preorder_eq]
  exact .cons ⟨hk, hc.1, hp⟩ hc.2

theorem RecastAll.nil : RecastAll P [] [] := ⟨rfl, by simp [Node.preorderAll]⟩

theorem RecastAll.token {t : Token} {cs cs' : List (Child Node)} (h : RecastAll P cs cs') :
    RecastAll P (.token t :: cs) (.token t :: cs') := by
  refine ⟨by rw [List.map_cons, List.map_cons, h.1], ?_⟩
  rw [Node.preorderAll, Node.preorderAll]
  exact h.2

theorem Recast.kind {n n' : Node} (h : Recast P n n') : n'.kind = n.kind := by
  unfold Recast at h
  rw [Node.preorder_eq, Node.preorder_eq] at h
  cases h with
  | cons h _ => exact h.1

/-- The nodes below the root correspond as well. -/
theorem Recast.below {n n' : Node} (h : Recast P n n') :
    List.Forall₂ (fun m m' => m'.kind = m.kind ∧ m'.outline = m.outline ∧ P m m')
      (Node.preorderAll n.children) (Node.preorderAll n'.children) := by
  unfold Recast at h
  rw [Node.preorder_eq, Node.preorder_eq] at h
  exact (List.forall₂_cons.1 h).2

theorem RecastAll.node {n n' : Node} {cs cs' : List (Child Node)} (hn : Recast P n n')
    (h : RecastAll P cs cs') : RecastAll P (.node n :: cs) (.node n' :: cs') := by
  refine ⟨by rw [List.map_cons, List.map_cons, h.1, Child.outline, Child.outline, hn.kind], ?_⟩
  rw [Node.preorderAll, Node.preorderAll]
  exact List.rel_append hn h.2

theorem mem_of_forall₂ {α β : Type} {R : α → β → Prop} {xs : List α} {ys : List β}
    (h : List.Forall₂ R xs ys) :
    (∀ x ∈ xs, ∃ y ∈ ys, R x y) ∧ ∀ y ∈ ys, ∃ x ∈ xs, R x y := by
  induction h with
  | nil => simp
  | cons hr _ ih =>
    refine ⟨List.forall_mem_cons.2 ⟨⟨_, List.mem_cons_self, hr⟩, fun x hx => ?_⟩,
      List.forall_mem_cons.2 ⟨⟨_, List.mem_cons_self, hr⟩, fun y hy => ?_⟩⟩
    · obtain ⟨y, hy, hr⟩ := ih.1 x hx
      exact ⟨y, List.mem_cons_of_mem _ hy, hr⟩
    · obtain ⟨x, hx, hr⟩ := ih.2 y hy
      exact ⟨x, List.mem_cons_of_mem _ hx, hr⟩

/-- Every node after a pass comes from a node before it. -/
theorem Recast.source {n n' m' : Node} (h : Recast P n n') (hm : m' ∈ n'.preorder) :
    ∃ m ∈ n.preorder, m'.kind = m.kind ∧ m'.outline = m.outline ∧ P m m' :=
  (mem_of_forall₂ h).2 m' hm

/-- The same for the nodes below the children of a node. -/
theorem RecastAll.source {cs cs' : List (Child Node)} {m' : Node} (h : RecastAll P cs cs')
    (hm : m' ∈ Node.preorderAll cs') :
    ∃ m ∈ Node.preorderAll cs, m'.kind = m.kind ∧ m'.outline = m.outline ∧ P m m' :=
  (mem_of_forall₂ h.2).2 m' hm

/-- A pass that keeps the number of each node keeps their order. -/
theorem Recast.ids {n n' : Node} (h : Recast P n n') (hp : ∀ m m', P m m' → m'.id = m.id) :
    n'.preorder.map Node.id = n.preorder.map Node.id := by
  unfold Recast at h
  generalize n.preorder = xs at h
  generalize n'.preorder = ys at h
  induction h with
  | nil => rfl
  | cons hxy _ ih => rw [List.map_cons, List.map_cons, hp _ _ hxy.2.2, ih]

mutual

theorem recast_number (next : Nat) : (n : Node) →
    Recast (fun m m' => m'.marks = m.marks) n (n.number next).1
  | ⟨id, kind, span, marks, children⟩ => by
    rw [Node.number]
    exact .of_children rfl (recastAll_numberAll next children) rfl

theorem recastAll_numberAll (next : Nat) : (cs : List (Child Node)) →
    RecastAll (fun m m' => m'.marks = m.marks) cs (Node.numberAll next cs).1
  | [] => by
    rw [Node.numberAll]
    exact .nil
  | .token t :: rest => by
    rw [Node.numberAll]
    exact .token (recastAll_numberAll next rest)
  | .node n :: rest => by
    rw [Node.numberAll]
    exact .node (recast_number next n) (recastAll_numberAll (n.number next).2 rest)

end

/-- A stage leaves the other marks of a node. -/
theorem Node.hasMark_setStage {m : Mark} (h : Node.isStageMark m = false) (s : Stage) (n : Node) :
    (n.setStage s).hasMark m = n.hasMark m := by
  have apart : m ≠ .stage s := by
    rintro rfl
    cases h
  unfold Node.setStage
  split
  · rfl
  · rw [Bool.eq_iff_iff]
    simp [Node.hasMark, h, apart]

/-- A key changes only the marks of a node. -/
theorem stamp_keeps (resolve : Node → Facts) (s : FactStore) (n : Node) :
    (FactStore.stamp resolve s n).1.kind = n.kind ∧
      (FactStore.stamp resolve s n).1.children = n.children ∧
      (FactStore.stamp resolve s n).1.id = n.id ∧
      (FactStore.stamp resolve s n).1.stage? = n.stage? ∧
      (FactStore.stamp resolve s n).1.hasMark .splice = n.hasMark .splice := by
  unfold FactStore.stamp
  split
  · exact ⟨rfl, rfl, rfl, rfl, rfl⟩
  · exact ⟨n.kind_mark _, n.children_mark _, n.id_mark _, n.stage?_mark rfl, by
      simp [Node.hasMark_mark]⟩

mutual

theorem recast_annotate (resolve : Node → Facts) (s : FactStore) : (n : Node) →
    Recast (fun m m' => m'.id = m.id ∧ m'.stage? = m.stage? ∧
      m'.hasMark .splice = m.hasMark .splice) n (s.annotate resolve n).1
  | ⟨id, kind, span, marks, children⟩ => by
    rw [FactStore.annotate]
    obtain ⟨hk, hc, hkeep⟩ := stamp_keeps resolve (s.annotateAll resolve children).2
      ⟨id, kind, span, marks, (s.annotateAll resolve children).1⟩
    refine .of_children hk ?_ hkeep
    rw [hc]
    exact recastAll_annotateAll resolve s children

theorem recastAll_annotateAll (resolve : Node → Facts) (s : FactStore) :
    (cs : List (Child Node)) →
    RecastAll (fun m m' => m'.id = m.id ∧ m'.stage? = m.stage? ∧
      m'.hasMark .splice = m.hasMark .splice) cs (s.annotateAll resolve cs).1
  | [] => by
    rw [FactStore.annotateAll]
    exact .nil
  | .token t :: rest => by
    rw [FactStore.annotateAll]
    exact .token (recastAll_annotateAll resolve s rest)
  | .node n :: rest => by
    rw [FactStore.annotateAll]
    exact .node (recast_annotate resolve s n)
      (recastAll_annotateAll resolve (s.annotate resolve n).2 rest)

end

open Staging in
mutual

theorem recast_stamp (st : State) (inherited : Stage) : (n : Node) →
    Recast (fun m m' => m'.id = m.id ∧
      (m'.hasMark .splice → m.hasMark .splice ∨ m.id ∈ st.splices) ∧
      ∀ s, st.stages.lookup m.id = some s → m'.stage? = some s) n (stamp st inherited n)
  | ⟨id, kind, span, marks, children⟩ => by
    rw [stamp]
    refine .of_children ?_ ?_ ⟨?_, ?_, fun s hs => ?_⟩
    · split <;> simp
    · split <;> simpa using recastAll_stampAll st _ children
    · split <;> simp
    · split
      · next h => exact fun _ => .inr (by simpa using h)
      · intro h
        rw [Node.hasMark_setStage (by rfl)] at h
        exact .inl h
    · have decided : st.stages.lookup id = some s := hs
      split
      · rw [Node.stage?_mark rfl, Node.stage?_setStage, decided]
        rfl
      · rw [Node.stage?_setStage, decided]
        rfl

theorem recastAll_stampAll (st : State) (inherited : Stage) : (cs : List (Child Node)) →
    RecastAll (fun m m' => m'.id = m.id ∧
      (m'.hasMark .splice → m.hasMark .splice ∨ m.id ∈ st.splices) ∧
      ∀ s, st.stages.lookup m.id = some s → m'.stage? = some s) cs (stampAll st inherited cs)
  | [] => by
    rw [stampAll]
    exact .nil
  | .token t :: rest => by
    rw [stampAll]
    exact .token (recastAll_stampAll st inherited rest)
  | .node n :: rest => by
    rw [stampAll]
    exact .node (recast_stamp st inherited n) (recastAll_stampAll st inherited rest)

end

/-! ## Numbers -/

mutual

theorem nodup_number (next : Nat) : (n : Node) →
    next < (n.number next).2 ∧ ((n.number next).1.preorder.map Node.id).Nodup ∧
      ∀ m ∈ (n.number next).1.preorder, next ≤ m.id ∧ m.id < (n.number next).2
  | ⟨id, kind, span, marks, children⟩ => by
    obtain ⟨hle, hnodup, hin⟩ := nodup_numberAll next children
    rw [Node.number, Node.preorder_eq]
    refine ⟨Nat.lt_succ_of_le hle, List.nodup_cons.2 ⟨?_, hnodup⟩, ?_⟩
    · intro h
      obtain ⟨m, hm, hid⟩ := List.mem_map.1 h
      exact Nat.ne_of_lt (hin m hm).2 hid
    · intro m hm
      rcases List.mem_cons.1 hm with rfl | hm
      · exact ⟨hle, Nat.lt_succ_self _⟩
      · exact ⟨(hin m hm).1, Nat.lt_succ_of_lt (hin m hm).2⟩

theorem nodup_numberAll (next : Nat) : (cs : List (Child Node)) →
    next ≤ (Node.numberAll next cs).2 ∧
      ((Node.preorderAll (Node.numberAll next cs).1).map Node.id).Nodup ∧
      ∀ m ∈ Node.preorderAll (Node.numberAll next cs).1,
        next ≤ m.id ∧ m.id < (Node.numberAll next cs).2
  | [] => by simp [Node.numberAll, Node.preorderAll]
  | .token t :: rest => by
    rw [Node.numberAll]
    simpa only [Node.preorderAll] using nodup_numberAll next rest
  | .node n :: rest => by
    obtain ⟨hlt, hnodup, hin⟩ := nodup_number next n
    obtain ⟨hle, hnodup', hin'⟩ := nodup_numberAll (n.number next).2 rest
    rw [Node.numberAll]
    simp only [Node.preorderAll, List.map_append]
    refine ⟨Nat.le_trans (Nat.le_of_lt hlt) hle, List.nodup_append.2 ⟨hnodup, hnodup', ?_⟩, ?_⟩
    · intro a ha b hb
      obtain ⟨m, hm, rfl⟩ := List.mem_map.1 ha
      obtain ⟨m', hm', rfl⟩ := List.mem_map.1 hb
      have := (hin m hm).2
      have := (hin' m' hm').1
      omega
    · intro m hm
      rcases List.mem_append.1 hm with hm | hm
      · exact ⟨(hin m hm).1, Nat.lt_of_lt_of_le (hin m hm).2 hle⟩
      · exact ⟨Nat.le_trans (Nat.le_of_lt hlt) (hin' m hm).1, (hin' m hm).2⟩

end

end Stencil
