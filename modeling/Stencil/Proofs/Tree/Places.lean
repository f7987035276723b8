import Stencil.Proofs.Tree.Outline

/-!
# The layout of nodes

The comment on a kind of nodes says which children its nodes have. `places` is what these comments
say, place by place, and `Fills` compares it with the outline of a node. A tree is laid out if every
node of it fits its kind.

Results:

* `Rule.fills` – what follows the grammar is laid out;
* `Fills.exchange` – where a kind only asks for the sort of its children, a child can be exchanged
  for one of its sort;
* `exists_node?` – no required child of a laid out node is missing;
* `Recast.laid` – numbers and marks do not count.
-/
namespace Stencil

/-- What a place among the children of a node takes. -/
inductive Slot where
  | token (kind : TokenKind)
  /-- the token of a literal -/
  | literal
  /-- the token of an operator -/
  | operator
  | node (kind : NodeKind)
  | expression
  | statement
  /-- the value of a section, or `default` -/
  | label
  /-- what a `for` starts with, perhaps nothing -/
  | initializer
  /-- an expression, or nothing -/
  | part
  /-- a block or an expression -/
  | body
deriving DecidableEq, Repr

def Slot.admits : Slot → Child NodeKind → Bool
  | .token kind, .token t => t.kind == kind
  | .literal, .token t => t.kind.isLiteral
  | .operator, .token t => TokenKind.operators.contains t.kind
  | .node kind, .node k => k == kind
  | .expression, .node k => k.isExpression
  | .statement, .node k => k.isStatement
  | .label, .token t => t.kind == .defaultKeyword
  | .label, .node k => k.isExpression
  | .initializer, .node k =>
    [NodeKind.emptyStatement, .localDeclaration, .expressionStatement].contains k
  | .part, .node k => k == .emptyStatement || k.isExpression
  | .body, .node k => k == .block || k.isExpression
  | _, _ => false

/-- Some children in a row. -/
inductive Place where
  | one (s : Slot)
  | optional (s : Slot)
  | many (s : Slot)
deriving DecidableEq, Repr

def Place.slot : Place → Slot
  | one s | optional s | many s => s

/-- The children of the nodes of each kind, in order. -/
def places : NodeKind → List Place
  | .compilationUnit => [.many (.node .template)]
  | .template | .localFunction =>
    [.one (.token .identifier), .many (.node .parameter), .one (.node .block)]
  | .parameter => [.optional (.node .typeName), .one (.token .identifier)]
  | .typeName => [.one (.token .typeName)]
  | .block => [.many .statement]
  | .localDeclaration => [.one (.node .declarator), .many (.node .declarator)]
  | .declarator => [.one (.token .identifier), .optional .expression]
  | .ifStatement => [.one .expression, .one .statement, .optional (.node .elseClause)]
  | .elseClause => [.one .statement]
  | .forEachStatement =>
    [.optional (.token .awaitKeyword), .one (.token .identifier), .one .expression,
     .one .statement]
  | .whileStatement | .lockStatement => [.one .expression, .one .statement]
  | .doStatement => [.one .statement, .one .expression]
  | .forStatement => [.one .initializer, .one .part, .one .part, .one .statement]
  | .returnStatement => [.optional .expression]
  | .switchStatement => [.one .expression, .many (.node .switchSection)]
  | .switchSection => [.one .label, .many .statement]
  | .usingStatement =>
    [.optional (.token .awaitKeyword), .one (.node .localDeclaration), .one .statement]
  | .literal => [.one .literal]
  | .identifier | .gotoStatement => [.one (.token .identifier)]
  | .emptyStatement | .breakStatement | .continueStatement | .yieldBreak | .this => []
  | .expressionStatement | .yieldReturn | .parenthesized | .await | .whereClause
  | .selectClause => [.one .expression]
  | .binary | .assignment => [.one .expression, .one .operator, .one .expression]
  | .unary => [.one .operator, .one .expression]
  | .step => [.one .expression, .one .operator]
  | .conditional => [.one .expression, .one .expression, .one .expression]
  | .invocation => [.one .expression, .many .expression]
  | .memberAccess => [.one .expression, .one (.token .identifier)]
  | .elementAccess => [.one .expression, .one .expression]
  | .cast => [.one (.node .typeName), .one .expression]
  | .list => [.many .expression]
  | .lambda => [.many (.node .parameter), .one .body]
  | .query =>
    [.one (.token .identifier), .one .expression, .optional (.node .whereClause),
     .one (.node .selectClause)]

/-- The children of an outline are those of the places, in order. -/
inductive Fills : List Place → List (Child NodeKind) → Prop
  | nil : Fills [] []
  | one {s : Slot} {ps : List Place} {c : Child NodeKind} {cs : List (Child NodeKind)}
    (here : s.admits c) (rest : Fills ps cs) : Fills (.one s :: ps) (c :: cs)
  | given {s : Slot} {ps : List Place} {c : Child NodeKind} {cs : List (Child NodeKind)}
    (here : s.admits c) (rest : Fills ps cs) : Fills (.optional s :: ps) (c :: cs)
  | omitted {s : Slot} {ps : List Place} {cs : List (Child NodeKind)} (rest : Fills ps cs) :
    Fills (.optional s :: ps) cs
  | more {s : Slot} {ps : List Place} {c : Child NodeKind} {cs : List (Child NodeKind)}
    (here : s.admits c) (rest : Fills (.many s :: ps) cs) : Fills (.many s :: ps) (c :: cs)
  | enough {s : Slot} {ps : List Place} {cs : List (Child NodeKind)} (rest : Fills ps cs) :
    Fills (.many s :: ps) cs

/-- The node has the children that its kind asks for. -/
def Node.FitsKind (n : Node) : Prop := Fills (places n.kind) n.outline

/-- Every node of the tree has the children that its kind asks for. -/
def Node.Laid (n : Node) : Prop := ∀ m ∈ n.preorder, m.FitsKind

section

variable {s : Slot} {ps : List Place} {c : Child NodeKind} {cs : List (Child NodeKind)}

theorem admits_token {kind : TokenKind} :
    (Slot.token kind).admits c ↔ ∃ t, c = .token t ∧ t.kind = kind := by
  cases c <;> simp [Slot.admits]

theorem admits_node {kind : NodeKind} : (Slot.node kind).admits c ↔ c = .node kind := by
  cases c <;> simp [Slot.admits]

theorem admits_expression : Slot.expression.admits c ↔ ∃ k, c = .node k ∧ k.isExpression := by
  cases c <;> simp [Slot.admits]

theorem admits_statement : Slot.statement.admits c ↔ ∃ k, c = .node k ∧ k.isStatement := by
  cases c <;> simp [Slot.admits]

theorem admits_named {kind : TokenKind} {t : Token} (h : t.kind = kind) :
    (Slot.token kind).admits (.token t) :=
  admits_token.2 ⟨t, rfl, h⟩

theorem admits_kind {kind k : NodeKind} (h : k = kind) : (Slot.node kind).admits (.node k) :=
  admits_node.2 (congrArg _ h)

theorem fills_nil : Fills [] cs ↔ cs = [] := by
  constructor
  · intro h
    cases h
    rfl
  · rintro rfl
    exact .nil

theorem fills_one :
    Fills (.one s :: ps) cs ↔ ∃ c rest, cs = c :: rest ∧ s.admits c ∧ Fills ps rest := by
  constructor
  · intro h
    cases h with
    | one here rest => exact ⟨_, _, rfl, here, rest⟩
  · rintro ⟨c, rest, rfl, here, hrest⟩
    exact .one here hrest

theorem fills_optional : Fills (.optional s :: ps) cs ↔
    (∃ c rest, cs = c :: rest ∧ s.admits c ∧ Fills ps rest) ∨ Fills ps cs := by
  constructor
  · intro h
    cases h with
    | given here rest => exact .inl ⟨_, _, rfl, here, rest⟩
    | omitted rest => exact .inr rest
  · rintro (⟨c, rest, rfl, here, hrest⟩ | rest)
    · exact .given here hrest
    · exact .omitted rest

theorem fills_many : Fills (.many s :: ps) cs ↔
    ∃ front rest, cs = front ++ rest ∧ (∀ c ∈ front, s.admits c) ∧ Fills ps rest := by
  constructor
  · intro h
    generalize hps : Place.many s :: ps = all at h
    induction h with
    | more here _ ih =>
      cases hps
      obtain ⟨front, rest, rfl, hfront, hrest⟩ := ih rfl
      exact ⟨_ :: front, rest, rfl, List.forall_mem_cons.2 ⟨here, hfront⟩, hrest⟩
    | enough rest =>
      cases hps
      exact ⟨[], _, rfl, nofun, rest⟩
    | _ => cases hps
  · rintro ⟨front, rest, rfl, hfront, hrest⟩
    induction front with
    | nil => exact .enough hrest
    | cons c front ih =>
      obtain ⟨hc, hfront⟩ := List.forall_mem_cons.1 hfront
      exact .more hc (ih hfront)

/-- Nodes of one sort, and what comes after them. -/
theorem Fills.nodes {ks : List NodeKind} (hk : ∀ k ∈ ks, s.admits (.node k)) (h : Fills ps cs) :
    Fills (.many s :: ps) (ks.map .node ++ cs) :=
  fills_many.2 ⟨_, _, rfl, by simpa using hk, h⟩

/-- Any number of nodes of one sort. -/
theorem Fills.all {ks : List NodeKind} (h : ∀ k ∈ ks, s.admits (.node k)) :
    Fills [.many s] (ks.map .node) := by
  simpa using Fills.nodes h .nil

/-- What all slots ask of a node holds of all child nodes. -/
theorem Fills.forall_node {P : NodeKind → Prop} (h : Fills ps cs)
    (hp : ∀ p ∈ ps, ∀ k, p.slot.admits (.node k) → P k) : ∀ k, .node k ∈ cs → P k := by
  induction h with
  | nil => exact fun k hk => nomatch hk
  | one here _ ih | given here _ ih =>
    obtain ⟨hs, hp⟩ := List.forall_mem_cons.1 hp
    intro k hk
    rcases List.mem_cons.1 hk with rfl | hk
    · exact hs k here
    · exact ih hp k hk
  | more here _ ih =>
    intro k hk
    rcases List.mem_cons.1 hk with rfl | hk
    · exact hp _ List.mem_cons_self k here
    · exact ih hp k hk
  | omitted _ ih | enough _ ih => exact ih (List.forall_mem_cons.1 hp).2

end

/-! ## Outlines of the grammar -/

/-- What the rules for outlines leave open and the comments on the kinds do not. -/
def Exact (kind : NodeKind) (cs : List (Child NodeKind)) : Prop :=
  match kind with
  | .literal => ∀ t, .token t ∈ cs → t.kind.isLiteral
  | .binary | .assignment | .unary | .step => ∀ t, .token t ∈ cs → t.kind ∈ TokenKind.operators
  | .localDeclaration => cs ≠ []
  | .forStatement => ∀ k, cs.head? = some (.node k) →
      k ∈ [NodeKind.emptyStatement, .localDeclaration, .expressionStatement]
  | .query => cs.length ≤ 4
  | _ => True

/-- An outline of the grammar has the places that the kind asks for. -/
theorem Rule.fills {kind : NodeKind} {cs : List (Child NodeKind)} (h : Rule kind cs)
    (hx : Exact kind cs) : Fills (places kind) cs := by
  cases h with
  | compilationUnit hk => exact .all fun k hm => admits_kind (hk k hm)
  | routine hkind hn hk =>
    have body : Fills [.one (.node .block)] [.node .block] := .one (admits_kind rfl) .nil
    have parameters := Fills.nodes (fun k hm => admits_kind (hk k hm)) body
    rw [List.map_append]
    rcases hkind with rfl | rfl <;> exact .one (admits_named hn) parameters
  | parameter hn => exact .omitted (.one (admits_named hn) .nil)
  | typedParameter hn => exact .given rfl (.one (admits_named hn) .nil)
  | typeName ht => exact .one (admits_named ht) .nil
  | block hk => exact .all hk
  | @localDeclaration ks hk =>
    cases ks with
    | nil => exact absurd rfl hx
    | cons k ks =>
      obtain ⟨hk, hks⟩ := List.forall_mem_cons.1 hk
      exact .one (admits_kind hk) (.all fun k hm => admits_kind (hks k hm))
  | declarator hn => exact .one (admits_named hn) (.omitted .nil)
  | initialized hn hv => exact .one (admits_named hn) (.given hv .nil)
  | expressionStatement hv => exact .one hv .nil
  | bare hkind =>
    simp only [List.mem_cons, List.not_mem_nil, or_false] at hkind
    rcases hkind with rfl | rfl | rfl | rfl | rfl <;> exact .nil
  | ifStatement hc hb => exact .one hc (.one hb (.omitted .nil))
  | ifElse hc hb => exact .one hc (.one hb (.given rfl .nil))
  | elseClause hb => exact .one hb .nil
  | forEachStatement hn hs hb =>
    exact .omitted (.one (admits_named hn) (.one hs (.one hb .nil)))
  | awaitForEach ha hn hs hb =>
    exact .given (admits_named ha)
      (.one (admits_named hn) (.one hs (.one hb .nil)))
  | guarded hkind hs hb => rcases hkind with rfl | rfl <;> exact .one hs (.one hb .nil)
  | doStatement hb hc => exact .one hb (.one hc .nil)
  | @forStatement first _ _ _ hi hc hs hb =>
    have optional {k : NodeKind} (h : k = .emptyStatement ∨ k.isExpression) :
        Slot.part.admits (.node k) := by
      simpa [Slot.admits] using h
    have start : Slot.initializer.admits (.node first) := by
      simpa [Slot.admits] using hx first rfl
    exact .one start (.one (optional hc) (.one (optional hs) (.one hb .nil)))
  | returnNothing => exact .omitted .nil
  | returning hkind hv =>
    rcases hkind with rfl | rfl
    · exact .given hv .nil
    · exact .one hv .nil
  | gotoStatement hl => exact .one (admits_named hl) .nil
  | switchStatement hs hk =>
    exact .one hs (.all fun k hm => admits_kind (hk k hm))
  | caseSection hl hk => exact .one hl (.all hk)
  | defaultSection hl hk => exact .one (admits_named hl) (.all hk)
  | usingStatement hb => exact .omitted (.one rfl (.one hb .nil))
  | awaitUsing ha hb => exact .given (admits_named ha) (.one rfl (.one hb .nil))
  | literal t => exact .one (hx t List.mem_cons_self) .nil
  | identifier hn => exact .one (admits_named hn) .nil
  | operand hkind hk =>
    simp only [List.mem_cons, List.not_mem_nil, or_false] at hkind
    rcases hkind with rfl | rfl | rfl | rfl <;> exact .one hk .nil
  | @operation _ hkind _ _ hl operator ho hr =>
    have isOperator : Slot.operator.admits (.token operator) := by
      rcases hkind with rfl | rfl <;> simpa [Exact, Slot.admits] using hx
    rcases hkind with rfl | rfl <;> exact .one hl (.one isOperator (.one hr .nil))
  | unary ho hk => exact .one (by simpa [Exact, Slot.admits] using hx) (.one hk .nil)
  | step hk ho => exact .one hk (.one (by simpa [Exact, Slot.admits] using hx) .nil)
  | conditional hc ht hf => exact .one hc (.one ht (.one hf .nil))
  | @invocation ks hne hk =>
    cases ks with
    | nil => exact absurd rfl hne
    | cons k ks =>
      obtain ⟨hk, hks⟩ := List.forall_mem_cons.1 hk
      exact .one hk (.all hks)
  | memberAccess hr hn => exact .one hr (.one (admits_named hn) .nil)
  | elementAccess hr hi => exact .one hr (.one hi .nil)
  | cast hk => exact .one rfl (.one hk .nil)
  | list hk => exact .all hk
  | lambda hk hb =>
    rw [List.map_append]
    exact Fills.nodes (fun k hm => admits_kind (hk k hm))
      (.one (by simpa [Slot.admits] using hb) .nil)
  | @query _ hn _ hs ks hk =>
    have select : Fills [.one (.node .selectClause)] [.node .selectClause] :=
      .one (admits_kind rfl) .nil
    match ks, hk, hx with
    | [], _, _ => exact .one (admits_named hn) (.one hs (.omitted select))
    | [filter], hk, _ =>
      exact .one (admits_named hn) (.one hs (.given (admits_kind (hk filter (by simp))) select))
    | _ :: _ :: _, _, hx =>
      simp only [Exact, List.length_cons, List.length_map, List.length_append, List.length_nil]
        at hx
      omega

/-! ## Exchanging children -/

/-- A child that may stand where the other stands: the same kind of token or node, another
expression for an expression, another statement for a statement that is not a block. -/
def Child.StandsFor : Child NodeKind → Child NodeKind → Prop
  | .token t, .token t' => t'.kind = t.kind
  | .node k, .node k' =>
    k' = k ∨ (k.isExpression ∧ k'.isExpression) ∨ (k.isStatement ∧ k ≠ .block ∧ k'.isStatement)
  | _, _ => False

/-- Whether the slot admits what stands for what it admits. -/
def Slot.isOpen : Slot → Bool
  | .node kind => kind == .block || !kind.isStatement && !kind.isExpression
  | .initializer | .part => false
  | _ => true

theorem Slot.admits_of_standsFor {s : Slot} (hs : s.isOpen) {c c' : Child NodeKind}
    (hc : c.StandsFor c') (h : s.admits c) : s.admits c' := by
  cases c with
  | token t =>
    cases c' with
    | node k => exact hc.elim
    | token t' =>
      have hk : t'.kind = t.kind := hc
      cases s <;> simp_all [Slot.admits]
  | node k =>
    cases c' with
    | token t => exact hc.elim
    | node k' =>
      rcases hc with rfl | ⟨hk, hk'⟩ | ⟨hk, hb, hk'⟩
      · exact h
      · have apart : k.isStatement = false := by
          cases hst : k.isStatement with
          | false => rfl
          | true => rw [NodeKind.isExpression_eq_false_of_isStatement hst] at hk; cases hk
        have notBlock : k ≠ .block := fun hb => by
          rw [hb] at hk
          cases hk
        cases s <;> simp_all [Slot.admits, Slot.isOpen]
      · have apart := NodeKind.isExpression_eq_false_of_isStatement hk
        cases s <;> simp_all [Slot.admits, Slot.isOpen]

/-- Where all slots are open, children can be exchanged for others of their sorts. -/
theorem Fills.exchange {ps : List Place} {cs cs' : List (Child NodeKind)} (h : Fills ps cs)
    (hp : ∀ p ∈ ps, p.slot.isOpen) (hc : List.Forall₂ Child.StandsFor cs cs') : Fills ps cs' := by
  induction h generalizing cs' with
  | nil =>
    cases hc
    exact .nil
  | one here _ ih =>
    obtain _ | ⟨hc, hcs⟩ := hc
    obtain ⟨hs, hp⟩ := List.forall_mem_cons.1 hp
    exact .one (Slot.admits_of_standsFor hs hc here) (ih hp hcs)
  | given here _ ih =>
    obtain _ | ⟨hc, hcs⟩ := hc
    obtain ⟨hs, hp⟩ := List.forall_mem_cons.1 hp
    exact .given (Slot.admits_of_standsFor hs hc here) (ih hp hcs)
  | omitted _ ih => exact .omitted (ih (List.forall_mem_cons.1 hp).2 hc)
  | more here _ ih =>
    obtain _ | ⟨hc, hcs⟩ := hc
    exact .more (Slot.admits_of_standsFor (hp _ List.mem_cons_self) hc here) (ih hp hcs)
  | enough _ ih => exact .enough (ih (List.forall_mem_cons.1 hp).2 hc)

/-! ## Required children -/

/-- Whether the place is always taken by one node. -/
def Place.isRequired : Place → Bool
  | .one (.token _) | .one .literal | .one .operator | .one .label => false
  | .one _ => true
  | _ => false

/-- How many child nodes a node of the kind cannot do without. -/
def required (kind : NodeKind) : Nat := (places kind).countP Place.isRequired

theorem Fills.countP_le {ps : List Place} {cs : List (Child NodeKind)} (h : Fills ps cs) :
    ps.countP Place.isRequired ≤ (cs.filterMap Child.node?).length := by
  have grows (c : Child NodeKind) (cs : List (Child NodeKind)) :
      (cs.filterMap Child.node?).length ≤ ((c :: cs).filterMap Child.node?).length := by
    cases c <;> simp [List.filterMap_cons]
  induction h with
  | nil => exact Nat.le_refl _
  | @one s ps c cs here _ ih =>
    rw [List.countP_cons]
    cases c with
    | token t =>
      have free : (Place.one s).isRequired = false := by
        cases s <;> simp_all [Slot.admits, Place.isRequired]
      simpa [free, List.filterMap_cons] using ih
    | node k =>
      simp only [List.filterMap_cons, Child.node?_node, List.length_cons]
      split <;> omega
  | given _ _ ih => exact Nat.le_trans (by simpa [Place.isRequired] using ih) (grows _ _)
  | omitted _ ih => simpa [Place.isRequired] using ih
  | more _ _ ih => exact Nat.le_trans ih (grows _ _)
  | enough _ ih => simpa [Place.isRequired] using ih

namespace Node

variable {n : Node}

/-- No required child of a node is missing. -/
theorem exists_node? (h : n.FitsKind) {i : Nat} (hi : i < required n.kind) :
    ∃ m, n.node? i = some m := by
  have enough := h.countP_le
  rw [← nodes_outline, List.length_map] at enough
  have inside : i < n.nodes.length := Nat.lt_of_lt_of_le hi enough
  exact ⟨n.nodes[i], List.getElem?_eq_getElem inside⟩

theorem Laid.here (h : n.Laid) : n.FitsKind := h n n.mem_preorder_self

theorem Laid.below {m : Node} (h : n.Laid) (hm : m ∈ n.preorder) : m.Laid :=
  fun x hx => h x (preorder_trans hm hx)

theorem Laid.child {m : Node} (h : n.Laid) (hm : m ∈ n.nodes) : m.Laid :=
  h.below (mem_preorder_of_mem_nodes n.mem_preorder_self hm)

theorem FitsKind.of_outline {n' : Node} (h : n.FitsKind) (hk : n'.kind = n.kind)
    (ho : n'.outline = n.outline) : n'.FitsKind := by
  rw [FitsKind, hk, ho]
  exact h

end Node

/-- The passes over a tree keep its layout. -/
theorem Recast.laid {P : Node → Node → Prop} {n n' : Node} (h : Recast P n n') (hn : n.Laid) :
    n'.Laid := by
  intro m' hm'
  obtain ⟨m, hm, hk, ho, -⟩ := h.source hm'
  exact (hn m hm).of_outline hk ho

end Stencil
