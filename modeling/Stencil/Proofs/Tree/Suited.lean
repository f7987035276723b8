import Stencil.Expansion.Returns
import Stencil.Proofs.Tree.Places
import Stencil.Proofs.Tree.Shadowing

/-!
# Trees that suit a method

A tree suits a method if it is laid out and its `return` statements are such as the method may have.
What the shape of the result permits is a property of Booleans: whether there may be a `return` with
a value, and one without. Where everything is permitted, the tree is just laid out.

Results:

* `suits_build` – built nodes suit if their children fill the places of their kind;
* `Node.Suits.flatten` – flattening keeps a tree suited;
* `suits_lowerReturn` – what a `return` becomes in a target suits it.
-/
namespace Stencil

/-- Whether a method with this result may have a `return` with, or without, a value. -/
def ResultShape.Permits : ResultShape → Bool → Prop
  | .void, valued | .awaitable .void, valued => valued = false
  | .value _, _ | .awaitable _, _ => True
  | _, _ => False

namespace Node

/-- Every node has the children that its kind asks for, and every `return` is permitted. -/
def Suits (permits : Bool → Prop) (n : Node) : Prop :=
  ∀ m ∈ n.preorder, m.FitsKind ∧ (m.kind = .returnStatement → permits (!m.nodes.isEmpty))

variable {permits : Bool → Prop} {n : Node}

theorem laid_iff_suits : n.Laid ↔ n.Suits fun _ => True :=
  ⟨fun h m hm => ⟨h m hm, fun _ => trivial⟩, fun h m hm => (h m hm).1⟩

namespace Suits

theorem laid (h : n.Suits permits) : n.Laid := fun m hm => (h m hm).1

theorem here (h : n.Suits permits) : n.FitsKind := h.laid.here

theorem child {m : Node} (h : n.Suits permits) (hm : m ∈ n.nodes) : m.Suits permits :=
  fun x hx => h x (preorder_subset hm hx)

theorem of_nodes (h : n.FitsKind) (hr : n.kind = .returnStatement → permits (!n.nodes.isEmpty))
    (hc : ∀ c ∈ n.nodes, c.Suits permits) : n.Suits permits := by
  intro m hm
  rcases mem_preorder.1 hm with rfl | ⟨c, hc', hm⟩
  · exact ⟨h, hr⟩
  · exact hc c hc' m hm

/-- Numbers, places and marks do not count. -/
theorem of_same {n' : Node} (h : n.Suits permits) (hk : n'.kind = n.kind)
    (hc : n'.children = n.children) : n'.Suits permits := by
  have nodes : n'.nodes = n.nodes := by rw [Node.nodes, Node.nodes, hc]
  refine of_nodes (h.here.of_outline hk (by rw [outline, outline, hc])) (fun hr => ?_) ?_
  · rw [nodes]
    exact (h n n.mem_preorder_self).2 (hk ▸ hr)
  · rw [nodes]
    exact fun c hc => h.child hc

theorem mark (h : n.Suits permits) (m : Mark) : (n.mark m).Suits permits :=
  h.of_same (kind_mark m n) (children_mark m n)

end Suits

theorem suits_build {kind : NodeKind} {cs : List (Child Node)} (hr : kind ≠ .returnStatement)
    (hf : Fills (places kind) (cs.map Child.outline))
    (hc : ∀ t ∈ cs.filterMap Child.node?, t.Suits permits) : (build kind cs).Suits permits :=
  .of_nodes hf (fun h => absurd h hr) hc

/-! ## Expressions -/

theorem suits_identifierOf {t : Token} (ht : t.kind = .identifier) :
    (identifierOf t).Suits permits :=
  suits_build (by decide) (.one (admits_named ht) .nil) (by simp)

theorem suits_identifier (name : String) : (identifier name).Suits permits :=
  suits_identifierOf rfl

theorem suits_literal {t : Token} (ht : t.kind.isLiteral) : (literal t).Suits permits :=
  suits_build (by decide) (.one ht .nil) (by simp)

theorem suits_atom (h : n.IsAtom) : n.Suits permits := by
  obtain ⟨hk, hc⟩ | ⟨hk, hc⟩ := h
  all_goals
    refine .of_nodes ?_ (by simp [hk]) (by simp [nodes, hc])
    rw [FitsKind, outline, hk, hc]
  · exact .nil
  · exact .one rfl .nil

theorem isExpression_atom (h : n.IsAtom) : n.kind.isExpression := by
  obtain ⟨hk, -⟩ | ⟨hk, -⟩ := h <;> simp [hk, NodeKind.isExpression]

section

variable {a b : Node}

theorem suits_memberAccess (ha : a.Suits permits) (hk : a.kind.isExpression) (name : String) :
    (memberAccess a name).Suits permits :=
  suits_build (by decide) (.one hk (.one rfl .nil)) (by simpa using ha)

theorem suits_invocation {arguments : List Node} (ha : a.Suits permits) (hk : a.kind.isExpression)
    (hs : ∀ x ∈ arguments, x.Suits permits ∧ x.kind.isExpression) :
    (invocation a arguments).Suits permits := by
  refine suits_build (by decide) (.one hk ?_) ?_
  · rw [List.map_map]
    exact fills_many.2 ⟨_, [], (List.append_nil _).symm,
      List.forall_mem_map.2 fun x hx => (hs x hx).2, .nil⟩
  · rw [← nodes_build .invocation, ← invocation, nodes_invocation]
    exact List.forall_mem_cons.2 ⟨ha, fun x hx => (hs x hx).1⟩

theorem suits_list {elements : List Node}
    (h : ∀ x ∈ elements, x.Suits permits ∧ x.kind.isExpression) :
    (list elements).Suits permits := by
  refine suits_build (by decide) ?_ (by simpa using fun x hx => (h x hx).1)
  rw [List.map_map]
  exact fills_many.2 ⟨_, [], (List.append_nil _).symm,
    List.forall_mem_map.2 fun x hx => (h x hx).2, .nil⟩

/-- Kinds of nodes that only hold one expression. -/
theorem suits_operand {kind : NodeKind} (hp : places kind = [.one .expression])
    (ha : a.Suits permits) (hk : a.kind.isExpression) : (build kind [.node a]).Suits permits := by
  refine suits_build ?_ (by rw [hp]; exact .one hk .nil) (by simpa using ha)
  rintro rfl
  cases hp

theorem suits_await (ha : a.Suits permits) (hk : a.kind.isExpression) :
    (await a).Suits permits := suits_operand rfl ha hk

theorem suits_assignment (ha : a.Suits permits) (hk : a.kind.isExpression) (hb : b.Suits permits)
    (hk' : b.kind.isExpression) : (assignment a b).Suits permits :=
  suits_build (by decide) (.one hk (.one rfl (.one hk' .nil))) (by simpa using ⟨ha, hb⟩)

theorem suits_cast (ha : a.Suits permits) (hk : a.kind.isExpression) (type : String) :
    (cast type a).Suits permits := by
  have named : (typeNamed type).Suits permits :=
    suits_build (by decide) (.one rfl .nil) (by simp)
  unfold cast
  split
  case h_7 =>
    have wrapped : (parenthesized a).Suits permits := suits_operand rfl ha hk
    exact suits_build (by decide) (.one rfl (.one rfl .nil)) (by simpa using ⟨named, wrapped⟩)
  all_goals
    exact suits_build (by decide) (.one rfl (.one hk .nil)) (by simpa using ⟨named, ha⟩)

end

/-! ## Statements -/

section

variable {a b : Node}

/-- A block of statements. -/
theorem suits_blockOf {cs : List (Child Node)}
    (h : ∀ c ∈ cs, ∃ t, c = .node t ∧ t.kind.isStatement ∧ t.Suits permits) :
    (build .block cs).Suits permits := by
  refine suits_build (by decide) (fills_many.2 ⟨_, [], (List.append_nil _).symm, ?_, .nil⟩) ?_
  · refine List.forall_mem_map.2 fun c hc => ?_
    obtain ⟨t, rfl, hk, -⟩ := h c hc
    exact hk
  · intro t ht
    obtain ⟨c, hc, hct⟩ := List.mem_filterMap.1 ht
    obtain ⟨u, rfl, -, hu⟩ := h c hc
    cases hct
    exact hu

theorem suits_block {statements : List Node}
    (h : ∀ t ∈ statements, t.kind.isStatement ∧ t.Suits permits) :
    (block statements).Suits permits :=
  suits_blockOf (List.forall_mem_map.2 fun t ht => ⟨t, rfl, h t ht⟩)

theorem suits_returnStatement {value : Option Node} (hp : permits value.isSome)
    (hv : ∀ v, value = some v → v.Suits permits ∧ v.kind.isExpression) :
    (returnStatement value).Suits permits := by
  cases value with
  | none => exact .of_nodes (.omitted .nil) (fun _ => hp) (by simp [returnStatement])
  | some v =>
    obtain ⟨hs, hk⟩ := hv v rfl
    exact .of_nodes (.given hk .nil) (fun _ => hp) (by simpa [returnStatement] using hs)

theorem suits_declarator {name : Token} {value : Option Node} (hn : name.kind = .identifier)
    (hv : ∀ v, value = some v → v.Suits permits ∧ v.kind.isExpression) :
    (declarator name value).Suits permits := by
  cases value with
  | none => exact suits_build (by decide) (.one (admits_named hn) (.omitted .nil)) (by simp)
  | some v =>
    obtain ⟨hs, hk⟩ := hv v rfl
    exact suits_build (by decide) (.one (admits_named hn) (.given hk .nil)) (by simpa using hs)

theorem suits_localDeclaration {name : Token} {value : Option Node} (hn : name.kind = .identifier)
    (hv : ∀ v, value = some v → v.Suits permits ∧ v.kind.isExpression) :
    (localDeclaration name value).Suits permits :=
  suits_build (by decide) (.one rfl (.enough .nil)) (by simpa using suits_declarator hn hv)

theorem suits_ifStatement {c : Node} {otherwise : Option Node} (hc : c.Suits permits)
    (hk : c.kind.isExpression) (ha : a.Suits permits) (hs : a.kind.isStatement)
    (ho : ∀ b, otherwise = some b → b.Suits permits ∧ b.kind.isStatement) :
    (ifStatement c a otherwise).Suits permits := by
  cases otherwise with
  | none =>
    exact suits_build (by decide) (.one hk (.one hs (.omitted .nil))) (by simpa using ⟨hc, ha⟩)
  | some b =>
    obtain ⟨hb, hs'⟩ := ho b rfl
    have clause : (build .elseClause [.node b]).Suits permits :=
      suits_build (by decide) (.one hs' .nil) (by simpa using hb)
    exact suits_build (by decide) (.one hk (.one hs (.given rfl .nil)))
      (by simpa using ⟨hc, ha, clause⟩)

theorem suits_whileStatement (ha : a.Suits permits) (hk : a.kind.isExpression)
    (hb : b.Suits permits) (hs : b.kind.isStatement) : (whileStatement a b).Suits permits :=
  suits_build (by decide) (.one hk (.one hs .nil)) (by simpa using ⟨ha, hb⟩)

theorem suits_forEachStatement (awaited : Bool) {name : Token} (hn : name.kind = .identifier)
    (ha : a.Suits permits) (hk : a.kind.isExpression) (hb : b.Suits permits)
    (hs : b.kind.isStatement) : (forEachStatement awaited name a b).Suits permits := by
  have rest : Fills [.one (.token .identifier), .one .expression, .one .statement]
      ([.token name, .node a, .node b].map Child.outline) :=
    .one (admits_named hn) (.one hk (.one hs .nil))
  have inside : ∀ t ∈ [a, b], t.Suits permits := by simpa using ⟨ha, hb⟩
  cases awaited with
  | false => exact suits_build (by decide) (.omitted rest) inside
  | true => exact suits_build (by decide) (.given rfl rest) inside

theorem suits_usingStatement (awaited : Bool) (ha : a.Suits permits)
    (hk : a.kind = .localDeclaration) (hb : b.Suits permits) (hs : b.kind.isStatement) :
    (usingStatement awaited a b).Suits permits := by
  have rest : Fills [.one (.node .localDeclaration), .one .statement]
      ([.node a, .node b].map Child.outline) :=
    .one (admits_kind hk) (.one hs .nil)
  have inside : ∀ t ∈ [a, b], t.Suits permits := by simpa using ⟨ha, hb⟩
  cases awaited with
  | false => exact suits_build (by decide) (.omitted rest) inside
  | true => exact suits_build (by decide) (.given rfl rest) inside

end

/-! ## Flattened trees -/

theorem outline_mapAll_flattenHere (cs : List (Child Node)) :
    (mapAll flattenHere cs).map Child.outline = cs.map Child.outline := by
  induction cs with
  | nil => simp [mapAll]
  | cons c cs ih =>
    cases c with
    | token t => simp [mapAll, ih]
    | node m =>
      rw [mapAll, List.map_cons, List.map_cons, ih]
      exact congrArg (Child.node · :: _) m.kind_flatten

theorem mem_mapAll {f : Node → Node} {cs : List (Child Node)} {c : Child Node}
    (h : c ∈ mapAll f cs) :
    (∃ t, c = .token t ∧ c ∈ cs) ∨ ∃ m, .node m ∈ cs ∧ c = .node (map f m) := by
  induction cs with
  | nil => simp [mapAll] at h
  | cons d cs ih =>
    have later (h : c ∈ mapAll f cs) :
        (∃ t, c = .token t ∧ c ∈ d :: cs) ∨ ∃ m, .node m ∈ d :: cs ∧ c = .node (map f m) :=
      (ih h).imp (fun ⟨t, hc, ht⟩ => ⟨t, hc, List.mem_cons_of_mem _ ht⟩)
        fun ⟨m, hm, hc⟩ => ⟨m, List.mem_cons_of_mem _ hm, hc⟩
    cases d with
    | token t =>
      rw [mapAll] at h
      rcases List.mem_cons.1 h with rfl | h
      · exact .inl ⟨t, rfl, List.mem_cons_self⟩
      · exact later h
    | node m =>
      rw [mapAll] at h
      rcases List.mem_cons.1 h with rfl | h
      · exact .inr ⟨m, List.mem_cons_self, rfl⟩
      · exact later h

/-- The children of a block are statements. -/
theorem fitsKind_block (hk : n.kind = .block) :
    n.FitsKind ↔ ∀ c ∈ n.children, ∃ t, c = .node t ∧ t.kind.isStatement := by
  rw [FitsKind, hk, outline]
  constructor
  · intro h c hc
    obtain ⟨front, rest, hcs, hfront, hrest⟩ := fills_many.1 h
    rw [fills_nil.1 hrest, List.append_nil] at hcs
    have here := hfront c.outline (hcs ▸ List.mem_map_of_mem hc)
    cases c with
    | token t => cases here
    | node t => exact ⟨t, rfl, here⟩
  · intro h
    refine fills_many.2 ⟨_, [], (List.append_nil _).symm, ?_, .nil⟩
    refine List.forall_mem_map.2 fun c hc => ?_
    obtain ⟨t, rfl, hs⟩ := h c hc
    exact hs

theorem Suits.flatten {n : Node} (h : n.Suits permits) : n.flatten.Suits permits := by
  have ih : ∀ c ∈ n.nodes, c.flatten.Suits permits := fun c hc =>
    have := size_lt_of_mem hc
    (h.child hc).flatten
  by_cases hk : n.kind = .block
  · have kind : n.flatten.kind = .block := by rw [kind_flatten, hk]
    refine .of_nodes ((fitsKind_block kind).2 fun c hc => ?_) (by simp [hk]) fun c hc => ?_
    · -- a child is a flattened statement, or a statement of a block that dissolved
      obtain ⟨id, k, span, marks, children⟩ := n
      obtain rfl : k = .block := hk
      rw [flatten_block] at hc
      obtain ⟨d, hd, hc⟩ := List.mem_flatMap.1 hc
      have statements := (fitsKind_block rfl).1 h.here
      obtain ⟨tok, rfl, htok⟩ | ⟨t, ht, rfl⟩ := mem_mapAll hd
      · obtain ⟨t, hnode, -⟩ := statements _ htok
        cases hnode
      obtain ⟨_, hnode, hs⟩ := statements _ ht
      cases hnode
      change c ∈ inlined (.node t.flatten) at hc
      rw [inlined] at hc
      split at hc
      · next hi =>
        have dissolved : t.flatten.kind = .block := by
          simp only [isInlined, Bool.and_eq_true, beq_iff_eq] at hi
          exact hi.1
        exact (fitsKind_block dissolved).1 (ih t (mem_nodes.2 ht)).here c hc
      · exact ⟨t.flatten, List.mem_singleton.1 hc, by rwa [kind_flatten]⟩
    · rw [nodes_flatten_block hk] at hc
      obtain ⟨t, ht, hc⟩ := List.mem_flatMap.1 hc
      rw [contents] at hc
      split at hc
      · exact (ih t ht).child hc
      · exact List.mem_singleton.1 hc ▸ ih t ht
  · have outline : n.flatten.outline = n.outline := by
      rw [Node.outline, children_flatten hk, outline_mapAll_flattenHere, Node.outline]
    refine .of_nodes (h.here.of_outline (kind_flatten n) outline) (fun hr => ?_) ?_
    · rw [nodes_flatten hk, List.isEmpty_map]
      exact (h n n.mem_preorder_self).2 (kind_flatten n ▸ hr)
    · exact forall_nodes_flatten hk ih
termination_by n.size

end Node

/-! ## Returning -/

namespace Expansion

open Node

variable {permits : Bool → Prop} {v : Node}

theorem suits_evaluated (hv : v.Suits permits) (hk : v.kind.isExpression) :
    (evaluated v).Suits permits := by
  unfold evaluated
  split
  case h_5 => exact suits_operand rfl (suits_assignment (suits_identifier "_") rfl hv hk) rfl
  all_goals exact suits_operand rfl hv hk

theorem isStatement_evaluated (v : Node) : (evaluated v).kind.isStatement := by
  unfold evaluated
  split <;> rfl

theorem suits_voidReturn {value : Option Node} (hp : permits false)
    (hv : ∀ v, value = some v → v.Suits permits ∧ v.kind.isExpression) :
    (voidReturn value).Suits permits := by
  refine (suits_block fun t ht => ?_).mark .synthetic
  rcases List.mem_append.1 ht with ht | ht
  · obtain ⟨v, hmem, rfl⟩ := List.mem_map.1 ht
    obtain ⟨hs, hk⟩ := hv v (Option.filter_eq_some_iff.1 (Option.mem_toList.1 hmem)).1
    exact ⟨isStatement_evaluated v, suits_evaluated hs hk⟩
  · rw [List.mem_singleton.1 ht]
    exact ⟨rfl, suits_returnStatement hp (by simp)⟩

theorem suits_yieldReturn (hv : v.Suits permits) (hk : v.kind.isExpression) :
    (Node.yieldReturn v).Suits permits := suits_operand rfl hv hk

theorem suits_yieldBreak : Node.yieldBreak.Suits permits :=
  suits_build (by decide) .nil (by simp)

theorem suits_handOut (awaited : Bool) (hv : v.Suits permits) (hk : v.kind.isExpression)
    (item : String) : (handOut awaited v item).Suits permits := by
  have each : (Node.forEachStatement awaited (.ofName item) v
      (.yieldReturn (.identifier item))).Suits permits :=
    suits_forEachStatement awaited rfl hv hk (suits_yieldReturn (suits_identifier item) rfl) rfl
  refine (suits_block fun t ht => ?_).mark .flatten
  simp only [List.mem_cons, List.not_mem_nil, or_false] at ht
  rcases ht with rfl | rfl
  · exact ⟨by cases awaited <;> rfl, each⟩
  · exact ⟨rfl, suits_yieldBreak⟩

theorem suits_drain (awaited : Bool) (hv : v.Suits permits) (hk : v.kind.isExpression)
    (enumerator : String) : (drain awaited v enumerator).Suits permits := by
  have member (name : String) : (Node.memberAccess (.identifier enumerator) name).Suits permits :=
    suits_memberAccess (suits_identifier enumerator) rfl name
  have moveNext (name : String) : (Node.invocation
      (.memberAccess (.identifier enumerator) name) []).Suits permits :=
    suits_invocation (member name) rfl (by simp)
  have yielded := suits_yieldReturn (member "Current") rfl
  have acquired : (Node.localDeclaration (.ofName enumerator) (some v)).Suits permits :=
    suits_localDeclaration rfl fun _ h => Option.some.inj h ▸ ⟨hv, hk⟩
  have pumping {condition : Node} (hc : condition.Suits permits)
      (hk : condition.kind.isExpression) : (Node.block [.usingStatement awaited
        (.localDeclaration (.ofName enumerator) (some v)) (.block [.whileStatement condition
          (.yieldReturn (.memberAccess (.identifier enumerator) "Current"))]),
        .yieldBreak]).Suits permits := by
    have pump := suits_whileStatement hc hk yielded rfl
    have body := suits_block (List.forall_mem_singleton.2 ⟨rfl, pump⟩)
    refine suits_block fun t ht => ?_
    simp only [List.mem_cons, List.not_mem_nil, or_false] at ht
    rcases ht with rfl | rfl
    · exact ⟨by cases awaited <;> rfl, suits_usingStatement awaited acquired rfl body rfl⟩
    · exact ⟨rfl, suits_yieldBreak⟩
  cases awaited with
  | false => exact (pumping (moveNext "MoveNext") rfl).mark .flatten
  | true =>
    exact (pumping (suits_await (moveNext "MoveNextAsync") rfl) rfl).mark .flatten

theorem suits_returnedValue (hv : v.Suits permits) (hk : v.kind.isExpression) (type : TypeExpr)
    (dynamic : Bool) : (returnedValue type dynamic v).Suits permits ∧
      (returnedValue type dynamic v).kind.isExpression := by
  unfold returnedValue
  split
  · exact ⟨suits_cast hv hk type.text, rfl⟩
  · exact ⟨hv, hk⟩

/-- What a `return` of the template becomes is a statement that the method may have, whatever names
are made up for it. -/
theorem suits_lowerReturn {σ : Type} (fresh : String → StateM σ String) (shape : ResultShape)
    {value : Option Node}
    (hv : ∀ v, value = some v → v.Suits shape.Permits ∧ v.kind.isExpression) (dynamic : Bool)
    (s : σ) : ((lowerReturn fresh shape value dynamic).run s).1.Suits shape.Permits ∧
      ((lowerReturn fresh shape value dynamic).run s).1.kind.isStatement := by
  have plain (type : TypeExpr) (hp : ∀ b, shape.Permits b) :
      (Node.returnStatement (value.map (returnedValue type dynamic))).Suits shape.Permits := by
    refine suits_returnStatement (hp _) fun w hw => ?_
    obtain ⟨v, hvalue, rfl⟩ := Option.map_eq_some_iff.1 hw
    obtain ⟨hs, hk⟩ := hv v hvalue
    exact suits_returnedValue hs hk type dynamic
  cases shape with
  | void => exact ⟨suits_voidReturn rfl hv, rfl⟩
  | value type => exact ⟨plain type fun _ => trivial, rfl⟩
  | awaitable type =>
    cases type with
    | void => exact ⟨suits_voidReturn rfl hv, rfl⟩
    | _ => exact ⟨plain _ fun _ => trivial, rfl⟩
  | sequence _ | asyncSequence _ =>
    cases value with
    | none => exact ⟨suits_yieldBreak, rfl⟩
    | some v =>
      obtain ⟨hs, hk⟩ := hv v rfl
      exact ⟨suits_handOut _ hs hk _, rfl⟩
  | enumerator _ | asyncEnumerator _ =>
    cases value with
    | none => exact ⟨suits_yieldBreak, rfl⟩
    | some v =>
      obtain ⟨hs, hk⟩ := hv v rfl
      exact ⟨suits_drain _ hs hk _, rfl⟩

theorem suits_path (dotted : String) :
    (Node.path dotted).Suits permits ∧ (Node.path dotted).kind.isExpression := by
  have members (names : List String) (n : Node) (hn : n.Suits permits ∧ n.kind.isExpression) :
      (names.foldl Node.memberAccess n).Suits permits ∧
        (names.foldl Node.memberAccess n).kind.isExpression := by
    induction names generalizing n with
    | nil => exact hn
    | cons name names ih => exact ih _ ⟨suits_memberAccess hn.1 hn.2 name, rfl⟩
  unfold Node.path
  split
  · exact ⟨suits_identifier _, rfl⟩
  · exact members _ _ ⟨suits_identifier _, rfl⟩

theorem suits_wrappedCall (target : Target) (form : CallForm) :
    (wrappedCall target form).Suits permits ∧ (wrappedCall target form).kind.isExpression := by
  have call : (Node.call (target.name ++ ownBodyEnding)
      (target.parameters.map fun p => .identifier p.name)).Suits permits := by
    have path : (Node.path (target.name ++ ownBodyEnding)).Suits permits ∧
        (Node.path (target.name ++ ownBodyEnding)).kind.isExpression := suits_path _
    exact suits_invocation path.1 path.2
      (List.forall_mem_map.2 fun p _ => ⟨suits_identifier p.name, rfl⟩)
  unfold wrappedCall
  split
  · exact ⟨suits_await call rfl, rfl⟩
  · exact ⟨call, rfl⟩

end Expansion

end Stencil
