import Stencil.Proofs.Quotation.StandIns
import Stencil.Proofs.Staging.Stamped
import Stencil.Proofs.Staging.Statements

/-!
# What generators have in place of wrapped calls

The calls that stand for the nodes of a template account for all of its wrapped calls. Nor is a
wrapped call ever quoted: the quoter makes the same generator from any facts about it.

Results:

* `Orderly` – templates whose wrapped call can be provided;
* `serves` – what the quoter makes of their nodes;
* `GivesOnce` – what a generator does about the call that its template wraps.
-/
namespace Stencil.Quotation

/-! ## Quoting with other facts -/

/-- Both actions do the same, and `P` holds of what they make. -/
def Agrees {α : Type} (P : α → Prop) (act act' : Quoter α) : Prop :=
  ∀ s, act'.run s = act.run s ∧ P (act.run s).1

namespace Agrees

variable {α β γ : Type} {P : α → Prop} {Q : β → Prop} {act act' : Quoter α}

theorem same (h : ∀ s, P (act.run s).1) : Agrees P act act := fun s => ⟨rfl, h s⟩

theorem pure {x : α} (h : P x) : Agrees P (pure x) (pure x) := same fun _ => h

theorem bind {k k' : α → Quoter β} (h : Agrees P act act')
    (hk : ∀ x, P x → Agrees Q (k x) (k' x)) : Agrees Q (act >>= k) (act' >>= k') := by
  intro s
  obtain ⟨run, hp⟩ := h s
  change (k' (act'.run s).1).run (act'.run s).2 = (k (act.run s).1).run (act.run s).2 ∧
    Q ((k (act.run s).1).run (act.run s).2).1
  rw [run]
  exact hk _ hp _

theorem mapM {P : γ → α → Prop} {f f' : γ → Quoter α} (xs : List γ)
    (h : ∀ x ∈ xs, Agrees (P x) (f x) (f' x)) :
    Agrees (fun ys => List.Forall₂ P xs ys) (xs.mapM f) (xs.mapM f') := by
  induction xs with
  | nil => exact .pure .nil
  | cons x xs ih =>
    rw [List.mapM_cons, List.mapM_cons]
    refine .bind (h x List.mem_cons_self) fun y hy => ?_
    refine .bind (ih fun x' hx => h x' (List.mem_cons_of_mem _ hx)) fun ys hys => ?_
    exact .pure (.cons hy hys)

theorem accumulator : Agrees (fun _ => True) accumulator accumulator := same fun _ => trivial

theorem heldOr {P : Node → Prop} {act act' : Quoter Node} (v : Option Symbol)
    (held : ∀ holder, P (Quotation.construct "IdentifierName" [.identifier holder]))
    (h : Agrees P act act') : Agrees P (heldOr v act) (heldOr v act') := by
  intro s
  cases hv : v.bind s.holder? with
  | none =>
    rw [run_heldOr_none hv, run_heldOr_none hv]
    exact h s
  | some holder =>
    rw [run_heldOr_some hv, run_heldOr_some hv]
    exact ⟨rfl, held holder⟩

theorem nested (h : Agrees P act act') : Agrees P (nested act) (nested act') := by
  intro s
  obtain ⟨run, hp⟩ := h s.enter
  rw [run_nested, run_nested, run]
  exact ⟨rfl, hp⟩

/-- What is added to the block being built. -/
theorem append (q : Node) :
    Agrees (fun r => standIns r = standIns q) (append q) (Quotation.append q) := by
  refine .bind .accumulator fun name _ => .pure ?_
  rw [standIns_expressionStatement]
  change standIns (.methodCall name "Add" [q]) = _
  rw [standIns_otherCall _ _ _ (by simp)]
  simp

/-- What is built by a closure. -/
theorem closure {store : FactStore} {sources : List Node} {act act' : Quoter (List Node)}
    (h : Agrees (fun qs => Accounts store sources (qs.flatMap standIns)) act act') :
    Agrees (fun q => Accounts store sources (standIns q))
      (Quotation.nested do Quotation.closure (← act))
      (Quotation.nested do Quotation.closure (← act')) := by
  refine .nested (.bind h fun qs hqs => .bind .accumulator fun name _ => .pure ?_)
  simpa using hqs

end Agrees

/-! ## Templates whose wrapped call can be provided -/

/-- A classified template whose wrapped call, if it has one, is the one that is provided. -/
structure Orderly (store : FactStore) (provided : Option (Nat × CallForm)) (t : Node) : Prop where
  numbered : t.Numbered
  laid : t.Laid
  rules : ∀ m ∈ t.preorder, Rule m.kind m.outline
  supported : ∀ m ∈ t.preorder, Staging.isSupported m.kind
  staged : ∀ m ∈ t.preorder, ∃ s, m.stage? = some s ∧ Staging.allows m.kind s
  spliced : ∀ m ∈ t.preorder, m.hasMark .splice → m.kind.isExpression
  provided : ∀ m ∈ t.preorder, providedForm? provided m = wrappedForm? store m
  placed : ∀ m ∈ t.preorder, wrappedForm? store m ≠ none → IsSoleValue t m
  generated : ∀ s ∈ t.preorder, s.kind = .localDeclaration → ∀ d call, s.nodes = [d] →
    d.nodes = [call] → wrappedForm? store call ≠ none → s.stage? = some .generated

/-- The stores know the same of all nodes of the tree that are no wrapped calls. -/
def Alike (store store' : FactStore) (t : Node) : Prop :=
  ∀ m ∈ t.preorder, wrappedForm? store m = none → store'.lookup m = store.lookup m

theorem wrappedForm?_of_kind {store : FactStore} {n : Node} (h : n.kind ≠ .invocation) :
    wrappedForm? store n = none := if_neg h

namespace Orderly

variable {store : FactStore} {provided : Option (Nat × CallForm)} {t : Node}
  (h : Orderly store provided t)

include h

/-- A wrapped call is returned, or initializes a variable. -/
theorem kind_of_parent {p m : Node} (hp : p ∈ t.preorder) (hm : m ∈ p.nodes)
    (hw : wrappedForm? store m ≠ none) : p.kind = .returnStatement ∨ p.kind = .declarator := by
  rcases h.placed m (Node.mem_preorder_of_mem_nodes hp hm) hw with
    ⟨p', hp', hk, hm'⟩ | ⟨s, hs, hk, d, hnodes, hm'⟩
  · rw [h.numbered.parent_unique hp hp' hm hm']
    exact .inl hk
  · have hds : d ∈ s.nodes := by simp [hnodes]
    rw [h.numbered.parent_unique hp (Node.mem_preorder_of_mem_nodes hs hds) hm hm']
    exact .inr (isDeclarator_of_mem (h.laid s hs) hk hds)

theorem quiet_child {p m : Node} (hp : p ∈ t.preorder) (hm : m ∈ p.nodes)
    (hk : p.kind ≠ .returnStatement) (hk' : p.kind ≠ .declarator) :
    wrappedForm? store m = none := by
  by_contra hw
  rcases h.kind_of_parent hp hm hw with hp | hp
  · exact hk hp
  · exact hk' hp

/-- There are no wrapped calls inside what holds no statements. -/
theorem quiet_below {e x : Node} (he : e ∈ t.preorder) (hk : Staging.isInert e.kind)
    (hx : x ∈ e.preorder) (hne : x ≠ e) : wrappedForm? store x = none := by
  rcases Node.exists_parent hx with rfl | ⟨p, hp, hxp⟩
  · exact absurd rfl hne
  · have inert := Staging.isInert_below (h.laid.below he)
      (fun y hy => h.supported y (Node.preorder_trans he hy)) hk hp
    have hp := Node.preorder_trans he hp
    refine h.quiet_child hp hxp ?_ ?_ <;> intro hk <;> rw [hk] at inert <;> cases inert

theorem quiet_inert {e : Node} (he : e ∈ t.preorder) (hk : Staging.isInert e.kind)
    (hw : wrappedForm? store e = none) : ∀ x ∈ e.preorder, wrappedForm? store x = none := by
  intro x hx
  by_cases hxe : x = e
  · rwa [hxe]
  · exact h.quiet_below he hk hx hxe

theorem quiet {e : Node} (he : e ∈ t.preorder) (hk : e.kind.isExpression)
    (hw : wrappedForm? store e = none) : ∀ x ∈ e.preorder, wrappedForm? store x = none :=
  h.quiet_inert he (by simp [Staging.isInert, hk]) hw

theorem quiet_parameter {p : Node} (hp : p ∈ t.preorder) (hk : p.kind = .parameter) :
    ∀ x ∈ p.preorder, wrappedForm? store x = none := by
  intro x hx
  rcases Node.mem_preorder.1 hx with rfl | ⟨c, hc, hx⟩
  · exact wrappedForm?_of_kind (by simp [hk])
  · have inert := Staging.isInert_child (h.laid p hp) (by rw [hk]; decide) hc
    exact h.quiet_inert (Node.mem_preorder_of_mem_nodes hp hc) inert
      (h.quiet_child hp hc (by simp [hk]) (by simp [hk])) x hx

theorem standIns_kept {n : Node} (hn : n ∈ t.preorder) : standIns n = [] := by
  refine Quotation.standIns_kept fun m hm => ?_
  obtain ⟨s, hs, -⟩ := h.staged m (Node.preorder_trans hn hm)
  rw [hs]
  rfl

/-- Statements that the generator runs itself, other than control flow, hold no wrapped calls. -/
theorem quiet_statement {n : Node} (hn : n ∈ t.preorder) (hk : n.kind.isStatement)
    (hs : n.stage? = some .generationTime) (hif : n.kind ≠ .ifStatement)
    (hloop : n.kind ≠ .forEachStatement) : ∀ x ∈ n.preorder, wrappedForm? store x = none := by
  obtain ⟨s, hs', allowed⟩ := h.staged n hn
  cases hs.symm.trans hs'
  have supported := h.supported n hn
  intro x hx
  rcases Node.mem_preorder.1 hx with rfl | ⟨c, hc, hx⟩
  · exact wrappedForm?_of_kind fun he => by simp [he, NodeKind.isStatement] at hk
  have hct := Node.mem_preorder_of_mem_nodes hn hc
  by_cases hd : n.kind = .localDeclaration
  · have kind := isDeclarator_of_mem (h.laid n hn) hd hc
    rcases Node.mem_preorder.1 hx with rfl | ⟨v, hv, hx⟩
    · exact wrappedForm?_of_kind (by simp [kind])
    have hvt := Node.mem_preorder_of_mem_nodes hct hv
    obtain ⟨value, hnodes, hexpr⟩ := ((h.rules c hct).nodes_declarator kind).resolve_left
      (List.ne_nil_of_mem hv)
    obtain rfl : v = value := by simpa [hnodes] using hv
    refine h.quiet hvt hexpr ?_ x hx
    by_contra hw
    rcases h.placed v hvt hw with ⟨p, hp, hk, hm⟩ | ⟨s, hs', -, d, hsingle, hm⟩
    · rw [h.numbered.parent_unique hp hct hm hv, kind] at hk
      cases hk
    · have hds : d ∈ s.nodes := by simp [hsingle]
      obtain rfl := h.numbered.parent_unique (Node.mem_preorder_of_mem_nodes hs' hds) hct hm hv
      obtain rfl := h.numbered.parent_unique hs' hn hds hc
      cases hs.symm.trans (h.generated s hn hd d v hsingle hnodes hw)
  · have shape : n.kind = .expressionStatement ∨ n.kind.isLeaf := by
      generalize n.kind = k at hk supported allowed hif hloop hd
      cases k <;> first | exact .inl rfl | exact .inr rfl | contradiction
    rcases shape with he | hleaf
    · obtain ⟨e, hnodes, hexpr⟩ := (h.rules n hn).nodes_expressionStatement he
      obtain rfl : c = e := by simpa [hnodes] using hc
      exact h.quiet hct hexpr (h.quiet_child hn hc (by simp [he]) (by simp [he])) x hx
    · rw [(h.rules n hn).nodes_leaf hleaf] at hc
      cases hc

/-- What gives a wrapped call accounts for it and for all that stands below it. -/
theorem accounts_given {call q : Node} {form : CallForm} (hc : call ∈ t.preorder)
    (hk : call.kind.isExpression) (hform : wrappedForm? store call = some form)
    (hq : GivesCall form q) : Accounts store call.preorder (standIns q) := by
  rw [hq.standIns, preorder_eq_flatMap]
  refine .append (Accounts.given hform hq) (.quiet fun x hx => ?_)
  obtain ⟨c, hcc, hxc⟩ := List.mem_flatMap.1 hx
  refine h.quiet_below hc (by simp [Staging.isInert, hk]) (Node.mem_preorder.2 (.inr ⟨c, hcc, hxc⟩))
    fun he => ?_
  exact (h.numbered.below hc).id_ne hcc hxc (congrArg Node.id he)

end Orderly

/-! ## Following the tree -/

/-- What the quoter makes of a node: as a part of generated code, as a statement, and as the
statements of a block. -/
structure Serves (store store' : FactStore) (provided : Option (Nat × CallForm)) (n : Node) :
    Prop where
  part : n.kind ≠ .declarator → wrappedForm? store n = none → ∀ callee,
    Agrees (fun q => Accounts store n.preorder (standIns q)) (quotePart store provided callee n)
      (quotePart store' provided callee n)
  statement : n.kind.isStatement →
    Agrees (fun qs => Accounts store n.preorder (qs.flatMap standIns))
      (hostStatement store provided n) (hostStatement store' provided n)
  block : n.kind = .block →
    Agrees (fun qs => Accounts store n.preorder (qs.flatMap standIns))
      (hostStatements store provided n) (hostStatements store' provided n)

section

variable {store store' : FactStore} {provided : Option (Nat × CallForm)} {t n : Node}
  (h : Orderly store provided t) (alike : Alike store store' t) (hn : n ∈ t.preorder)

theorem Alike.wrappedForm? (alike : Alike store store' t) (hn : n ∈ t.preorder)
    (hw : wrappedForm? store n = none) : wrappedForm? store' n = none := by
  have known := alike n hn hw
  rw [← hw, Quotation.wrappedForm?, Quotation.wrappedForm?, FactStore.symbol?, FactStore.symbol?,
    known]

theorem not_mem_of_literalConstructor {t : TypeExpr} {name : String}
    (h : literalConstructor? t = some name) : ("Syntax", name) ∉ [("Context",
      "CreateAssignStatement"), ("Context", "CreateReturnStatement"),
      ("Syntax", "LiteralExpression")] := by
  cases t <;> cases h <;> decide

theorem agrees_lift (alike : Alike store store' t) (hn : n ∈ t.preorder)
    (hkept : standIns n = []) (hq : ∀ x ∈ n.preorder, wrappedForm? store x = none) :
    Agrees (fun q => Accounts store n.preorder (standIns q)) (lift store n) (lift store' n) := by
  have here := hq n n.mem_preorder_self
  have made (name : String) (arguments : List Node) (none : arguments.flatMap standIns = []) :
      Accounts store n.preorder (standIns (construct name arguments)) := by
    rw [preorder_eq_flatMap]
    refine .construct (none ▸ .quiet fun x hx => hq x ?_) here
    rw [preorder_eq_flatMap]
    exact List.mem_cons_of_mem _ hx
  have same : lift store' n = lift store n := by
    rw [lift, lift, FactStore.type?, FactStore.type?, alike n hn here]
  rw [same]
  refine .same fun s => ?_
  have held : Accounts store n.preorder (standIns placeholder) :=
    made _ _ (by simp [construct, standIns_otherCall])
  unfold lift
  split
  · exact held
  · exact held
  · split
    · next hname =>
      refine made _ _ ?_
      simp [construct, standIns_otherCall _ _ _ (not_mem_of_literalConstructor hname), hkept]
    · exact held

variable (ih : ∀ m : Node, m.size < n.size → m ∈ t.preorder → Serves store store' provided m)

include h alike hn ih

omit alike in
theorem agrees_structural (hw : wrappedForm? store n = none) (hk : n.kind ≠ .returnStatement)
    (hk' : n.kind ≠ .declarator) (hk'' : n.kind ≠ .localDeclaration) :
    Agrees (fun q => Accounts store n.preorder (standIns q)) (structural store provided n)
      (structural store' provided n) := by
  rw [structural, structural]
  refine .bind (.mapM (P := fun c q =>
    Accounts store (c.1.1.node?.toList.flatMap Node.preorder) (standIns q)) _ ?_)
    fun qs hqs => .pure ?_
  · rintro ⟨⟨c, hc⟩, index⟩ -
    cases c with
    | token t =>
      refine .pure ?_
      rw [standIns_quoteToken]
      exact .quiet (by simp)
    | node m =>
      have hm : m ∈ n.nodes := Node.mem_nodes.2 hc
      have part := (ih m (Node.size_lt_of_mem hm) (Node.mem_preorder_of_mem_nodes hn hm)).part
        (fun hd => hk'' (kind_of_declarator (h.laid n hn) hm hd)) (h.quiet_child hn hm hk hk')
        (index = 0 && n.kind = .invocation)
      simpa [quotePart] using part
  · rw [preorder_eq_flatMap]
    refine .construct ?_ hw
    have parts := Accounts.flatMap (g := standIns) hqs
    have children : n.children.attach.zipIdx.map (Subtype.val ∘ Prod.fst) = n.children := by
      rw [← List.map_map, List.zipIdx_map_fst, List.attach_map_subtype_val]
    have sources : n.children.attach.zipIdx.flatMap
        (fun c => c.1.1.node?.toList.flatMap Node.preorder) = n.nodes.flatMap Node.preorder := by
      rw [Node.nodes, List.filterMap_eq_flatMap_toList, List.flatMap_assoc]
      conv => rhs; rw [← children, List.flatMap_map]
      rfl
    rwa [sources] at parts

theorem agrees_quote (hs : n.kind.isStatement = false) (hd : n.kind ≠ .declarator)
    (hw : wrappedForm? store n = none) :
    Agrees (fun q => Accounts store n.preorder (standIns q)) (quote store provided n)
      (quote store' provided n) := by
  have other {k : NodeKind} (hk : k.isStatement) : n.kind ≠ k := by
    rintro rfl
    rw [hk] at hs
    cases hs
  have parts := agrees_structural h hn ih hw (other rfl) hd (other rfl)
  have hkept := h.standIns_kept hn
  rw [quote, quote, alike.wrappedForm? hn hw, hw, FactStore.symbol?, FactStore.symbol?,
    alike n hn hw]
  simp only [Option.isSome_none, Bool.false_eq_true, if_false]
  split
  · next hsplice =>
    have quiet := h.quiet hn (h.spliced n hn hsplice) hw
    refine .pure ?_
    rw [construct, standIns_otherCall _ _ _ (by decide)]
    simpa [hkept] using Accounts.quiet quiet
  split
  · exact parts
  next hk =>
  have quiet := h.quiet hn (by simpa using hk) hw
  split
  · exact agrees_lift alike hn hkept quiet
  split
  · refine .heldOr _ (fun holder => ?_) parts
    rw [construct, standIns_otherCall _ _ _ (by decide)]
    simpa using Accounts.quiet quiet
  · exact parts

theorem agrees_quoteCallee (hs : n.kind.isStatement = false) (hd : n.kind ≠ .declarator)
    (hw : wrappedForm? store n = none) :
    Agrees (fun q => Accounts store n.preorder (standIns q)) (quoteCallee store provided n)
      (quoteCallee store' provided n) := by
  rw [quoteCallee, quoteCallee]
  split
  · next hk =>
    have shape : n.kind = .memberAccess ∨ n.kind = .identifier := by
      simp only [Bool.and_eq_true, Bool.or_eq_true, decide_eq_true_eq] at hk
      exact hk.1
    refine agrees_structural h hn ih hw ?_ hd ?_ <;> rcases shape with hk | hk <;> simp [hk]
  · exact agrees_quote h alike hn ih hs hd hw

omit h alike in
/-- The quoted value of a `return` or a declarator. -/
theorem agrees_value {v : Node} (hv : v ∈ n.nodes) (hexpr : v.kind.isExpression)
    (hw : wrappedForm? store v = none) :
    Agrees (fun q => Accounts store v.preorder (standIns q)) (quote store provided v)
      (quote store' provided v) := by
  have hs : v.kind.isStatement = false := by
    revert hexpr
    cases v.kind <;> decide
  have part := (ih v (Node.size_lt_of_mem hv) (Node.mem_preorder_of_mem_nodes hn hv)).part
    (by rintro hd; rw [hd] at hexpr; cases hexpr) hw false
  simpa [quotePart, hs] using part

theorem agrees_quoteStatement (hk : n.kind.isStatement) (hl : n.kind ≠ .localDeclaration) :
    Agrees (fun q => Accounts store n.preorder (standIns q)) (quoteStatement store provided n)
      (quoteStatement store' provided n) := by
  have hw : wrappedForm? store n = none :=
    wrappedForm?_of_kind fun he => by simp [he, NodeKind.isStatement] at hk
  have hd : n.kind ≠ .declarator := fun he => by simp [he, NodeKind.isStatement] at hk
  have here : Accounts store [n] [] := .quiet (by simpa using hw)
  rw [quoteStatement, quoteStatement]
  split
  · next hr => exact agrees_structural h hn ih hw hr hd hl
  · next hr =>
    have hr : n.kind = .returnStatement := not_not.1 hr
    rw [preorder_eq_flatMap]
    split
    · next hnone =>
      refine .pure ?_
      rw [List.eq_nil_of_length_eq_zero (List.getElem?_eq_none_iff.1 hnone |> Nat.le_zero.1)]
      simpa [standIns_otherCall] using here
    · next value hv =>
      obtain ⟨_, hnodes, hexpr⟩ := ((h.rules n hn).nodes_returnStatement hr).resolve_left
        (List.ne_nil_of_mem (Node.mem_of_node? hv))
      obtain rfl : value = _ := by simpa [Node.node?, hnodes] using hv.symm
      have hm : value ∈ n.nodes := by simp [hnodes]
      have hvt := Node.mem_preorder_of_mem_nodes hn hm
      rw [hnodes, List.flatMap_singleton, h.provided value hvt]
      split
      · next form hform =>
        exact .pure (here.append (h.accounts_given hvt hexpr hform (.inl rfl)))
      · next hform =>
        have type : store'.type? value = store.type? value :=
          congrArg Facts.type (alike value hvt hform)
        rw [type]
        refine .bind (agrees_value hn ih hm hexpr hform) fun q hq => .pure ?_
        rw [standIns_otherCall _ _ _ (by decide)]
        simpa using here.append hq

omit h alike hn in
/-- A branch of the generator's control flow. -/
theorem agrees_hostBlock {m : Node} (hm : m ∈ t.preorder) (hsize : m.size < n.size)
    (hk : m.kind.isStatement) : Agrees (fun q => Accounts store m.preorder (standIns q))
      (hostBlock store provided m) (hostBlock store' provided m) := by
  have served := ih m hsize hm
  rw [hostBlock, hostBlock]
  split
  · next hb => exact .bind (served.block hb) fun qs hqs => .pure (by simpa using hqs)
  · exact .bind (served.statement hk) fun qs hqs => .pure (by simpa using hqs)

omit alike in
theorem agrees_hostIf (hk : n.kind = .ifStatement) :
    Agrees (fun q => Accounts store n.preorder (standIns q)) (hostIf store provided n)
      (hostIf store' provided n) := by
  obtain ⟨condition, body, rest, hnodes, hexpr, hstmt, hrest⟩ := (h.rules n hn).nodes_ifStatement hk
  have hc : n.node? 0 = some condition := by simp [Node.node?, hnodes]
  have hb : n.node? 1 = some body := by simp [Node.node?, hnodes]
  have hct := Node.mem_preorder_of_mem_nodes hn (Node.mem_of_node? hc)
  have hbt := Node.mem_preorder_of_mem_nodes hn (Node.mem_of_node? hb)
  have none : wrappedForm? store condition = none :=
    h.quiet_child hn (Node.mem_of_node? hc) (by simp [hk]) (by simp [hk])
  have here : Accounts store (n :: condition.preorder) [] :=
    .quiet (List.forall_mem_cons.2 ⟨wrappedForm?_of_kind (by simp [hk]), h.quiet hct hexpr none⟩)
  have others : ∀ k : NodeKind, k.isExpression ∨ k.isStatement → k ≠ .elseClause := by
    intro k
    cases k <;> decide
  rw [hostIf, hostIf, preorder_eq_flatMap, hnodes]
  split
  · next c b hc' hb' =>
    cases Option.some.inj (hc.symm.trans hc')
    cases Option.some.inj (hb.symm.trans hb')
    refine .bind (agrees_hostBlock ih hbt (Node.size_lt_of_mem (Node.mem_of_node? hb)) hstmt)
      fun q hq => ?_
    have start := here.append hq
    rcases hrest with rfl | ⟨clause, rfl, hclause⟩
    · have hnone : n.nodeOfKind? .elseClause = Option.none := by
        simp [Node.nodeOfKind?, hnodes, others, hexpr, hstmt]
      split
      · next found => cases hnone.symm.trans found
      · refine .pure ?_
        simpa [h.standIns_kept hct] using start
    · have hsome : n.nodeOfKind? .elseClause = some clause := by
        simp [Node.nodeOfKind?, hnodes, others, hexpr, hstmt, hclause]
      have hm := Node.mem_of_nodeOfKind? hsome
      have hmt := Node.mem_preorder_of_mem_nodes hn hm
      obtain ⟨other, hother, hstmt'⟩ := (h.rules clause hmt).nodes_elseClause hclause
      have ho : clause.node? 0 = some other := by simp [Node.node?, hother]
      have hom := Node.mem_of_node? ho
      have between : Accounts store [clause] [] :=
        .quiet (List.forall_mem_singleton.2 (wrappedForm?_of_kind (by simp [hclause])))
      split
      · next found hf =>
        cases Option.some.inj (hsome.symm.trans hf)
        split
        · next found hf =>
          cases Option.some.inj (ho.symm.trans hf)
          refine .bind (agrees_hostBlock ih (Node.mem_preorder_of_mem_nodes hmt hom)
            (Nat.lt_trans (Node.size_lt_of_mem hom) (Node.size_lt_of_mem hm)) hstmt')
            fun q' hq' => .pure ?_
          simpa [h.standIns_kept hct, preorder_eq_flatMap clause, hother] using
            start.append (between.append hq')
        · next hf => cases ho.symm.trans hf
      · next hf => cases hsome.symm.trans hf
  · next no => exact (no _ _ hc hb).elim

omit alike in
theorem agrees_hostForEach (hk : n.kind = .forEachStatement) :
    Agrees (fun q => Accounts store n.preorder (standIns q)) (hostForEach store provided n)
      (hostForEach store' provided n) := by
  obtain ⟨source, body, hnodes, hexpr, hstmt⟩ := (h.rules n hn).nodes_forEach hk
  obtain ⟨name, -, -, hname⟩ := (h.rules n hn).name (.inr hk)
  have hs : n.node? 0 = some source := by simp [Node.node?, hnodes]
  have hb : n.node? 1 = some body := by simp [Node.node?, hnodes]
  have hst := Node.mem_preorder_of_mem_nodes hn (Node.mem_of_node? hs)
  have hbt := Node.mem_preorder_of_mem_nodes hn (Node.mem_of_node? hb)
  have none : wrappedForm? store source = none :=
    h.quiet_child hn (Node.mem_of_node? hs) (by simp [hk]) (by simp [hk])
  have here : Accounts store (n :: source.preorder) [] :=
    .quiet (List.forall_mem_cons.2 ⟨wrappedForm?_of_kind (by simp [hk]), h.quiet hst hexpr none⟩)
  rw [hostForEach, hostForEach, preorder_eq_flatMap, hnodes]
  split
  · next name' source' body' hname' hs' hb' =>
    cases Option.some.inj (hs.symm.trans hs')
    cases Option.some.inj (hb.symm.trans hb')
    refine .bind (agrees_hostBlock ih hbt (Node.size_lt_of_mem (Node.mem_of_node? hb)) hstmt)
      fun q hq => .pure ?_
    rw [standIns_forEachStatement, h.standIns_kept hst]
    simpa using here.append hq
  · next no => exact (no _ _ _ hname hs hb).elim

omit h hn ih in
theorem agrees_freshLocal {m : Node} (hm : m ∈ t.preorder) (hw : wrappedForm? store m = none) :
    Agrees (fun r => standIns r.1 = []) (freshLocal store m) (freshLocal store' m) := by
  have declared : store'.declared? m = store.declared? m := congrArg Facts.declared (alike m hm hw)
  rw [freshLocal, freshLocal, declared]
  refine .bind (P := fun _ => True) (.same fun _ => trivial) fun holder _ => .pure ?_
  rw [standIns_localDeclaration, standIns_otherCall _ _ _ (by decide)]
  simp

theorem agrees_generatedForEach (hk : n.kind = .forEachStatement) :
    Agrees (fun qs => Accounts store n.preorder (qs.flatMap standIns))
      (generatedForEach store provided n) (generatedForEach store' provided n) := by
  have hw : wrappedForm? store n = none := wrappedForm?_of_kind (by simp [hk])
  rw [generatedForEach, generatedForEach]
  refine .bind (agrees_freshLocal alike hn hw) ?_
  rintro ⟨declaration, holder⟩ hd
  refine .bind (.mapM (P := fun m q => Accounts store m.1.preorder (standIns q)) _ ?_)
    fun parts hparts => .bind (.append _) fun q hq => .pure ?_
  · rintro ⟨m, hm⟩ -
    have part := (ih m (Node.size_lt_of_mem hm) (Node.mem_preorder_of_mem_nodes hn hm)).part
      (fun hd => by simpa [hk] using kind_of_declarator (h.laid n hn) hm hd)
      (h.quiet_child hn hm (by simp [hk]) (by simp [hk])) false
    simpa [quotePart] using part
  · rw [List.flatMap_cons, List.flatMap_singleton, hd, hq, List.nil_append, preorder_eq_flatMap]
    exact .construct (by simpa using Accounts.nodes (g := standIns) hparts) hw

theorem agrees_generatedDeclaration (hk : n.kind = .localDeclaration) :
    Agrees (fun qs => Accounts store n.preorder (qs.flatMap standIns))
      (generatedDeclaration store provided n) (generatedDeclaration store' provided n) := by
  have here : Accounts store [n] [] := .quiet (by simpa using wrappedForm?_of_kind (by simp [hk]))
  have below {d : Node} (hd : d ∈ n.nodes) := Node.mem_preorder_of_mem_nodes hn hd
  have kind {d : Node} (hd : d ∈ n.nodes) := isDeclarator_of_mem (h.laid n hn) hk hd
  have quiet {d : Node} (hd : d ∈ n.nodes) : wrappedForm? store d = none :=
    wrappedForm?_of_kind (by simp [kind hd])
  have declarator {d : Node} (hd : d ∈ n.nodes) : Accounts store [d] [] :=
    .quiet (by simpa using quiet hd)
  rw [generatedDeclaration, generatedDeclaration]
  dsimp only
  split
  · next d form hsingle =>
    obtain ⟨call, hnodes, hd, hform⟩ : ∃ call, n.nodes = [d] ∧ d.node? 0 = some call ∧
        providedForm? provided call = some form := by
      split at hsingle
      · next only hnodes =>
        obtain ⟨call, hcall, hsome⟩ := Option.bind_eq_some_iff.1 hsingle
        obtain ⟨f, hf, heq⟩ := Option.bind_eq_some_iff.1 hsome
        cases heq
        exact ⟨call, hnodes, hcall, hf⟩
      · cases hsingle
    have hdn : d ∈ n.nodes := by simp [hnodes]
    have hct := Node.mem_preorder_of_mem_nodes (below hdn) (Node.mem_of_node? hd)
    rw [h.provided call hct] at hform
    obtain ⟨value, hvalue, hexpr⟩ :=
      ((h.rules d (below hdn)).nodes_declarator (kind hdn)).resolve_left
        (List.ne_nil_of_mem (Node.mem_of_node? hd))
    obtain rfl : call = value := by simpa [Node.node?, hvalue] using hd.symm
    refine .bind (agrees_freshLocal alike (below hdn) (quiet hdn)) ?_
    rintro ⟨declaration, holder⟩ hdecl
    refine .bind (.append _) fun q hq => .pure ?_
    have given := h.accounts_given hct hexpr hform (.inr ⟨holder, rfl⟩)
    rw [List.flatMap_cons, List.flatMap_singleton, hdecl, hq, preorder_eq_flatMap, hnodes,
      List.flatMap_singleton, preorder_eq_flatMap d, hvalue, List.flatMap_singleton]
    exact here.append ((declarator hdn).append given)
  · next hsingle =>
    -- a wrapped call would be the value of the only declarator, and be provided
    have unasked {d v : Node} (hd : d ∈ n.nodes) (hv : d.node? 0 = some v) :
        wrappedForm? store v = none := by
      have hvm := Node.mem_of_node? hv
      have hvt := Node.mem_preorder_of_mem_nodes (below hd) hvm
      by_contra hw
      rcases h.placed v hvt hw with ⟨p, hp, hr, hm⟩ | ⟨s, hs, -, d', hnodes, hm⟩
      · rw [h.numbered.parent_unique hp (below hd) hm hvm, kind hd] at hr
        cases hr
      · have hds : d' ∈ s.nodes := by simp [hnodes]
        obtain rfl := h.numbered.parent_unique (Node.mem_preorder_of_mem_nodes hs hds) (below hd)
          hm hvm
        obtain rfl := h.numbered.parent_unique hs hn hds hd
        obtain ⟨form, hform⟩ := Option.ne_none_iff_exists'.1 hw
        simp [hnodes, hv, h.provided v hvt, hform] at hsingle
    refine .bind (.mapM (P := fun d r => standIns r.1 = [] ∧
      Accounts store d.1.preorder (standIns r.2)) _ ?_) fun parts hparts =>
      .bind (.append _) fun q hq => .pure ?_
    · rintro ⟨d, hd⟩ -
      refine .bind (agrees_freshLocal alike (below hd) (quiet hd)) ?_
      rintro ⟨declaration, holder⟩ hdecl
      dsimp only
      split
      · next value hv =>
        have hvm := Node.mem_of_node? hv
        obtain ⟨_, hnodes, hexpr⟩ :=
          ((h.rules d (below hd)).nodes_declarator (kind hd)).resolve_left
            (List.ne_nil_of_mem hvm)
        obtain rfl : value = _ := by simpa [Node.node?, hnodes] using hv.symm
        have inner : ∀ m : Node, m.size < d.size → m ∈ t.preorder → Serves store store' provided m :=
          fun m hm => ih m (Nat.lt_trans hm (Node.size_lt_of_mem hd))
        refine .bind (agrees_value (below hd) inner hvm hexpr (unasked hd hv)) fun q hq =>
          .pure ⟨hdecl, ?_⟩
        rw [preorder_eq_flatMap, hnodes, List.flatMap_singleton]
        exact .construct (by simpa using hq) (quiet hd)
      · next hv =>
        refine .pure ⟨hdecl, ?_⟩
        rw [preorder_eq_flatMap, List.length_eq_zero_iff.1 (Nat.le_zero.1
          (List.getElem?_eq_none_iff.1 hv))]
        have made : Accounts store [] ([Node.identifier holder].flatMap standIns) := by
          rw [List.flatMap_singleton, standIns_identifier]
          exact .quiet (by simp)
        exact made.construct (quiet hd)
    · have declared : (parts.map Prod.fst).flatMap standIns = [] := by
        refine List.flatMap_eq_nil_iff.2 fun e he => ?_
        obtain ⟨r, hr, rfl⟩ := List.mem_map.1 he
        obtain ⟨d, -, hd, -⟩ := (mem_of_forall₂ hparts).2 r hr
        exact hd
      have made := Accounts.nodes (g := fun r => standIns r.2) (hparts.imp fun _ _ hr => hr.2)
      rw [List.flatMap_append, declared, List.nil_append, List.flatMap_singleton, hq, construct,
        standIns_otherCall _ _ _ (by decide), List.flatMap_map, preorder_eq_flatMap]
      exact here.append made

theorem agrees_hostLevel (hk : n.kind.isStatement) (level : isHostLevel n) :
    Agrees (fun qs => Accounts store n.preorder (qs.flatMap standIns))
      (hostLevel store provided n) (hostLevel store' provided n) := by
  rw [hostLevel, hostLevel]
  split
  · next hg =>
    split
    · next hif =>
      exact .bind (agrees_hostIf h hn ih hif) fun q hq => .pure (by simpa using hq)
    · next hloop =>
      exact .bind (agrees_hostForEach h hn ih hloop) fun q hq => .pure (by simpa using hq)
    · next hif hloop =>
      refine .pure ?_
      simpa [h.standIns_kept hn] using Accounts.quiet (h.quiet_statement hn hk hg hif hloop)
  · next hg =>
    split
    · next hloop => exact agrees_generatedForEach h alike hn ih hloop
    · next hloop =>
      exact agrees_generatedDeclaration h alike hn ih (by simpa [isHostLevel, hg, hloop] using level)

theorem agrees_embedded (hk : n.kind.isStatement)
    (block : n.kind = .block → Agrees (fun qs => Accounts store n.preorder (qs.flatMap standIns))
      (hostStatements store provided n) (hostStatements store' provided n)) :
    Agrees (fun q => Accounts store n.preorder (standIns q)) (embedded store provided n)
      (embedded store' provided n) := by
  rw [embedded, embedded]
  split
  · next hb =>
    split
    · refine .bind (.closure (block hb)) fun q hq => .pure ?_
      rw [construct, standIns_otherCall _ _ _ (by decide)]
      simpa using hq
    · exact agrees_quoteStatement h alike hn ih hk (by simp [hb])
  · split
    · next level =>
      refine .bind (.closure (agrees_hostLevel h alike hn ih hk level)) fun q hq => .pure ?_
      rw [construct, standIns_otherCall _ _ _ (by decide)]
      simpa using hq
    · next level =>
      refine agrees_quoteStatement h alike hn ih hk fun hl => level ?_
      simp [isHostLevel, hl]

omit alike in
theorem agrees_hostStatements (hk : n.kind = .block) :
    Agrees (fun qs => Accounts store n.preorder (qs.flatMap standIns))
      (hostStatements store provided n) (hostStatements store' provided n) := by
  rw [hostStatements, hostStatements]
  refine .bind (.mapM (P := fun m qs => Accounts store m.1.preorder (qs.flatMap standIns)) _ ?_)
    fun qss hqss => .pure ?_
  · rintro ⟨m, hm⟩ -
    exact (ih m (Node.size_lt_of_mem hm) (Node.mem_preorder_of_mem_nodes hn hm)).statement
      ((h.rules n hn).nodes_block hk m hm)
  · have here : Accounts store [n] [] := .quiet (by simpa using wrappedForm?_of_kind (by simp [hk]))
    have parts := Accounts.nodes (g := List.flatMap standIns) hqss
    rw [preorder_eq_flatMap, List.flatten_eq_flatMap, List.flatMap_assoc]
    exact here.append parts

end

/-- What the quoter makes of an orderly template, whatever is known of its wrapped call. -/
theorem serves {store store' : FactStore} {provided : Option (Nat × CallForm)} {t : Node}
    (h : Orderly store provided t) (alike : Alike store store' t) (n : Node) (hn : n ∈ t.preorder) :
    Serves store store' provided n := by
  have ih : ∀ m : Node, m.size < n.size → m ∈ t.preorder → Serves store store' provided m :=
    fun m _ hm => serves h alike m hm
  have block (hk : n.kind = .block) := agrees_hostStatements h hn ih hk
  refine ⟨fun hd hw callee => ?_, fun hk => ?_, block⟩
  · rw [quotePart, quotePart]
    split
    · next hs => exact agrees_embedded h alike hn ih hs block
    · next hs =>
      have hs : n.kind.isStatement = false := by simpa using hs
      split
      · exact agrees_quoteCallee h alike hn ih hs hd hw
      · exact agrees_quote h alike hn ih hs hd hw
  · rw [hostStatement, hostStatement]
    split
    · next level => exact agrees_hostLevel h alike hn ih hk level
    · exact .bind (agrees_embedded h alike hn ih hk block) fun q hq =>
        .bind (.append q) fun q' hq' => .pure (by simpa [hq'] using hq)
termination_by n.size

/-! ## Generators -/

/-- The generator gives the call that its template wraps as often as the template asks for it, once
or never. No placeholder stands for a wrapped call: each literal of the generator stands for a node
that is none, and whatever is known of the wrapped call, its quoting gives the same code. -/
structure GivesOnce (store : FactStore) (t program : Node) : Prop where
  once : (wrappedCalls store t).length ≤ 1
  given : List.Forall₂ (fun call q => ∃ form, wrappedForm? store call = some form ∧ GivesCall form q)
    (wrappedCalls store t) (program.preorder.filter isProviding)
  standIns : Accounts store t.preorder (standIns program)
  unread : ∀ store', Alike store store' t → ∀ body, t.nodeOfKind? .block = some body →
    hostStatements store' (provided? store t) body = hostStatements store (provided? store t) body

/-- What is accounted for gives each wrapped call once. -/
theorem Accounts.given_eq {store : FactStore} {t program : Node}
    (h : Accounts store t.preorder (standIns program)) :
    List.Forall₂ (fun call q => ∃ form, wrappedForm? store call = some form ∧ GivesCall form q)
      (wrappedCalls store t) (program.preorder.filter isProviding) := by
  obtain ⟨ns, -, all, stand⟩ := h
  have providing : (standIns program).filter isProviding = program.preorder.filter isProviding := by
    rw [Quotation.standIns, List.filter_filter]
    congr 1
    funext q
    cases isProviding q <;> simp
  have filtered := List.rel_filter (p := fun n => (wrappedForm? store n).isSome)
    (q := isProviding) (fun n q hs => hs.isProviding) stand
  rw [all, providing] at filtered
  have asked : ∀ call ∈ wrappedCalls store t, (wrappedForm? store call).isSome :=
    fun call hcall => (List.mem_filter.1 hcall).2
  refine ((List.forall₂_and_left _ _).2 ⟨asked, filtered⟩).imp fun call q hcall => ?_
  obtain ⟨hsome, stands⟩ := hcall
  obtain ⟨form, hform⟩ := Option.isSome_iff_exists.1 hsome
  rw [StandsFor, hform] at stands
  exact ⟨form, hform, stands⟩

theorem givesOnce_quoteTemplate {store : FactStore} {t : Node}
    (h : Orderly store (provided? store t) t) (hk : t.kind = .template)
    (once : (wrappedCalls store t).length ≤ 1) :
    GivesOnce store t (quoteTemplate store t).1.program := by
  obtain ⟨ps, body, hnodes, hps, hkind⟩ := (h.rules t t.mem_preorder_self).nodes_template hk
  have below {m : Node} (hm : m ∈ t.nodes) := Node.mem_preorder_of_mem_nodes t.mem_preorder_self hm
  have hbody : body ∈ t.nodes := by simp [hnodes]
  have found : t.nodeOfKind? .block = some body := by
    have none : ps.find? (·.kind == .block) = none :=
      List.find?_eq_none.2 fun p hp => by simp [hps p hp]
    simp [Node.nodeOfKind?, hnodes, List.find?_append, none, hkind]
  have served (store' : FactStore) (alike : Alike store store' t) :=
    (serves h alike body (below hbody)).block hkind
  have accounts : Accounts store t.preorder (standIns (quoteTemplate store t).1.program) := by
    have start : Accounts store (t :: ps.flatMap Node.preorder) [] := by
      refine .quiet (List.forall_mem_cons.2 ⟨wrappedForm?_of_kind (by simp [hk]), fun x hx => ?_⟩)
      obtain ⟨p, hp, hx⟩ := List.mem_flatMap.1 hx
      exact h.quiet_parameter (below (by simp [hnodes, hp])) (hps p hp) x hx
    have made := (served store (fun _ _ _ => rfl) .initial).2
    have parameters : (t.nodes.filter (·.kind == .parameter)).flatMap standIns = [] :=
      List.flatMap_eq_nil_iff.2 fun p hp => h.standIns_kept (below (List.mem_filter.1 hp).1)
    have result : standIns (.returnStatement (some (construct "Block"
        [.identifier (accumulatorName 0)]))) = [] := by
      rw [standIns_returnStatement, construct, standIns_otherCall _ _ _ (by decide)]
      simp
    rw [program_quoteTemplate store found, standIns_template, parameters, standIns_block,
      preorder_eq_flatMap, hnodes]
    simpa [result, bodyStatements] using start.append made
  exact ⟨once, accounts.given_eq, accounts, fun store' alike body' hbody' => by
    cases found.symm.trans hbody'
    exact funext fun s => (served store' alike s).1⟩

end Stencil.Quotation
