import Stencil.Proofs.Quotation.Careful
import Stencil.Proofs.Quotation.Variables

/-!
# Generators guard what they run

Of a careful template the quoter makes guarded code. The proof follows the tree: what is made of a
part is guarded wherever the accumulator and the holders that the part refers to are known, and
statements tell besides which locals they declared for those that follow.

Results:

* `brings_structural`, `brings_hostLevel` and so on – what each function of the quoter makes;
* `guards` – what is made of the nodes of a careful template;
* `guarded_quoteTemplate` – the body of its generator is guarded.
-/
namespace Stencil.Quotation

open Expansion

variable {c : Concern} {inside : Bool} {known : List String} {store : FactStore} {root : Node}

/-! ## What the quoter leaves behind -/

/-- `P` holds of what is made from the state and of the state after it. -/
def Brings {α : Type} (s : State) (act : Quoter α) (P : α → State → Prop) : Prop :=
  P (act.run s).1 (act.run s).2

/-- Nothing has been declared. -/
structure State.Level (s s' : State) : Prop where
  frame : s'.frame = s.frame
  outer : s'.outer = s.outer

namespace State.Level

variable {s s' s'' : State}

theorem refl (s : State) : s.Level s := ⟨rfl, rfl⟩

theorem trans (h : s.Level s') (h' : s'.Level s'') : s.Level s'' :=
  ⟨h'.frame.trans h.frame, h'.outer.trans h.outer⟩

theorem holder? (h : s.Level s') (v : Symbol) : s'.holder? v = s.holder? v := by
  rw [State.holder?, State.holder?, h.frame, h.outer]

theorem kept (h : s.Level s') : s.Kept s' := ⟨congrArg Frame.accumulator h.frame, h.outer⟩

end State.Level

namespace Brings

variable {α β γ : Type} {s : State} {P : α → State → Prop} {Q : β → State → Prop}

theorem pure {x : α} (h : P x s) : Brings s (pure x) P := h

theorem bind {act : Quoter α} {k : α → Quoter β} (h : Brings s act P)
    (hk : ∀ x s', P x s' → Brings s' (k x) Q) : Brings s (act >>= k) Q :=
  hk (act.run s).1 (act.run s).2 h

theorem mono {P' : α → State → Prop} {act : Quoter α} (h : Brings s act P)
    (hP : ∀ x s', P x s' → P' x s') : Brings s act P' :=
  hP _ _ h

theorem mapM {T : α → Prop} {f : γ → Quoter α} (xs : List γ)
    (h : ∀ x ∈ xs, ∀ s', s.Level s' → Brings s' (f x) fun y s'' => T y ∧ s'.Level s'') :
    Brings s (xs.mapM f) fun ys s' => (∀ y ∈ ys, T y) ∧ s.Level s' := by
  induction xs generalizing s with
  | nil => exact .pure ⟨by simp, .refl s⟩
  | cons x xs ih =>
    rw [List.mapM_cons]
    refine .bind (h x List.mem_cons_self s (.refl s)) fun y s' hy => ?_
    obtain ⟨hy, hs⟩ := hy
    have rest := ih (s := s') fun x' hx s'' hs' =>
      h x' (List.mem_cons_of_mem _ hx) s'' (hs.trans hs')
    refine rest.bind fun ys s'' hys => .pure ⟨List.forall_mem_cons.2 ⟨hy, hys.1⟩, hs.trans hys.2⟩

end Brings

/-- Code that was made without declaring anything. -/
def Parted (c : Concern) (known : List String) (s : State) (q : Node) (s' : State) : Prop :=
  GuardedPart c known q ∧ s.Level s'

/-- The accumulator and the variables that hold the names of what the node refers to are known. -/
structure Served (c : Concern) (store : FactStore) (s : State) (known : List String) (n : Node) :
    Prop where
  accumulator : s.frame.accumulator ∈ known
  holders : ∀ x ∈ n.preorder, x.kind = .identifier → ∀ v holder, store.symbol? x = some v →
    s.holder? v = some holder → c.watched holder → holder ∈ known

/-- In `n`, and nowhere else, locals got holders, all but `holders` for references inside `n`. -/
structure Grows (c : Concern) (store : FactStore) (root n : Node) (holders : List String)
    (s s' : State) : Prop where
  kept : s.Kept s'
  entries : ∀ v holder, s'.holder? v = some holder → s.holder? v = some holder ∨
    ∃ d ∈ n.preorder, (d.kind = .declarator ∨ d.kind = .forEachStatement) ∧
      store.declared? d = some v
  visible : ∀ x ∈ root.preorder, x.kind = .identifier → x ∉ n.preorder → ∀ v holder,
    store.symbol? x = some v → s'.holder? v = some holder → c.watched holder →
    s.holder? v = some holder ∨ holder ∈ holders

section

variable {s s' s'' : State} {n m : Node}

namespace Served

theorem level (h : Served c store s known n) (hs : s.Level s') : Served c store s' known n :=
  ⟨hs.frame ▸ h.accumulator, fun x hx hk v holder hv hh =>
    h.holders x hx hk v holder hv (hs.holder? v ▸ hh)⟩

theorem child (h : Served c store s known n) (hm : m ∈ n.nodes) : Served c store s known m :=
  ⟨h.accumulator, fun x hx => h.holders x (Node.preorder_subset hm hx)⟩

theorem enter (h : Served c store s known n) :
    Served c store s.enter (accumulatorName s.accumulators :: known) n :=
  ⟨List.mem_cons_self, fun x hx hk v holder hv hh hw =>
    List.mem_cons_of_mem _ (h.holders x hx hk v holder hv hh hw)⟩

/-- What is referred to elsewhere is known once the declarations of `m` have been made. -/
theorem after {holders : List String} (h : Served c store s known n) (hn : n ∈ root.preorder)
    (hg : Grows c store root m holders s s') (apart : ∀ x ∈ n.preorder, x ∉ m.preorder) :
    Served c store s' (holders ++ known) n := by
  refine ⟨?_, fun x hx hk v holder hv hh hw => ?_⟩
  · rw [hg.kept.accumulator]
    exact List.mem_append_right _ h.accumulator
  · rcases hg.visible x (Node.preorder_trans hn hx) hk (apart x hx) v holder hv hh hw with hh | hh
    · exact List.mem_append_right _ (h.holders x hx hk v holder hv hh hw)
    · exact List.mem_append_left _ hh

end Served

namespace Grows

variable {holders holders' : List String}

theorem of_level (h : s.Level s') : Grows c store root n holders s s' :=
  ⟨h.kept, fun v _ hh => .inl (h.holder? v ▸ hh), fun _ _ _ _ v _ _ hh _ => .inl (h.holder? v ▸ hh)⟩

theorem mono (h : Grows c store root n holders s s') (hsub : holders ⊆ holders') :
    Grows c store root n holders' s s' :=
  ⟨h.kept, h.entries, fun x hx hk ho v holder hv hh hw =>
    (h.visible x hx hk ho v holder hv hh hw).imp_right fun hm => hsub hm⟩

theorem trans (h : Grows c store root n holders s s') (h' : Grows c store root n holders s' s'') :
    Grows c store root n holders s s'' := by
  refine ⟨⟨h'.kept.accumulator.trans h.kept.accumulator, h'.kept.outer.trans h.kept.outer⟩, ?_, ?_⟩
  · intro v holder hh
    exact (h'.entries v holder hh).elim (h.entries v holder) .inr
  · intro x hx hk ho v holder hv hh hw
    exact (h'.visible x hx hk ho v holder hv hh hw).elim
      (fun hh => h.visible x hx hk ho v holder hv hh hw) .inr

theorem parent (h : Grows c store root m holders s s') (hm : m ∈ n.nodes) :
    Grows c store root n holders s s' :=
  ⟨h.kept, fun v holder hh => (h.entries v holder hh).imp_right
      (.imp fun _ hd => hd.imp_left (Node.preorder_subset hm ·)),
    fun x hx hk ho => h.visible x hx hk fun hin => ho (Node.preorder_subset hm hin)⟩

/-- Nothing outside a block or a loop refers to the locals that are declared in it. -/
theorem of_scope (hc : Careful c store root) (hn : n ∈ root.preorder)
    (hk : n.kind = .block ∨ n.kind = .forEachStatement) (kept : s.Kept s')
    (entries : ∀ v holder, s'.holder? v = some holder → s.holder? v = some holder ∨
      ∃ d ∈ n.preorder, (d.kind = .declarator ∨ d.kind = .forEachStatement) ∧
        store.declared? d = some v) : Grows c store root n [] s s' := by
  refine ⟨kept, entries, fun x hx hxk ho v holder hv hh hw => .inl ?_⟩
  rcases entries v holder hh with hh | ⟨d, hd, hdk, hdv⟩
  · exact hh
  · exact absurd ((hc.locals holder hw).enclosed x hx hxk d (Node.preorder_trans hn hd) hdk v hv hdv
      n hn hk hd) ho

end Grows

end

/-! ## Pieces -/

section

variable {provided : Option (Nat × CallForm)} {s : State} {n m : Node} (hc : Careful c store root)

include hc

theorem Careful.host {name : String}
    (h : name ∈ ["Syntax", "Context", "TokenKind", "DeferredCallForm"]) :
    c.watched name → name ∈ known := fun hw => absurd hw (hc.hosts name h)

theorem Careful.construct {t : String} {arguments : List Node}
    (h : ∀ q ∈ arguments, GuardedPart c known q) : GuardedPart c known (construct t arguments) :=
  guardedPart_methodCall (hc.host (by simp)) h

theorem Careful.ofContext {t : String} {arguments : List Node}
    (h : ∀ q ∈ arguments, GuardedPart c known q) :
    GuardedPart c known (.methodCall "Context" t arguments) :=
  guardedPart_methodCall (hc.host (by simp)) h

theorem Careful.tokenKindPath (k : TokenKind) : GuardedPart c known (tokenKindPath k) :=
  guardedPart_memberAccess (hc.host (by simp))

theorem Careful.formPath (form : CallForm) : GuardedPart c known (formPath form) :=
  guardedPart_memberAccess (hc.host (by simp))

theorem Careful.placeholder : GuardedPart c known placeholder :=
  hc.construct (List.forall_mem_singleton.2 (hc.construct (List.forall_mem_singleton.2
    (hc.tokenKindPath _))))

theorem Careful.quoteToken (t : Token) : GuardedPart c known (quoteToken t) := by
  refine hc.construct (List.forall_mem_cons.2 ⟨hc.tokenKindPath _, ?_⟩)
  split
  · exact List.forall_mem_nil _
  · exact List.forall_mem_singleton.2 (guardedPart_text _)

theorem Careful.openAccumulator (k : Nat) :
    Guarded c inside known (openAccumulator (accumulatorName k)) :=
  guarded_localDeclaration (hc.accumulators k) (hc.construct (List.forall_mem_nil _))

theorem brings_lift (hn : n ∈ root.preorder) (hk : n.kind.isExpression) :
    Brings s (lift store n) (Parted c known s) := by
  unfold lift
  split
  · exact .pure ⟨hc.placeholder, .refl s⟩
  · exact .pure ⟨hc.placeholder, .refl s⟩
  · split
    · refine .pure ⟨hc.construct (List.forall_mem_singleton.2 (hc.construct ?_)), .refl s⟩
      exact List.forall_mem_singleton.2 (hc.guardedPart hn hk)
    · exact ⟨hc.placeholder, rfl, rfl⟩

omit hc in
/-- A declaration gives its variable a holder, and the other variables keep theirs. -/
theorem holder?_declare (name : String) (w : Option Symbol) (v : Symbol) :
    ((declare name w).run s).2.holder? v =
      if w = some v then some (holderName name s.names) else s.holder? v := by
  cases w with
  | none => rfl
  | some w =>
    change State.holder? { s with frame := { s.frame with
      locals := (w, holderName name s.names) :: s.frame.locals }, names := s.names + 1 } v = _
    by_cases h : w = v
    · simp [State.holder?, h]
    · simp [State.holder?, List.findSome?_cons, List.lookup_cons, h,
        beq_eq_false_iff_ne.2 (Ne.symm h)]

omit hc in
/-- Adding to the block that is built. -/
theorem brings_append {q : Node} (hs : s.frame.accumulator ∈ known) (hq : GuardedPart c known q) :
    Brings s (append q) fun e s' => (∀ inside, Row c inside known [e]) ∧ s' = s := by
  refine ⟨fun _ => .singleton rfl (guarded_expressionStatement ?_), rfl⟩
  exact guardedPart_methodCall (t := "Add") (fun _ => hs) (List.forall_mem_singleton.2 hq)

/-- Naming a generated local. -/
structure Declares (c : Concern) (store : FactStore) (d : Node) (s : State) (r : Node × String)
    (s' : State) : Prop where
  kind : r.1.kind.isStatement
  declared : declaredBy [r.1] = [r.2]
  guarded : ∀ {inside known}, Guarded c inside known r.1
  kept : s.Kept s'
  entries : ∀ v holder, s'.holder? v = some holder → s.holder? v = some holder ∨
    holder = r.2 ∧ store.declared? d = some v

omit hc in
theorem Declares.level {d : Node} {r : Node × String} {s' s'' : State}
    (h : Declares c store d s r s') (hs : s'.Level s'') : Declares c store d s r s'' :=
  ⟨h.kind, h.declared, h.guarded, ⟨(congrArg Frame.accumulator hs.frame).trans h.kept.accumulator,
    hs.outer.trans h.kept.outer⟩, fun v holder hh => h.entries v holder (hs.holder? v ▸ hh)⟩

omit hc in
/-- The statement that declares the local's name, followed by what is built with it. -/
theorem Declares.hosted {d q : Node} {r : Node × String} {s' : State}
    (h : Declares c store d s r s') (hd : d ∈ n.preorder)
    (hk : d.kind = .declarator ∨ d.kind = .forEachStatement)
    (row : Row c inside (r.2 :: known) [q]) :
    Row c inside known [r.1, q] ∧ Grows c store root n (declaredBy [r.1, q]) s s' := by
  refine ⟨.cons h.kind h.guarded (h.declared.symm ▸ row), h.kept, fun v holder hh => ?_,
    fun x _ _ _ v holder _ hh _ => ?_⟩
  · exact (h.entries v holder hh).imp_right fun hv => ⟨d, hd, hk, hv.2⟩
  · refine (h.entries v holder hh).imp_right fun hv => ?_
    rw [← List.singleton_append, declaredBy_append, h.declared, hv.1]
    exact List.mem_cons_self

theorem brings_freshLocal : Brings s (freshLocal store n) (Declares c store n s) := by
  refine ⟨rfl, rfl, ?_, ⟨rfl, rfl⟩, fun v holder hh => ?_⟩
  · exact guarded_localDeclaration (hc.holders _ _)
      (hc.ofContext (List.forall_mem_singleton.2 (guardedPart_text _)))
  · change ((declare n.nameOrEmpty (store.declared? n)).run s).2.holder? v = some holder at hh
    rw [holder?_declare] at hh
    split at hh
    · next hv => exact .inr ⟨(Option.some.inj hh).symm, hv⟩
    · exact .inl hh

/-- The code of a nested block that needs statements of the generator. -/
theorem brings_closure {act : Quoter (List Node)}
    (h : Brings s.enter act fun qs s' =>
      Row c false (accumulatorName s.accumulators :: known) qs ∧ s.enter.Kept s') :
    Brings s (nested do closure (← act)) (Parted c known s) := by
  have built : Brings s.enter (do closure (← act)) fun q s' =>
      GuardedPart c known q ∧ s.enter.Kept s' := by
    refine h.bind fun qs s' hqs => ?_
    obtain ⟨row, kept⟩ := hqs
    rw [closure]
    refine .bind (P := fun name s'' => name = accumulatorName s.accumulators ∧ s'' = s')
      ⟨kept.accumulator, rfl⟩ ?_
    rintro _ _ ⟨rfl, rfl⟩
    refine .pure ⟨guardedPart_closureCall ?_, kept⟩
    rw [List.cons_append]
    refine .cons rfl (hc.openAccumulator _) (row.append (.singleton rfl ?_))
    refine guarded_returnStatement (guardedPart_identifier fun _ => List.mem_append_right _ ?_)
    exact List.mem_cons_self
  unfold Brings at *
  rw [run_nested]
  refine ⟨built.1, ?_⟩
  rw [built.2.leave]
  exact ⟨rfl, rfl⟩

end

/-! ## Following the tree -/

/-- What is made of a statement: code that is guarded, and which tells what follows of the locals
that were declared. -/
structure Hosted (c : Concern) (store : FactStore) (root : Node) (inside : Bool)
    (known : List String) (n : Node) (s : State) (qs : List Node) (s' : State) : Prop where
  row : Row c inside known qs
  grows : Grows c store root n (declaredBy qs) s s'
  closed : (n.kind = .localDeclaration → n.stage? = some .generationTime) →
    Grows c store root n [] s s'

/-- What the quoter makes of a node: as a part of generated code, as a statement, and as the
statements of a block. -/
structure Guards (c : Concern) (store : FactStore) (root : Node)
    (provided : Option (Nat × CallForm)) (n : Node) : Prop where
  part : ∀ {known s}, Served c store s known n → (c.jumps = true → ¬Loose n) → ∀ callee,
    Brings s (quotePart store provided callee n) (Parted c known s)
  statement : n.kind.isStatement → ∀ {inside known s}, Served c store s known n →
    (c.jumps = true → inside = false ∨ n.kind = .block → ¬Loose n) →
    Brings s (hostStatement store provided n) (Hosted c store root inside known n s)
  block : n.kind = .block → ∀ {inside known s}, Served c store s known n →
    (c.jumps = true → inside = false → ¬Loose n) →
    Brings s (hostStatements store provided n) (Hosted c store root inside known n s)

section

variable {provided : Option (Nat × CallForm)} {s : State} {n m : Node}

/-- What is nested in a statement other than a loop leaves it as the statement does. -/
theorem not_loose_child (hm : m ∈ n.nodes) (hk : n.kind ≠ .forEachStatement) (h : ¬Loose n) :
    ¬Loose m := fun loose => h (.inside hm loose hk)

theorem hostStatements_eq : hostStatements store provided n =
    (return (← n.nodes.mapM (hostStatement store provided)).flatten) := by
  rw [hostStatements]
  conv => rhs; rw [← List.attach_map_subtype_val n.nodes, List.mapM_map]
  rfl

/-- Naming a local serves what refers to it. -/
theorem Served.declare {d : Node} {r : Node × String} {s' : State}
    (h : Served c store s known n) (hd : Declares c store d s r s') :
    Served c store s' (r.2 :: known) n := by
  refine ⟨?_, fun x hx hk v holder hv hh hw => ?_⟩
  · rw [hd.kept.accumulator]
    exact List.mem_cons_of_mem _ h.accumulator
  · rcases hd.entries v holder hh with hh | ⟨rfl, -⟩
    · exact List.mem_cons_of_mem _ (h.holders x hx hk v holder hv hh hw)
    · exact List.mem_cons_self

variable (hc : Careful c store root)

include hc

theorem brings_structural
    (h : ∀ m ∈ n.nodes, ∀ callee s', s.Level s' →
      Brings s' (quotePart store provided callee m) (Parted c known s')) :
    Brings s (structural store provided n) (Parted c known s) := by
  rw [structural]
  refine .bind (.mapM (T := GuardedPart c known) _ ?_) fun qs s' hqs =>
    .pure ⟨hc.construct hqs.1, hqs.2⟩
  rintro ⟨⟨x, hx⟩, index⟩ - s' hs
  cases x with
  | token t => exact .pure ⟨hc.quoteToken t, .refl s'⟩
  | node m => exact h m (Node.mem_nodes.2 hx) (index = 0 && n.kind = .invocation) s' hs

theorem brings_quote (hn : n ∈ root.preorder)
    (served : Served c store s known n)
    (h : Brings s (structural store provided n) (Parted c known s)) :
    Brings s (quote store provided n) (Parted c known s) := by
  rw [quote]
  split
  · next hsplice =>
    refine .pure ⟨hc.construct (List.forall_mem_singleton.2 ?_), .refl s⟩
    exact hc.guardedPart hn (hc.spliced n hn hsplice)
  split
  · exact h
  next hk =>
  split
  · exact .pure ⟨hc.placeholder, .refl s⟩
  split
  · exact brings_lift hc hn (by simpa using hk)
  split
  · next hid =>
    cases hv : (store.symbol? n).bind s.holder? with
    | none =>
      unfold Brings
      rw [run_heldOr_none hv]
      exact h
    | some holder =>
      obtain ⟨v, hsym, hh⟩ := Option.bind_eq_some_iff.1 hv
      unfold Brings
      rw [run_heldOr_some hv]
      refine ⟨hc.construct (List.forall_mem_singleton.2 (guardedPart_identifier fun hw => ?_)),
        .refl s⟩
      exact served.holders n n.mem_preorder_self hid v holder hsym hh hw
  · exact h

theorem brings_quoteCallee (hn : n ∈ root.preorder)
    (served : Served c store s known n)
    (h : Brings s (structural store provided n) (Parted c known s)) :
    Brings s (quoteCallee store provided n) (Parted c known s) := by
  rw [quoteCallee]
  split
  · exact h
  · exact brings_quote hc hn served h

/-- Generated statements are not left by jumps of generation time. -/
theorem Careful.not_loose_of_generated (hj : c.jumps = true) (hn : n ∈ root.preorder)
    (hs : n.kind.isStatement) (hl : isHostLevel n = false) (hb : n.kind = .block → ¬Loose n) :
    ¬Loose n := by
  simp only [isHostLevel, Bool.or_eq_false_iff, beq_eq_false_iff_ne] at hl
  obtain ⟨⟨stage, declaration⟩, loop⟩ := hl
  by_cases hb' : n.kind = .block
  · exact hb hb'
  by_cases hi : n.kind = .ifStatement
  · exact (hc.jumps hj).conditions n hn hi stage
  intro loose
  cases loose with
  | jump _ stage' => exact stage stage'
  | inside hm loose =>
    refine hc.not_loose_of_isInert (Node.mem_preorder_of_mem_nodes hn hm) ?_ loose
    exact hc.inert_child hn (.inl hs) (by simp [*]) hm

section

variable (ih : ∀ m : Node, m.size < n.size → m ∈ root.preorder → Guards c store root provided m)

include ih

omit hc in
theorem brings_part (hn : n ∈ root.preorder) (served : Served c store s known n) (hm : m ∈ n.nodes)
    (stay : c.jumps = true → ¬Loose m) (callee : Bool) :
    Brings s (quotePart store provided callee m) (Parted c known s) :=
  (ih m (Node.size_lt_of_mem hm) (Node.mem_preorder_of_mem_nodes hn hm)).part (served.child hm) stay
    callee

/-- The quoted value of a `return` or a declarator. -/
theorem brings_value (hn : n ∈ root.preorder) (served : Served c store s known n) {v : Node}
    (hk : n.kind = .returnStatement ∨ n.kind = .declarator) (hn0 : n.node? 0 = some v) :
    Brings s (quote store provided v) (Parted c known s) := by
  have hexpr := (hc.rule n hn).first_isExpression (hk.imp_right .inl) hn0
  have hs : v.kind.isStatement = false := by
    revert hexpr
    cases v.kind <;> decide
  have hm := Node.mem_of_node? hn0
  have inert : ¬Loose v := hc.not_loose_of_isInert (Node.mem_preorder_of_mem_nodes hn hm)
    (by simp [Staging.isInert, hexpr])
  have quoted := brings_part ih hn served hm (fun _ => inert) false
  rwa [quotePart, hs, if_neg Bool.false_ne_true, if_neg Bool.false_ne_true] at quoted

theorem brings_quoteStatement (hn : n ∈ root.preorder) (served : Served c store s known n)
    (hk : n.kind ≠ .forEachStatement) (stay : c.jumps = true → ¬Loose n) :
    Brings s (quoteStatement store provided n) (Parted c known s) := by
  rw [quoteStatement]
  split
  · exact brings_structural hc fun m hm callee s' hs =>
      brings_part ih hn (served.level hs) hm (fun hj => not_loose_child hm hk (stay hj)) callee
  · next hk =>
    have hk : n.kind = .returnStatement := not_not.1 hk
    split
    · exact .pure ⟨hc.ofContext (List.forall_mem_nil _), .refl s⟩
    · next value hn0 =>
      split
      · exact .pure ⟨hc.ofContext (List.forall_mem_singleton.2 (hc.formPath _)), .refl s⟩
      · refine .bind (brings_value hc ih hn served (.inl hk) hn0) fun q s' hq => .pure ⟨?_, hq.2⟩
        exact hc.ofContext
          (List.forall_mem_cons.2 ⟨hq.1, List.forall_mem_singleton.2 (guardedPart_text _)⟩)

theorem brings_embedded (hn : n ∈ root.preorder) (served : Served c store s known n)
    (stay : c.jumps = true → ¬Loose n)
    (block : n.kind = .block → ∀ {known s}, Served c store s known n →
      Brings s (hostStatements store provided n) (Hosted c store root false known n s))
    (level : isHostLevel n → ∀ {known s}, Served c store s known n →
      Brings s (hostLevel store provided n) (Hosted c store root false known n s)) :
    Brings s (embedded store provided n) (Parted c known s) := by
  have closed {act : Quoter (List Node)} (h : ∀ {known s}, Served c store s known n →
      Brings s act (Hosted c store root false known n s)) :
      Brings s (nested do closure (← act)) (Parted c known s) :=
    brings_closure hc ((h served.enter).mono fun _ _ hosted => ⟨hosted.row, hosted.grows.kept⟩)
  rw [embedded]
  split
  · next hk =>
    split
    · exact .bind (closed (block hk)) fun q s' hq =>
        .pure ⟨hc.construct (List.forall_mem_singleton.2 hq.1), hq.2⟩
    · exact brings_quoteStatement hc ih hn served (by rw [hk]; decide) stay
  · split
    · next h =>
      exact .bind (closed (level h)) fun q s' hq =>
        .pure ⟨hc.construct (List.forall_mem_singleton.2 hq.1), hq.2⟩
    · next h =>
      refine brings_quoteStatement hc ih hn served (fun hk => h ?_) stay
      simp [isHostLevel, hk]

/-! ### Statements of the generator -/

/-- Statements in a row, each of which refers to what those before it declared. -/
theorem brings_row (hn : n ∈ root.preorder) (hk : n.kind = .block) (ms : List Node)
    (hms : ms ⊆ n.nodes) (apart : ms.Pairwise Node.Disjoint) {s : State} {known : List String}
    (served : ∀ m ∈ ms, Served c store s known m)
    (stay : c.jumps = true → inside = false → ¬Loose n) :
    Brings s (ms.mapM (hostStatement store provided)) fun qss s' =>
      Row c inside known qss.flatten ∧ Grows c store root n (declaredBy qss.flatten) s s' := by
  induction ms generalizing s known with
  | nil => exact .pure ⟨.nil, .of_level (.refl s)⟩
  | cons m ms ih' =>
    obtain ⟨hm, hms⟩ := List.cons_subset.1 hms
    obtain ⟨here, there⟩ := List.pairwise_cons.1 apart
    obtain ⟨first, rest⟩ := List.forall_mem_cons.1 served
    have inRoot {x : Node} (hx : x ∈ n.nodes) := Node.mem_preorder_of_mem_nodes hn hx
    have statement :
        Brings s (hostStatement store provided m) (Hosted c store root inside known m s) := by
      refine (ih m (Node.size_lt_of_mem hm) (inRoot hm)).statement
        ((hc.rule n hn).nodes_block hk m hm) first fun hj h => ?_
      rcases h with h | h
      · exact not_loose_child hm (by rw [hk]; decide) (stay hj h)
      · exact (hc.jumps hj).blocks n hn hk m hm h
    rw [List.mapM_cons]
    refine statement.bind fun qs s' hosted => ?_
    have served' : ∀ m' ∈ ms, Served c store s' (declaredBy qs ++ known) m' := fun m' hm' =>
      (rest m' hm').after (inRoot (hms hm')) hosted.grows
        fun x hx hx' => here m' hm' x hx' x hx rfl
    refine (ih' hms there served').bind fun qss s'' hrest => .pure ?_
    obtain ⟨row, grows⟩ := hrest
    rw [List.flatten_cons, declaredBy_append]
    have before : Grows c store root n (declaredBy qs) s s' := hosted.grows.parent hm
    exact ⟨hosted.row.append row, (before.mono (List.subset_append_left _ _)).trans
      (grows.mono (List.subset_append_right _ _))⟩

theorem brings_hostStatements (hn : n ∈ root.preorder) (hk : n.kind = .block)
    (served : Served c store s known n) (stay : c.jumps = true → inside = false → ¬Loose n) :
    Brings s (hostStatements store provided n) (Hosted c store root inside known n s) := by
  rw [hostStatements_eq]
  refine (brings_row hc ih hn hk n.nodes (List.Subset.refl _) (hc.numbered.below hn).siblings
    (fun m hm => served.child hm) stay).bind fun qss s' h => .pure ?_
  obtain ⟨row, grows⟩ := h
  exact ⟨row, grows, fun _ => .of_scope hc hn (.inl hk) grows.kept grows.entries⟩

omit hc in
/-- The body of a loop of the generator, or a branch of its control flow. -/
theorem brings_hostBlock (inside : Bool) (hm : m ∈ root.preorder) (hsize : m.size < n.size)
    (hk : m.kind.isStatement) (served : Served c store s known m)
    (stay : c.jumps = true → inside = false → ¬Loose m) :
    Brings s (hostBlock store provided m) fun q s' => ∃ steps, q = .block steps ∧
      Row c inside known steps ∧ Grows c store root m (declaredBy steps) s s' ∧
      ((∀ holder, c.watched holder → m.kind = .localDeclaration →
        m.stage? = some .generationTime) → Grows c store root m [] s s') := by
  have guards := ih m hsize hm
  rw [hostBlock]
  split
  · next hb =>
    refine .bind (guards.block hb served stay) fun qs s' hosted =>
      .pure ⟨qs, rfl, hosted.row, hosted.grows, fun _ => hosted.closed fun h => ?_⟩
    rw [hb] at h
    cases h
  · next hb =>
    refine .bind (guards.statement hk served fun hj h => stay hj (h.resolve_right hb))
      fun qs s' hosted => .pure ⟨qs, rfl, hosted.row, hosted.grows, fun braced => ?_⟩
    exact ⟨hosted.grows.kept, hosted.grows.entries, fun x hx hxk ho v holder hv hh hw =>
      (hosted.closed (braced holder hw)).visible x hx hxk ho v holder hv hh hw⟩

theorem brings_hostIf (hn : n ∈ root.preorder) (hk : n.kind = .ifStatement)
    (stage : n.stage? = some .generationTime) (served : Served c store s known n)
    (stay : c.jumps = true → inside = false → ¬Loose n) :
    Brings s (hostIf store provided n) fun q s' =>
      (q.kind = .ifStatement ∧ Guarded c inside known q) ∧ Grows c store root n [] s s' := by
  have inRoot {x : Node} (hx : x ∈ n.nodes) := Node.mem_preorder_of_mem_nodes hn hx
  have loop : n.kind ≠ .forEachStatement := by rw [hk]; decide
  have braced {m : Node} (hm : m ∈ branchesOf n) : ∀ holder, c.watched holder →
      m.kind = .localDeclaration → m.stage? = some .generationTime :=
    fun holder hw => (hc.locals holder hw).braced n hn hk stage m hm
  rw [hostIf]
  split
  · next condition thenBranch hcond hthen =>
    have hexpr := (hc.rule n hn).first_isExpression (.inr (.inr hk)) hcond
    have hstmt := (hc.rule n hn).body_isStatement (.inl ⟨.inl hk, rfl⟩) hthen
    have part : GuardedPart c known condition :=
      hc.guardedPart (inRoot (Node.mem_of_node? hcond)) hexpr
    have ht := Node.mem_of_node? hthen
    have first :=
      brings_hostBlock ih inside (inRoot ht) (Node.size_lt_of_mem ht) hstmt (served.child ht)
      fun hj hi => not_loose_child ht loop (stay hj hi)
    refine first.bind ?_
    rintro _ s₁ ⟨steps, rfl, row, -, closed⟩
    have grows := closed (braced (by simp [branchesOf, hthen]))
    have alone : Brings s₁ (pure (.ifStatement condition (.block steps) none)) fun q s' =>
        (q.kind = .ifStatement ∧ Guarded c inside known q) ∧ Grows c store root n [] s s' :=
      .pure ⟨⟨rfl, guarded_ifStatement none part row fun _ h => by cases h⟩, grows.parent ht⟩
    split
    · next clause hclause =>
      have kind : clause.kind = .elseClause := by simpa using List.find?_some hclause
      have hm := Node.mem_of_nodeOfKind? hclause
      split
      · next branch hbranch =>
        have hb := Node.mem_of_node? hbranch
        have hstmt' := (hc.rule clause (inRoot hm)).body_isStatement (.inr ⟨kind, rfl⟩) hbranch
        have hb' := Node.mem_preorder_of_mem_nodes (inRoot hm) hb
        have apart : ∀ x ∈ branch.preorder, x ∉ thenBranch.preorder := by
          intro x hx hx'
          have same := (hc.numbered.below hn).child_unique ht hm hx' (Node.preorder_subset hb hx)
          rw [same, kind] at hstmt
          cases hstmt
        have served' : Served c store s₁ known branch :=
          ((served.child hm).child hb).after hb' grows apart
        have second := brings_hostBlock ih inside hb'
          (Nat.lt_trans (Node.size_lt_of_mem hb) (Node.size_lt_of_mem hm)) hstmt' served'
          fun hj hi => not_loose_child hb (by rw [kind]; decide)
            (not_loose_child hm loop (stay hj hi))
        refine second.bind ?_
        rintro _ s₂ ⟨others, rfl, row', -, closed'⟩
        have grows' := closed' (braced (by simp [branchesOf, hclause, hbranch]))
        refine .pure ⟨⟨rfl, guarded_ifStatement (some others) part row ?_⟩,
          (grows.parent ht).trans ((grows'.parent hb).parent hm)⟩
        rintro _ ⟨⟩
        exact row'
      · exact alone
    · exact alone
  · next missing =>
    obtain ⟨condition, body, rest, hnodes, -⟩ := (hc.rule n hn).nodes_ifStatement hk
    exact absurd (by simp [Node.node?, hnodes])
      (missing condition body (by simp [Node.node?, hnodes]))

theorem brings_hostForEach (hn : n ∈ root.preorder) (hk : n.kind = .forEachStatement)
    (served : Served c store s known n) :
    Brings s (hostForEach store provided n) fun q s' =>
      (q.kind = .forEachStatement ∧ Guarded c inside known q) ∧ Grows c store root n [] s s' := by
  obtain ⟨source, body, hnodes, hexpr, hstmt⟩ := (hc.rule n hn).nodes_forEach hk
  obtain ⟨name, -, hname, hfound⟩ := (hc.rule n hn).name (.inr hk)
  rw [hostForEach]
  split
  · next name' source' body' hn' hs hb =>
    obtain rfl : name = name' := by simpa [hfound] using hn'
    obtain rfl : source = source' := by simpa [Node.node?, hnodes] using hs
    obtain rfl : body = body' := by simpa [Node.node?, hnodes] using hb
    have allowed : c.allowed name.text := by
      have := hc.binders n hn (.inr hk)
      rwa [Node.nameOrEmpty, Node.name?, hfound] at this
    have inRoot {x : Node} (hx : x ∈ n.nodes) := Node.mem_preorder_of_mem_nodes hn hx
    have hb := Node.mem_of_node? hb
    refine (brings_hostBlock ih true (inRoot hb) (Node.size_lt_of_mem hb) hstmt
      (served.child hb) fun _ h => by cases h).bind ?_
    rintro _ s' ⟨steps, rfl, row, grows, -⟩
    refine .pure ⟨⟨rfl, guarded_forEachStatement hname allowed ?_ row⟩,
      .of_scope hc hn (.inr hk) grows.kept (grows.parent hb).entries⟩
    exact hc.guardedPart (inRoot (Node.mem_of_node? hs)) hexpr
  · next missing =>
    exact absurd (by simp [Node.node?, hnodes]) (missing name source body hfound
      (by simp [Node.node?, hnodes]))

theorem brings_generatedForEach (hn : n ∈ root.preorder) (hk : n.kind = .forEachStatement)
    (stage : n.stage? ≠ some .generationTime) (served : Served c store s known n) :
    Brings s (generatedForEach store provided n) fun qs s' =>
      Row c inside known qs ∧ Grows c store root n [] s s' := by
  rw [generatedForEach]
  refine .bind (brings_freshLocal hc) ?_
  rintro ⟨declaration, holder⟩ s₁ declared
  have served' : Served c store s₁ (holder :: known) n := served.declare declared
  dsimp only
  refine .bind (.mapM (T := GuardedPart c (holder :: known)) _ fun m _ s' hs => ?_)
    fun parts s₂ hparts => ?_
  · exact brings_part ih hn (served'.level hs) m.2
      (fun hj => (hc.jumps hj).loops n hn hk stage m.1 m.2) false
  · obtain ⟨hparts, level⟩ := hparts
    have built : GuardedPart c (holder :: known)
        (construct "ForEachStatement" (.identifier holder :: parts)) :=
      hc.construct
        (List.forall_mem_cons.2 ⟨guardedPart_identifier fun _ => List.mem_cons_self, hparts⟩)
    refine .bind (brings_append (served'.level level).accumulator built) ?_
    rintro q s₂ ⟨row, rfl⟩
    have hosted : Row c inside known [declaration, q] ∧
        Grows c store root n (declaredBy [declaration, q]) s s₂ :=
      (declared.level level).hosted n.mem_preorder_self (.inr hk) (row inside)
    exact .pure ⟨hosted.1, .of_scope hc hn (.inr hk) hosted.2.kept hosted.2.entries⟩

/-- A declarator of a generated declaration: the declaration of its name, and itself. -/
def DeclaresOne (c : Concern) (store : FactStore) (known : List String) (d : Node) (s : State)
    (r : Node × Node) (s' : State) : Prop :=
  ∃ holder, Declares c store d s (r.1, holder) s' ∧ GuardedPart c (holder :: known) r.2

/-- The declarators of a generated declaration, which may refer to those before them. -/
structure DeclaresAll (c : Concern) (store : FactStore) (known : List String) (n : Node) (s : State)
    (parts : List (Node × Node)) (s' : State) : Prop where
  names : ∀ r ∈ parts, r.1.kind.isStatement ∧ ∀ inside known, Guarded c inside known r.1
  values : ∀ r ∈ parts, GuardedPart c (declaredBy (parts.map Prod.fst) ++ known) r.2
  kept : s.Kept s'
  entries : ∀ v holder, s'.holder? v = some holder → s.holder? v = some holder ∨
    holder ∈ declaredBy (parts.map Prod.fst) ∧ ∃ d ∈ n.nodes, store.declared? d = some v

omit hc ih in
theorem brings_declarators {f : { d // d ∈ n.nodes } → Quoter (Node × Node)}
    (ds : List { d // d ∈ n.nodes }) {s : State} {known : List String}
    (served : Served c store s known n)
    (h : ∀ d {s known}, Served c store s known n →
      Brings s (f d) (DeclaresOne c store known d.1 s)) :
    Brings s (ds.mapM f) (DeclaresAll c store known n s) := by
  induction ds generalizing s known with
  | nil => exact .pure ⟨by simp, by simp, ⟨rfl, rfl⟩, fun _ _ => .inl⟩
  | cons d ds ih =>
    rw [List.mapM_cons]
    refine .bind (h d served) ?_
    rintro r s₁ ⟨holder, declared, part⟩
    refine (ih (served.declare declared)).bind fun parts s₂ rest => .pure ?_
    have names : declaredBy ((r :: parts).map Prod.fst) =
        holder :: declaredBy (parts.map Prod.fst) := by
      rw [List.map_cons, ← List.singleton_append, declaredBy_append, declared.declared]
      rfl
    refine ⟨List.forall_mem_cons.2 ⟨⟨declared.kind, fun _ _ => declared.guarded⟩, rest.names⟩,
      ?_, ⟨?_, ?_⟩, fun v h hh => ?_⟩
    · rw [names]
      refine List.forall_mem_cons.2 ⟨part.mono ?_, fun r hr => (rest.values r hr).mono ?_⟩ <;>
        · intro x hx
          simp only [List.mem_cons, List.mem_append] at hx ⊢
          tauto
    · rw [rest.kept.accumulator, declared.kept.accumulator]
    · rw [rest.kept.outer, declared.kept.outer]
    · rw [names]
      rcases rest.entries v h hh with hh | ⟨hm, d', hd', hv⟩
      · refine (declared.entries v h hh).imp_right fun hd => ?_
        exact ⟨hd.1 ▸ List.mem_cons_self, d.1, d.2, hd.2⟩
      · exact .inr ⟨List.mem_cons_of_mem _ hm, d', hd', hv⟩

omit hc ih in
/-- The statements that declare the locals' names, followed by what is built with them. -/
theorem DeclaresAll.hosted {parts : List (Node × Node)} {q : Node} {s' : State}
    (h : DeclaresAll c store known n s parts s') (hk : ∀ d ∈ n.nodes, d.kind = .declarator)
    (row : Row c inside (declaredBy (parts.map Prod.fst) ++ known) [q]) :
    Row c inside known (parts.map Prod.fst ++ [q]) ∧
      Grows c store root n (declaredBy (parts.map Prod.fst ++ [q])) s s' := by
  have names : Row c inside known (parts.map Prod.fst) := by
    intro pre x post hsplit
    obtain ⟨r, hr, rfl⟩ := List.mem_map.1 (hsplit ▸ List.mem_append_right pre
      (List.mem_cons_self (a := x) (l := post)))
    exact ⟨(h.names r hr).1, (h.names r hr).2 _ _⟩
  refine ⟨names.append row, h.kept, fun v holder hh => ?_, fun x _ _ _ v holder _ hh _ => ?_⟩
  · refine (h.entries v holder hh).imp_right fun found => ?_
    obtain ⟨-, d, hd, hv⟩ := found
    exact ⟨d, Node.preorder_subset hd d.mem_preorder_self, .inl (hk d hd), hv⟩
  · rw [declaredBy_append]
    exact (h.entries v holder hh).imp_right fun hd => List.mem_append_left _ hd.1

theorem brings_generatedDeclaration (hn : n ∈ root.preorder) (hk : n.kind = .localDeclaration)
    (served : Served c store s known n) :
    Brings s (generatedDeclaration store provided n) fun qs s' =>
      Row c inside known qs ∧ Grows c store root n (declaredBy qs) s s' := by
  have declares {d : Node} (hd : d ∈ n.nodes) := (hc.rule n hn).nodes_localDeclaration hk d hd
  rw [generatedDeclaration]
  dsimp only
  split
  · next declarator form hsingle =>
    have hd : declarator ∈ n.nodes := by
      split at hsingle
      · next only hnodes =>
        obtain ⟨v, -, hv0⟩ := Option.bind_eq_some_iff.1 hsingle
        obtain ⟨f, -, heq⟩ := Option.bind_eq_some_iff.1 hv0
        cases heq
        simp [hnodes]
      · cases hsingle
    refine .bind (brings_freshLocal hc) ?_
    rintro ⟨declaration, holder⟩ s₁ declared
    have assigned : GuardedPart c (holder :: known) (.methodCall "Context" "CreateAssignStatement"
        [.identifier holder, formPath form]) :=
      hc.ofContext (List.forall_mem_cons.2 ⟨guardedPart_identifier fun _ => List.mem_cons_self,
        List.forall_mem_singleton.2 (hc.formPath form)⟩)
    refine .bind (brings_append (served.declare declared).accumulator assigned) ?_
    rintro q s₁ ⟨row, rfl⟩
    exact .pure (declared.hosted (Node.preorder_subset hd declarator.mem_preorder_self)
      (.inl (declares hd)) (row inside))
  · refine .bind (brings_declarators _ served fun d {s known} served => ?_) fun parts s₁ all => ?_
    · obtain ⟨d, hd⟩ := d
      have inRoot := Node.mem_preorder_of_mem_nodes hn hd
      refine .bind (brings_freshLocal hc) ?_
      rintro ⟨declaration, holder⟩ s₁ declared
      have served' : Served c store s₁ (holder :: known) n := served.declare declared
      have built (values : List Node) (h : ∀ q ∈ values, GuardedPart c (holder :: known) q) :
          GuardedPart c (holder :: known)
            (construct "VariableDeclarator" (.identifier holder :: values)) :=
        hc.construct
          (List.forall_mem_cons.2 ⟨guardedPart_identifier fun _ => List.mem_cons_self, h⟩)
      dsimp only
      split
      · next value hn0 =>
        have inner (x : Node) (hx : x.size < d.size) :=
          ih x (Nat.lt_trans hx (Node.size_lt_of_mem hd))
        refine .bind (brings_value hc inner inRoot (served'.child hd) (.inr (declares hd)) hn0)
          fun q s₂ hq => ?_
        exact ⟨holder, declared.level hq.2, built [q] (List.forall_mem_singleton.2 hq.1)⟩
      · exact ⟨holder, declared, built [] (List.forall_mem_nil _)⟩
    · have built : GuardedPart c (declaredBy (parts.map Prod.fst) ++ known)
          (construct "LocalDeclaration" (parts.map Prod.snd)) :=
        hc.construct (by simpa using fun a b h => all.values _ h)
      refine .bind (brings_append ?_ built) ?_
      · rw [all.kept.accumulator]
        exact List.mem_append_right _ served.accumulator
      rintro q s₁ ⟨row, rfl⟩
      exact .pure (all.hosted (fun _ => declares) (row inside))

theorem brings_hostLevel (hn : n ∈ root.preorder) (hs : n.kind.isStatement) (level : isHostLevel n)
    (served : Served c store s known n) (stay : c.jumps = true → inside = false → ¬Loose n) :
    Brings s (hostLevel store provided n) (Hosted c store root inside known n s) := by
  have alone {q : Node} {s' : State} (hq : q.kind.isStatement) (hg : Guarded c inside known q)
      (grows : Grows c store root n [] s s') : Hosted c store root inside known n s [q] s' :=
    ⟨.singleton hq hg, grows.mono (List.nil_subset _), fun _ => grows⟩
  rw [hostLevel]
  split
  · next stage =>
    split
    · next hk =>
      exact .bind (brings_hostIf hc ih hn hk stage served stay) fun q s' made =>
        .pure (alone (by rw [made.1.1]; rfl) made.1.2 made.2)
    · next hk =>
      exact .bind (brings_hostForEach hc ih hn hk served) fun q s' made =>
        .pure (alone (by rw [made.1.1]; rfl) made.1.2 made.2)
    · next hi hl =>
      exact .pure (alone hs (hc.guarded_kept hn hs stage ⟨hi, hl⟩ stay) (.of_level (.refl s)))
  · next stage =>
    split
    · next hk =>
      have made : Brings s (generatedForEach store provided n) fun qs s' =>
          Row c inside known qs ∧ Grows c store root n [] s s' :=
        brings_generatedForEach hc ih hn hk stage served
      refine made.mono ?_
      rintro qs s' ⟨row, grows⟩
      exact ⟨row, grows.mono (List.nil_subset _), fun _ => grows⟩
    · next hl =>
      have hk : n.kind = .localDeclaration := by simpa [isHostLevel, stage, hl] using level
      have made : Brings s (generatedDeclaration store provided n) fun qs s' =>
          Row c inside known qs ∧ Grows c store root n (declaredBy qs) s s' :=
        brings_generatedDeclaration hc ih hn hk served
      refine made.mono ?_
      rintro qs s' ⟨row, grows⟩
      exact ⟨row, grows, fun h => absurd (h hk) stage⟩

end

/-- What is made of the nodes of a careful template is guarded. -/
theorem guards (provided : Option (Nat × CallForm)) (n : Node) (hn : n ∈ root.preorder) :
    Guards c store root provided n := by
  have ih : ∀ m : Node, m.size < n.size → m ∈ root.preorder → Guards c store root provided m :=
    fun m _ hm => guards provided m hm
  have embedded (hs : n.kind.isStatement) {known : List String} {s : State}
      (served : Served c store s known n) (stay : c.jumps = true → ¬Loose n) :
      Brings s (embedded store provided n) (Parted c known s) :=
    brings_embedded hc ih hn served stay
      (fun hk _ _ served => brings_hostStatements hc ih hn hk served fun hj _ => stay hj)
      fun hl _ _ served => brings_hostLevel hc ih hn hs hl served fun hj _ => stay hj
  refine ⟨fun {known s} served stay callee => ?_, fun hs inside known s served stay => ?_,
    fun hk inside known s served stay => brings_hostStatements hc ih hn hk served stay⟩
  · rw [quotePart]
    split
    · next hs => exact embedded hs served stay
    next hs =>
    have loop : n.kind ≠ .forEachStatement := fun hk => hs (by rw [hk]; rfl)
    have parts : Brings s (structural store provided n) (Parted c known s) :=
      brings_structural hc fun m hm callee s' hs' => brings_part ih hn (served.level hs') hm
        (fun hj => not_loose_child hm loop (stay hj)) callee
    split
    · exact brings_quoteCallee hc hn served parts
    · exact brings_quote hc hn served parts
  · rw [hostStatement]
    split
    · next hl => exact brings_hostLevel hc ih hn hs hl served fun hj hi => stay hj (.inl hi)
    · next hl =>
      have stay' (hj : c.jumps = true) : ¬Loose n :=
        hc.not_loose_of_generated hj hn hs (by simpa using hl) fun hb => stay hj (.inr hb)
      refine .bind (embedded hs served stay') ?_
      rintro q s' ⟨hq, level⟩
      refine .bind (brings_append (served.level level).accumulator hq) ?_
      rintro e s' ⟨row, rfl⟩
      have grows : Grows c store root n [] s s' := .of_level level
      exact .pure ⟨row inside, grows.mono (List.nil_subset _), fun _ => grows⟩
termination_by n.size

/-- The generator of a careful template has its parameters and a guarded body. -/
theorem guarded_quoteTemplate (hk : root.kind = .template) :
    ∃ body, body.kind = .block ∧ Guarded c false [] body ∧ (quoteTemplate store root).1.program =
      .template (root.nameOrEmpty ++ generatorEnding) (root.nodes.filter (·.kind == .parameter))
        body := by
  obtain ⟨body, hb⟩ := (hc.rule root root.mem_preorder_self).body_template hk
  refine ⟨_, rfl, ?_, program_quoteTemplate store hb⟩
  have kind : body.kind = .block := by simpa using List.find?_some hb
  have hm := Node.mem_of_nodeOfKind? hb
  have hbody := Node.mem_preorder_of_mem_nodes root.mem_preorder_self hm
  have served : Served c store .initial [accumulatorName 0] body :=
    ⟨List.mem_cons_self, fun x _ _ v holder _ hh _ => by cases hh⟩
  have steps : Row c false [accumulatorName 0] (bodyStatements store root body) := by
    have hosted := (guards hc (provided? store root) body hbody).block kind served
      fun hj (_ : false = false) => (hc.jumps hj).outside body hm
    exact hosted.row
  rw [List.cons_append]
  refine Row.block (.cons rfl (hc.openAccumulator 0) (steps.append (.singleton rfl ?_)))
  refine guarded_returnStatement (hc.construct (List.forall_mem_singleton.2 ?_))
  exact guardedPart_identifier fun _ => List.mem_append_right _ List.mem_cons_self

end

end Stencil.Quotation
