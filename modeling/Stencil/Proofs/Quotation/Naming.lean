import Stencil.Proofs.Quotation.Pieces

/-!
# Made-up names, returns and nested scopes

What generators ask of the context they run in: a name that is free, the statement that a `return`
of the template becomes in the target, and a scope for the block that a closure builds.

Results:

* `after_freshName` – a made-up name is new in the current scope;
* `after_returnStatement` – the lowered `return` is a piece of generated code;
* `after_inNestedScope` – what is built in a nested scope is a part of the scope around it.
-/
namespace Stencil.Quotation

open Expansion

variable {own : Nat} {r : Reach} {m n k : Machine}

/-! ## Contexts -/

/-- A machine that differs in its contexts and numbers only. -/
theorem Tame.of_same (hm : Tame own m) (hl : n.lists = m.lists) (hf : n.frames = m.frames)
    (ha : n.active = m.active) (hc : ∃ c, n.contexts[own]? = some c ∧ c.scopes.Nested ∧
      c.scope < c.scopes.scopes.length) : Tame own n := by
  have looks (f : Nat) (name : String) : look n f name = look m f name := by
    rw [look, hf]
    rfl
  have held (p : Nat) : Held n p ↔ Held m p := by
    simp only [Held, looks]
  have bare {v : Value} (hv : Bare m v) : Bare n v := by
    cases v with
    | list p => exact ⟨hl ▸ hv.1, fun h => hv.2 ((held p).1 h)⟩
    | _ => exact hv
  refine ⟨hc, ha ▸ hm.active, fun p items hp hh v hv => ?_, fun f name v hv => ?_⟩
  · exact bare (hm.lists p items (hl ▸ hp) (fun h => hh ((held p).2 h)) v hv)
  · cases hm.fitting f name v (looks f name ▸ hv) with
    | plain hn hv => exact .plain hn (bare hv)
    | accumulator hp => exact .accumulator (hl ▸ hp)
    | holder ht => exact .holder ht

/-- `c'` differs from `c` in names only, and in scopes that were opened since. -/
structure Advances (c c' : Context) : Prop where
  target : c'.target = c.target
  arguments : c'.arguments = c.arguments
  scope : c'.scope = c.scope
  grows : c.scopes.Grows c'.scopes
  nested : c'.scopes.Nested

theorem Advances.refl {c : Context} (h : c.scopes.Nested) : Advances c c :=
  ⟨rfl, rfl, rfl, .refl _, h⟩

/-- The machine whose context `own` is `c`. -/
def withContext (own : Nat) (c : Context) (m : Machine) : Machine :=
  { m with contexts := m.contexts.setIfInBounds own c }

theorem onContext_eq {α : Type} {act : StateM Context α} {c : Context}
    (hc : m.contexts[own]? = some c) :
    onContext own act m = .ok (act.run c).1 (withContext own (act.run c).2 m) := by
  have found : contextAt own m = .ok c m := by
    change expect .noContext m.contexts[own]? m = _
    rw [hc]
    rfl
  rw [onContext, run_bind, found]
  rfl

theorem contexts_withContext {c : Context} (hc : m.contexts[own]? = some c) (c' : Context) :
    (withContext own c' m).contexts[own]? = some c' := by
  have hlt : own < m.contexts.size := (Array.getElem?_eq_some_iff.1 hc).1
  rw [withContext, Array.getElem?_setIfInBounds_self, if_pos hlt]

/-- An action of the context that makes up names. -/
theorem after_onContext {α : Type} {act : StateM Context α} {Q : α → Machine → Prop}
    (hm : Tame own m)
    (h : ∀ c, m.contexts[own]? = some c → c.scopes.Nested → c.scope < c.scopes.scopes.length →
      Advances c (act.run c).2 ∧ ∀ n, n.contexts[own]? = some (act.run c).2 → Onward own r m n →
        Q (act.run c).1 n) : After own r m (onContext own act) Q := by
  obtain ⟨c, hc, hnested, hscope⟩ := hm.context
  obtain ⟨step, hQ⟩ := h c hc hnested hscope
  intro a n hn
  rw [onContext_eq hc] at hn
  cases hn
  have found := contexts_withContext hc (act.run c).2
  have tame : Tame own (withContext own (act.run c).2 m) :=
    hm.of_same rfl rfl rfl ⟨_, found, step.nested,
      step.scope ▸ Nat.lt_of_lt_of_le hscope step.grows.length⟩
  have onward : Onward own r m (withContext own (act.run c).2 m) :=
    ⟨fun c' hc' => by
      obtain rfl := Option.some.inj (hc.symm.trans hc')
      exact ⟨_, found, step.target, step.arguments, step.scope, step.grows⟩, rfl, Nat.le_refl _,
      Nat.le_refl _, fun _ _ _ _ _ => rfl, fun _ _ hp => hp, fun _ _ hp => hp, fun _ _ _ => rfl⟩
  exact ⟨tame, onward, hQ _ found onward⟩

/-! ## Names -/

theorem advances_freshName {c : Context} (hn : c.scopes.Nested)
    (hs : c.scope < c.scopes.scopes.length) (hint : String) :
    Advances c ((Context.freshName hint).run c).2 :=
  ⟨rfl, rfl, rfl, Scopes.grows_reserve hs, hn.reserve⟩

theorem new_freshName {c : Context} {hint : String} (hc : m.contexts[own]? = some c)
    (hs : c.scope < c.scopes.scopes.length)
    (hn : n.contexts[own]? = some ((Context.freshName hint).run c).2) :
    New own m n ((Context.freshName hint).run c).1 := by
  have free : ¬c.scopes.isTaken c.scope ((Context.freshName hint).run c).1 :=
    Bool.not_eq_true _ ▸ c.scopes.not_isTaken_freshName c.scope hint
  rw [Scopes.isTaken_iff, not_or] at free
  refine ⟨?_, ?_, _, hn, Scopes.mem_namesOf_reserve hs⟩
  · rintro ⟨c', hc', hx⟩
    obtain rfl := Option.some.inj (hc.symm.trans hc')
    exact free.1 hx
  · rintro ⟨c', hc', hx⟩
    obtain rfl := Option.some.inj (hc.symm.trans hc')
    exact free.2 hx

theorem after_freshName (hm : Tame own m) (hint : String) :
    After own r m (onContext own (Context.freshName hint)) fun x n => New own m n x :=
  after_onContext hm fun _ hc hn hs =>
    ⟨advances_freshName hn hs hint, fun _ hn' _ => new_freshName hc hs hn'⟩

/-! ## Returning -/

theorem part_assignment {target value : Node} (ht : Part own m n target.flatten)
    (hv : Part own m n value.flatten) : Part own m n (Node.assignment target value).flatten :=
  .of_nodes rfl (by simpa [Node.assignment] using ⟨ht, hv⟩)

theorem Part.flatten_of_scopeless {t : Node} (h : t.Scopeless) : Part own m n t.flatten := by
  rw [h.flatten]
  exact .of_scopeless h

theorem piece_evaluated {value : Node} (hv : Part own m n value.flatten) :
    Piece own m n (evaluated value) := by
  unfold evaluated
  split
  case h_5 =>
    have discarded := part_assignment (.flatten_of_scopeless (scopeless_identifier "_")) hv
    exact .of_nodes rfl (by simpa [Node.expressionStatement] using discarded)
  all_goals exact .of_nodes rfl (by simpa [Node.expressionStatement] using hv)

theorem part_cast {type : String} {operand : Node} (hv : Part own m n operand.flatten) :
    Part own m n (Node.cast type operand).flatten := by
  have named : Part own m n (Node.typeNamed type).flatten :=
    .of_nodes rfl (by simp [Node.typeNamed])
  have wrapped : Part own m n (Node.parenthesized operand).flatten :=
    .of_nodes rfl (by simpa [Node.parenthesized] using hv)
  refine .of_nodes rfl ?_
  simp only [Node.cast, Node.nodes_build, List.filterMap_cons, Child.node?_node, List.filterMap_nil,
    List.forall_mem_cons, List.not_mem_nil, false_implies, implies_true, and_true]
  refine ⟨named, ?_⟩
  split <;> assumption

/-- Whatever number the tree gets, it is a piece. -/
def Draft (own : Nat) (m n : Machine) (t : Node) : Prop := ∀ i, Piece own m n { t with id := i }

namespace Draft

variable {t : Node}

theorem of_nodes (hk : t.kind.isScoping = false) (h : ∀ c ∈ t.nodes, Part own m n c.flatten) :
    Draft own m n t :=
  fun i => .of_nodes (t := { t with id := i }) hk h

theorem of_block (hk : t.kind = .block) (h : Settled own m n (t.nodes.flatMap Node.contents)) :
    Draft own m n t :=
  fun i => .of_block (t := { t with id := i }) hk h

end Draft

theorem after_newNode {t : Node} (hm : Tame own m) (h : Draft own k m t) :
    After own r m (newNode t) fun v n => ∃ u, v = .node u ∧ Piece own k n u :=
  .bind (after_newIdentity hm) fun i _ hn ho _ => .pure hn ⟨_, rfl, (h i).widen (.refl own r k) ho⟩

theorem piece_yieldBreak : Piece own m n .yieldBreak :=
  .of_nodes rfl (by simp [Node.yieldBreak])

/-- Two statements of a block, the second of which came with nothing new. -/
theorem settled_pair {first second : Node} (h : Settled own m n first.contents)
    (h' : Piece own n n second) (ho : Onward own r m n) :
    Settled own m n ([first, second].flatMap Node.contents) := by
  rw [List.flatMap_cons, List.flatMap_singleton]
  exact h.append h'.settled ho (.refl own r n)

theorem draft_voidReturn {value : Option Node} (ho : Onward own r m n)
    (hv : ∀ v, value = some v → Part own m n v.flatten) : Draft own m n (voidReturn value) := by
  have leave (k : Machine) : Piece own k n (.returnStatement none) :=
    .of_nodes rfl (by simp [Node.returnStatement])
  have bare : Settled own m n ([Node.returnStatement none].flatMap Node.contents) := by
    rw [List.flatMap_singleton]
    exact (leave m).settled
  have nodes : (voidReturn value).nodes =
      (value.filter fun v => !isPure v).toList.map evaluated ++ [Node.returnStatement none] := by
    rw [voidReturn, Node.nodes, Node.children_mark, Node.block, Node.children_build,
      List.filterMap_map]
    exact Node.filterMap_node?_node _
  refine .of_block rfl ?_
  rw [nodes]
  cases value with
  | none => exact bare
  | some v =>
    cases hp : isPure v with
    | true => simpa [Option.filter, hp] using bare
    | false =>
      have both := settled_pair (piece_evaluated (hv v rfl)).settled (leave n) ho
      simpa [Option.filter, hp] using both

theorem draft_returnStatement {value : Option Node} (type : TypeExpr) (dynamic : Bool)
    (hv : ∀ v, value = some v → Part own m n v.flatten) :
    Draft own m n (Node.returnStatement (value.map (returnedValue type dynamic))) := by
  refine .of_nodes rfl ?_
  cases value with
  | none => simp [Node.returnStatement]
  | some v =>
    have part := hv v rfl
    simp only [Node.returnStatement, Option.map_some, Option.toList_some, List.map_cons,
      List.map_nil, Node.nodes_build, List.filterMap_cons, Child.node?_node, List.filterMap_nil,
      List.forall_mem_singleton, returnedValue]
    split
    · exact part_cast part
    · exact part

/-- The loop that hands out the items of a value has a variable of its own. -/
theorem draft_handOut {value : Node} {item : String} (awaited : Bool) (ho : Onward own r k m)
    (ho' : Onward own r m n) (hv : Part own k m value.flatten) (hn : New own m n item) :
    Draft own k n (handOut awaited value item) := by
  have yielded : (Node.yieldReturn (.identifier item)).Scopeless :=
    .of_nodes rfl (by simpa [Node.yieldReturn] using scopeless_identifier item)
  have nodes : (Node.forEachStatement awaited (.ofName item) value
      (.yieldReturn (.identifier item))).nodes = [value, .yieldReturn (.identifier item)] := by
    cases awaited <;> rfl
  have loop : Settled own k n (Node.forEachStatement awaited (.ofName item) value
      (.yieldReturn (.identifier item))).contents := by
    refine .of_forEach (x := item) rfl (by cases awaited <;> rfl) (hn.widen ho (.refl own r n)) ?_
    rw [nodes]
    simp only [List.forall_mem_cons, List.not_mem_nil, false_implies, implies_true, and_true]
    exact ⟨⟨hv.widen (.refl own r k) ho', hn.not_mem hv.fresh⟩, .flatten_of_scopeless yielded,
      by simp [yielded.flatten, yielded.variableNames]⟩
  exact .of_block rfl (settled_pair loop piece_yieldBreak (ho.trans ho'))

/-- So has the `using` statement around the loop that drains an enumerator. -/
theorem draft_drain {value : Node} {enumerator : String} (awaited : Bool) (ho : Onward own r k m)
    (ho' : Onward own r m n) (hv : Part own k m value.flatten) (hn : New own m n enumerator) :
    Draft own k n (drain awaited value enumerator) := by
  have member (name : String) : (Node.memberAccess (.identifier enumerator) name).Scopeless :=
    .of_nodes rfl (by simpa [Node.memberAccess] using scopeless_identifier enumerator)
  have pump {condition : Node} (hc : condition.Scopeless) : (Node.whileStatement condition
      (.yieldReturn (.memberAccess (.identifier enumerator) "Current"))).Scopeless := by
    have yielded :
        (Node.yieldReturn (.memberAccess (.identifier enumerator) "Current")).Scopeless :=
      .of_nodes rfl (by simpa [Node.yieldReturn] using member "Current")
    exact .of_nodes rfl (by simpa [Node.whileStatement] using ⟨hc, yielded⟩)
  have acquired : Settled own k n
      (Node.localDeclaration (.ofName enumerator) (some value)).contents := by
    have declarator : Part own k m (Node.declarator (.ofName enumerator) (some value)).flatten :=
      .of_nodes rfl (by simpa [Node.declarator] using hv)
    have introduced : (Node.localDeclaration (.ofName enumerator) (some value)).introduced =
        [enumerator] := rfl
    have nodes : (Node.localDeclaration (.ofName enumerator) (some value)).nodes =
        [.declarator (.ofName enumerator) (some value)] := rfl
    refine .of_localDeclaration rfl (by simp [introduced]) ?_ ?_
    · simpa [introduced] using hn.widen ho (.refl own r n)
    · rw [nodes, introduced]
      simp only [List.forall_mem_singleton]
      exact ⟨by simp [Node.declarator], declarator.widen (.refl own r k) ho',
        hn.not_mem declarator.fresh⟩
  have body {t : Node} (ht : t.Scopeless) : Part own k n (Node.block [t]).flatten ∧
      (Node.block [t]).flatten.variableNames = [] := by
    have nodes : (Node.block [t]).flatten.nodes = [t] := by
      rw [Node.nodes_flatten_block rfl]
      simp [Node.block, ht.contents]
    refine ⟨?_, ?_⟩
    · have alone : Settled own k n [t] :=
        .of_part (.of_scopeless ht) (Node.declares_of_not_scoping ht.here)
      exact alone.block (by rw [Node.kind_flatten]; rfl) nodes
    · rw [Node.variableNames_eq, nodes]
      simp [Node.introduced, Node.block, ht.variableNames]
  have using' {condition : Node} (hc : condition.Scopeless) : Settled own k n
      (Node.usingStatement awaited (.localDeclaration (.ofName enumerator) (some value))
        (.block [.whileStatement condition
          (.yieldReturn (.memberAccess (.identifier enumerator) "Current"))])).contents := by
    obtain ⟨hpart, hnames⟩ := body (pump hc)
    exact .of_using rfl (by cases awaited <;> rfl) rfl acquired hpart (by simp [hnames])
  have moveNext (name : String) : (Node.invocation
      (.memberAccess (.identifier enumerator) name) []).Scopeless :=
    .of_nodes rfl (by simpa [Node.invocation] using member name)
  cases awaited with
  | true =>
    have awaiting : (Node.await (.invocation
        (.memberAccess (.identifier enumerator) "MoveNextAsync") [])).Scopeless :=
      .of_nodes rfl (by simpa [Node.await] using moveNext "MoveNextAsync")
    exact .of_block rfl (settled_pair (using' awaiting) piece_yieldBreak (ho.trans ho'))
  | false =>
    have advancing := using' (moveNext "MoveNext")
    exact .of_block rfl (settled_pair advancing piece_yieldBreak (ho.trans ho'))

/-- A `return` only makes up the name of a loop that is written out. -/
theorem advances_lowerReturn {c : Context} (hn : c.scopes.Nested)
    (hs : c.scope < c.scopes.scopes.length) (shape : ResultShape) (value : Option Node)
    (dynamic : Bool) :
    Advances c ((lowerReturn Context.freshName shape value dynamic).run c).2 := by
  have named (hint : String) : Advances c ((Context.freshName hint).run c).2 :=
    advances_freshName hn hs hint
  cases shape with
  | void | value type => exact .refl hn
  | awaitable type => cases type <;> exact .refl hn
  | sequence _ | asyncSequence _ =>
    cases value with
    | none => exact .refl hn
    | some v => exact named "item"
  | enumerator _ | asyncEnumerator _ =>
    cases value with
    | none => exact .refl hn
    | some v => exact named "enumerator"

/-- An action of the context of `m` gave a draft and left the context `out.2`. -/
def Drafts (own : Nat) (k m : Machine) (out : Node × Context) : Prop :=
  ∀ n, n.contexts[own]? = some out.2 → Onward own .none m n → Draft own k n out.1

/-- What a `return` becomes in each shape of result. -/
theorem drafts_lowerReturn {value : Option Node} {c : Context} (ho : Onward own .none k m)
    (hc : m.contexts[own]? = some c) (hs : c.scope < c.scopes.scopes.length)
    (hv : ∀ v, value = some v → Part own k m v.flatten) (shape : ResultShape) (dynamic : Bool) :
    Drafts own k m ((lowerReturn Context.freshName shape value dynamic).run c) := by
  have kept {t : Node} (ht : ∀ n, Onward own .none m n → Draft own k n t) :
      Drafts own k m (t, c) := fun n _ h => ht n h
  have named {t : String → Node} (hint : String)
      (ht : ∀ n x, Onward own .none m n → New own m n x → Draft own k n (t x)) :
      Drafts own k m (t ((Context.freshName hint).run c).1, ((Context.freshName hint).run c).2) :=
    fun n hn h => ht n _ h (new_freshName hc hs hn)
  have later {n : Machine} (h : Onward own .none m n) :
      ∀ v, value = some v → Part own k n v.flatten :=
    fun v h' => (hv v h').widen (.refl own .none k) h
  have plain (type : TypeExpr) : Drafts own k m
      (.returnStatement (value.map (returnedValue type dynamic)), c) :=
    kept fun n h => draft_returnStatement type dynamic (later h)
  have void : Drafts own k m (voidReturn value, c) :=
    kept fun n h => draft_voidReturn (ho.trans h) (later h)
  have ended : Drafts own k m (.yieldBreak, c) :=
    kept fun n _ => .of_nodes rfl (by simp [Node.yieldBreak])
  have looping {v : Node} (awaited : Bool) (h : value = some v) : Drafts own k m
      (handOut awaited v ((Context.freshName "item").run c).1,
        ((Context.freshName "item").run c).2) :=
    named "item" (t := handOut awaited v) fun n x h' hx => draft_handOut awaited ho h' (hv v h) hx
  have draining {v : Node} (awaited : Bool) (h : value = some v) : Drafts own k m
      (drain awaited v ((Context.freshName "enumerator").run c).1,
        ((Context.freshName "enumerator").run c).2) :=
    named "enumerator" (t := drain awaited v) fun n x h' hx => draft_drain awaited ho h' (hv v h) hx
  cases shape with
  | void => exact void
  | value type => exact plain type
  | awaitable type =>
    cases type with
    | void => exact void
    | _ => exact plain _
  | sequence _ =>
    cases value with
    | none => exact ended
    | some v => exact looping false rfl
  | asyncSequence _ =>
    cases value with
    | none => exact ended
    | some v => exact looping true rfl
  | enumerator _ =>
    cases value with
    | none => exact ended
    | some v => exact draining false rfl
  | asyncEnumerator _ =>
    cases value with
    | none => exact ended
    | some v => exact draining true rfl

/-- What a `return` becomes in the target. -/
theorem after_returnStatement {value : Option Node} (hm : Tame own m) (ho : Onward own .none k m)
    (hv : ∀ v, value = some v → Part own k m v.flatten) (dynamic : Bool) :
    After own .none m (onContext own (Context.returnStatement value dynamic))
      fun t n => Draft own k n t :=
  after_onContext hm fun c hc hn hs => ⟨advances_lowerReturn hn hs c.target.result value dynamic,
    drafts_lowerReturn ho hc hs hv c.target.result dynamic⟩

/-! ## The wrapped call -/

theorem scopeless_path (dotted : String) : (Node.path dotted).Scopeless := by
  have members (names : List String) (n : Node) (hn : n.Scopeless) :
      (names.foldl Node.memberAccess n).Scopeless := by
    induction names generalizing n with
    | nil => exact hn
    | cons name names ih =>
      exact ih _ (.of_nodes rfl (by simpa [Node.memberAccess] using hn))
  unfold Node.path
  split
  · exact scopeless_identifier _
  · exact members _ _ (scopeless_identifier _)

theorem scopeless_wrappedCall (target : Target) (form : CallForm) :
    (wrappedCall target form).Scopeless := by
  have call : (Node.call (target.name ++ ownBodyEnding)
      (target.parameters.map fun p => .identifier p.name)).Scopeless := by
    refine .of_nodes rfl ?_
    rw [Node.call, Node.nodes_invocation, List.forall_mem_cons, List.forall_mem_map]
    exact ⟨scopeless_path _, fun p _ => scopeless_identifier p.name⟩
  unfold wrappedCall
  split
  · exact .of_nodes rfl (by simpa [Node.await] using call)
  · exact call

theorem scopeless_provide {c : Context} {form : CallForm} {call : Node}
    (h : c.provide form = .ok call) : call.Scopeless := by
  unfold Context.provide at h
  split at h
  · cases h
    exact scopeless_wrappedCall _ _
  · cases h

/-! ## Nested scopes -/

/-- From `k` to `n'` a run is in a scope that was opened at `m` and left at `n`. -/
structure Enclosed (own : Nat) (m k n' n : Machine) : Prop where
  around : ∀ x, AroundIn own m x → AroundIn own k x
  within : ∀ x, WithinIn own n' x → WithinIn own n x
  lists : n.lists = n'.lists

section

variable {n' : Machine}

/-- What is built in a nested scope is a part of the scope around it. -/
theorem Part.leave {t : Node} (hp : Part own k n' t) (h : Enclosed own m k n' n) :
    Part own m n t :=
  ⟨hp.kind, hp.unshadowed, fun x hx =>
    ⟨fun ha => (hp.fresh x hx).1 (h.around x ha), h.within x (hp.fresh x hx).2⟩⟩

end

theorem after_inNestedScope {α : Type} {act : Run α} {P : Machine → α → Machine → Prop}
    {Q : α → Machine → Prop} (hm : Tame own m)
    (h : ∀ k, Tame own k → After own .none k act (P k))
    (hQ : ∀ k n' n a, Enclosed own m k n' n → P k a n' → Q a n) :
    After own .none m (inNestedScope own act) Q := by
  obtain ⟨c, hc, hnested, hscope⟩ := hm.context
  -- the scope is opened, and closed again when the run ends
  have pushed := contexts_withContext hc (Context.pushScope.run c).2
  have enter : Tame own (withContext own (Context.pushScope.run c).2 m) :=
    hm.of_same rfl rfl rfl ⟨_, pushed, hnested.push hscope, Nat.lt_of_lt_of_eq
      (Nat.lt_succ_self _) Scopes.length_push.symm⟩
  intro a n hn
  rw [inNestedScope, run_bind, onContext_eq hc] at hn
  change ensuring act (fun m => { m with contexts := m.contexts.modify own (·.popScope c.scope) })
    (withContext own (Context.pushScope.run c).2 m) = _ at hn
  unfold ensuring at hn
  cases hact : act (withContext own (Context.pushScope.run c).2 m) with
  | error e n' => rw [hact] at hn; cases hn
  | ok a' n' =>
    rw [hact] at hn
    cases hn
    obtain ⟨tame, onward, hp⟩ := h _ enter a n' hact
    obtain ⟨c', hc', htarget, harguments, hinner, hgrows⟩ := onward.context _ pushed
    obtain ⟨c'', hc'', hnested', -⟩ := tame.context
    obtain rfl := Option.some.inj (hc'.symm.trans hc'')
    have left : (n'.contexts.modify own (·.popScope c.scope))[own]? =
        some (c'.popScope c.scope) := by
      rw [Array.getElem?_modify, if_pos rfl, hc']
      rfl
    have grown : c.scopes.Grows c'.scopes := Scopes.grows_push.trans hgrows
    refine ⟨tame.of_same rfl rfl rfl ⟨_, left, hnested',
      Nat.lt_of_lt_of_le hscope grown.length⟩, ?_, hQ _ n' _ a ⟨?_, ?_, rfl⟩ hp⟩
    · refine ⟨fun c₀ hc₀ => ?_, onward.active, onward.lists, onward.frames, onward.kept,
        onward.apart, onward.closed, onward.held⟩
      obtain rfl := Option.some.inj (hc.symm.trans hc₀)
      exact ⟨_, left, htarget, harguments, rfl, grown⟩
    · rintro x ⟨c₀, hc₀, hx⟩
      obtain rfl := Option.some.inj (hc.symm.trans hc₀)
      exact ⟨_, pushed, hx.push⟩
    · rintro x ⟨c₀, hc₀, hx⟩
      obtain rfl := Option.some.inj (hc'.symm.trans hc₀)
      refine ⟨_, left, ?_⟩
      rw [hinner] at hx
      exact Scopes.within_of_push hgrows hnested' hx

end Stencil.Quotation
