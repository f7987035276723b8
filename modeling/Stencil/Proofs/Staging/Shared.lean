import Mathlib.Data.List.Perm.Subperm
import Mathlib.Data.Set.Basic
import Stencil.Proofs.Staging.Runs
import Stencil.Proofs.Tree.Paths

/-!
# Trees that share nodes

Two trees may share some of their nodes. If these are known to both stores in the same way, and what
the classifier looks at from there is shared as well, then visiting a shared node does the same in
both trees.

The two trees have different sizes, and the classifier looks ahead only so often, by the size of the
tree. In both trees that is often enough: each time another local becomes pending, and all of them
are declared by shared nodes.

Results:

* `Shared` – the shared nodes of two trees;
* `Shared.underGenerated`, `Shared.assignedStage` – looking ahead from shared nodes;
* `Shared.visit` – visiting them.
-/
namespace Stencil.Staging

variable {S : Set Node} {root root' : Node} {store store' : FactStore} {env : Environment}
  {j j' : Nat} {cx : Context} {n : Node} {p : List Symbol}

/-! ## Looking ahead, step by step -/

theorem anyM_congr {α : Type} {f g : α → Classifier Bool} {xs : List α} (h : ∀ x ∈ xs, f x = g x) :
    xs.anyM f = xs.anyM g := by
  induction xs with
  | nil => rfl
  | cons x xs ih =>
    rw [List.anyM, List.anyM, h x List.mem_cons_self,
      ih fun y hy => h y (List.mem_cons_of_mem _ hy)]

theorem anyM_attach {α : Type} {xs : List α} {f : { x // x ∈ xs } → Classifier Bool}
    {g : α → Classifier Bool} (h : ∀ x, f x = g x.1) : xs.attach.anyM f = xs.anyM g := by
  have map {β : Type} (f : β → α) (ys : List β) :
      (ys.anyM fun y => g (f y)) = (ys.map f).anyM g := by
    induction ys with
    | nil => rfl
    | cons y ys ih => rw [List.map_cons, List.anyM, List.anyM, ih]
  rw [anyM_congr fun x _ => h x, map Subtype.val, List.attach_map_subtype_val]

theorem anyM_concat {α : Type} {f : α → Classifier Bool} {x : α} (h : f x = pure false)
    (xs : List α) : (xs ++ [x]).anyM f = xs.anyM f := by
  induction xs with
  | nil =>
    rw [List.nil_append]
    unfold List.anyM
    rw [h, pure_bind]
    rfl
  | cons y ys ih => rw [List.cons_append, List.anyM, List.anyM, ih]

theorem foldlM_congr {α β : Type} {f g : β → α → Classifier β} {xs : List α}
    (h : ∀ b, ∀ x ∈ xs, f b x = g b x) (b : β) : xs.foldlM f b = xs.foldlM g b := by
  induction xs generalizing b with
  | nil => rfl
  | cons x xs ih =>
    rw [List.foldlM, List.foldlM, h b x List.mem_cons_self]
    exact congrArg _ (funext fun c => ih (fun b y hy => h b y (List.mem_cons_of_mem _ hy)) c)

/-- Whether the way up from a node goes through a branch or body that the generated program
selects, at one step. -/
def selects (root : Node) (store : FactStore) (env : Environment) (jumps : Nat)
    (pending : List Symbol) (step : Node × Node) : Classifier Bool :=
  match step.1.kind, step.1.node? 0 with
  | .ifStatement, some selector | .forEachStatement, some selector => do
    if selector.id = step.2.id then return false
    return (← visit root store env jumps (.free pending) selector) ≠ .generationTime
  | _, _ => return false

theorem selects_top {top : Node × Node} (h : top.1.kind = .compilationUnit) :
    selects root store env j p top = pure false := by
  rw [selects, h]

/-- The stages of the values assigned so far, and that of one more site: nothing as soon as a site
stands under a generated condition. -/
def joins (root : Node) (store : FactStore) (env : Environment) (jumps : Nat)
    (pending : List Symbol) (stages : Option (List Stage)) (site : Option Node) :
    Classifier (Option (List Stage)) := do
  match stages, site with
  | some stages, some site =>
    if ← underGenerated root store env jumps pending site then return none
    match site.node? 1, site.kind with
    | some value, .assignment =>
      let s ← visit root store env jumps (.free pending) value
      return some (stages ++ [s])
    | _, _ => return some stages
  | stages, _ => return stages

theorem assignedStage_eq (v : Symbol) : assignedStage root store env j p v =
    (store.sitesOf v).foldlM (fun stages id => joins root store env j p stages
      (root.preorder.find? (·.id == id))) (some []) >>= fun stages =>
        pure ((stages.map Stage.combine).getD .generated) := by
  rw [assignedStage]
  refine congrArg (· >>= _) (foldlM_congr (fun stages id _ => ?_) _)
  dsimp only [joins]
  cases stages with
  | none => rfl
  | some stages =>
    split
    · next known hf =>
      cases known
      rw [hf]
      dsimp only
      refine congrArg _ (funext fun selected => ?_)
      split
      · rfl
      · split <;> simp_all
    · next hf =>
      split
      · next hs => exact absurd hs (hf _ _ rfl)
      · rfl

theorem underGenerated_eq {steps : List (Node × Node)} (h : root.above n.id = some steps) :
    underGenerated root store env j p n = steps.anyM (selects root store env j p) := by
  rw [underGenerated]
  split
  · next none => cases none.symm.trans h
  · next found =>
    cases found.symm.trans h
    refine anyM_attach fun x => ?_
    dsimp only [selects]
    split <;> simp_all

/-! ## Nodes with the same parts -/

@[simp] theorem pending_force (cx : Context) (reason : String) :
    (cx.force reason).pending = cx.pending := rfl

@[simp] theorem pending_free (p : List Symbol) : (Context.free p).pending = p := rfl

/-- What follows a selector depends on the context there, but not on what is pending. -/
theorem selected_congr {α : Type} {phrase : String} {selector : Node}
    {k k' : Context → Classifier α}
    (hk : ∀ inner : Context, inner.pending = cx.pending → k' inner = k inner) :
    (selected cx phrase selector >>= k') = (selected cx phrase selector >>= k) := by
  unfold selected
  split
  · simp only [bind_assoc, pure_bind]
    exact congrArg _ (funext fun text => hk _ rfl)
  · rw [pure_bind, pure_bind, hk cx rfl]

section

variable (ih : ∀ m ∈ n.nodes, ∀ cx : Context, cx.pending = p →
    visit root' store' env j' cx m = visit root store env j cx m)
  (hp : cx.pending = p)

include ih hp

theorem visitAll_congr :
    visitAll root' store' env j' cx n = visitAll root store env j cx n := by
  rw [visitAll, visitAll]
  exact congrArg (List.mapM · n.nodes.attach) (funext fun x => ih x.1 x.2 cx hp)

theorem unsupported_congr (construct : String) :
    unsupported root' store' env j' cx n construct =
      unsupported root store env j cx n construct := by
  rw [unsupported, unsupported, visitAll_congr ih hp]

theorem localDeclaration_congr :
    localDeclaration root' store' env j' cx n = localDeclaration root store env j cx n := by
  rw [localDeclaration, localDeclaration, visitAll_congr ih hp]

theorem ifStatement_congr (ih' : ∀ clause ∈ n.nodes, ∀ m ∈ clause.nodes, ∀ cx : Context,
      cx.pending = p → visit root' store' env j' cx m = visit root store env j cx m) :
    ifStatement root' store' env j' cx n = ifStatement root store env j cx n := by
  rw [ifStatement, ifStatement]
  split
  · rfl
  · next condition branches hc =>
    rw [ih condition (by simp [hc]) cx hp]
    congr 1
    funext s
    have inner (inner : Context) (hin : inner.pending = cx.pending) (m : { m // m ∈ branches }) :
        visit root' store' env j' inner m.1 = visit root store env j inner m.1 :=
      ih m.1 (by simp [hc, m.2]) inner (hin.trans hp)
    have clauses (inner : Context) (hin : inner.pending = cx.pending)
        (m : { m // m ∈ branches }) : visitAll root' store' env j' inner m.1 =
          visitAll root store env j inner m.1 :=
      visitAll_congr (ih' m.1 (by simp [hc, m.2])) (hin.trans hp)
    dsimp only
    split
    · simp only [pure_bind, inner cx rfl, clauses cx rfl]
    · refine selected_congr fun cx' hin => ?_
      simp only [pure_bind, inner cx' hin, clauses cx' hin]

end

/-! ## Shared nodes -/

/-- The nodes of `S` stand in both trees, at the same places below their roots, and both stores know
the same about them and about the locals that they declare. -/
structure Shared (S : Set Node) (root root' : Node) (store store' : FactStore) : Prop where
  closed : ∀ n ∈ S, ∀ c ∈ n.nodes, c ∈ S
  lookup : ∀ n ∈ S, store'.lookup n = store.lookup n
  sites : ∀ n ∈ S, ∀ v, store.declared? n = some v → store'.sitesOf v = store.sitesOf v ∧
    ∀ id ∈ store.sitesOf v, ∃ site ∈ S, site.id = id
  found : ∀ n ∈ S, root.preorder.find? (·.id == n.id) = some n ∧
    root'.preorder.find? (·.id == n.id) = some n
  above : ∀ n ∈ S, ∃ steps top top', root.above n.id = some (steps ++ [top]) ∧
    root'.above n.id = some (steps ++ [top']) ∧ (∀ step ∈ steps, step.1 ∈ S) ∧
    top.1.kind = .compilationUnit ∧ top'.1.kind = .compilationUnit

namespace Shared

variable (h : Shared S root root' store store')

include h

theorem symbol? (hn : n ∈ S) : store'.symbol? n = store.symbol? n := by
  rw [FactStore.symbol?, h.lookup n hn, FactStore.symbol?]

theorem declared? (hn : n ∈ S) : store'.declared? n = store.declared? n := by
  rw [FactStore.declared?, h.lookup n hn, FactStore.declared?]

theorem isDynamic (hn : n ∈ S) : isDynamic store' n = isDynamic store n := by
  rw [Staging.isDynamic, Staging.isDynamic, FactStore.type?, FactStore.type?, h.lookup n hn]

theorem violation (hn : n ∈ S) : violation store' env n = violation store env n := by
  unfold Staging.violation
  rw [h.symbol? hn, h.isDynamic hn]

theorem identifier (hn : n ∈ S) : identifier store' env n cx = identifier store env n cx := by
  unfold Staging.identifier
  rw [h.symbol? hn]

theorem isTypeName (hn : n ∈ S) : isTypeName store' env n = isTypeName store env n := by
  unfold Staging.isTypeName
  rw [h.symbol? hn]

theorem assignedLocal? (hn : n ∈ S) : assignedLocal? store' n = assignedLocal? store n := by
  unfold Staging.assignedLocal?
  split
  · next target ht => rw [h.symbol? (h.closed n hn _ (Node.mem_of_node? ht))]
  · rfl

section

variable (hn : n ∈ S) (ih : ∀ m ∈ n.nodes, ∀ cx : Context, cx.pending = p →
    visit root' store' env j' cx m = visit root store env j cx m)
  (hp : cx.pending = p)

include hn ih hp

theorem memberAccess :
    memberAccess root' store' env j' cx n = memberAccess root store env j cx n := by
  rw [Staging.memberAccess, Staging.memberAccess, h.symbol? hn]
  split
  · rfl
  · next receiver hr =>
    simp only [ih receiver (Node.mem_of_node? hr), hp, pending_force]

theorem invocation :
    invocation root' store' env j' cx n = invocation root store env j cx n := by
  rw [Staging.invocation, Staging.invocation, h.symbol? hn, visitAll_congr ih hp]
  split
  · rfl
  · next callee arguments hc =>
    have hcallee : callee ∈ n.nodes := by simp [hc]
    have first := ih callee hcallee
    have rest (m : { m // m ∈ arguments }) := ih m.1 (by simp [hc, m.2])
    have names : (callee.node? 0).any (fun receiver => Staging.isTypeName store' env receiver) =
        (callee.node? 0).any fun receiver => Staging.isTypeName store env receiver := by
      cases hr : callee.node? 0 with
      | none => rfl
      | some receiver =>
        have shared := h.closed callee (h.closed n hn callee hcallee)
        exact h.isTypeName (shared receiver (Node.mem_of_node? hr))
    simp only [first, rest, names, hp, pending_force]

theorem assignment :
    assignment root' store' env j' cx n = assignment root store env j cx n := by
  rw [Staging.assignment, Staging.assignment, h.assignedLocal? hn, visitAll_congr ih hp]
  split
  · rfl
  · dsimp only
    split
    · rfl
    · congr 1
      funext bound
      split
      · split
        · rfl
        · next target values ht =>
          have first := ih target (by simp [ht])
          have rest (m : { m // m ∈ values }) := ih m.1 (by simp [ht, m.2])
          simp only [first, rest, hp, pending_force]
      · rfl

theorem forEachStatement :
    forEachStatement root' store' env j' cx n = forEachStatement root store env j cx n := by
  rw [Staging.forEachStatement, Staging.forEachStatement, h.declared? hn, unsupported_congr ih hp]
  split
  · rfl
  · split
    · next source body hs hb =>
      have first := ih source (Node.mem_of_node? hs) cx hp
      have rest := ih body (Node.mem_of_node? hb)
      rw [first]
      congr 1
      funext s
      dsimp only
      generalize (if s = Stage.generationTime then s else Stage.generated) = s'
      have inner : ∀ inner : Context, inner.pending = cx.pending →
          (do discard (visit root' store' env j' (inner.inLoop s') body); return s') =
            (do discard (visit root store env j (inner.inLoop s') body); return s') :=
        fun inner hin => by rw [rest (inner.inLoop s') (hin.trans hp)]
      split
      case' h_1 => refine congrArg _ (funext fun _ => ?_)
      all_goals
        split
        · exact inner cx rfl
        · exact selected_congr inner
    · rfl

theorem declarator (ahead : ∀ v, store.declared? n = some v → v ∉ p →
      ∃ i i', j = i + 1 ∧ j' = i' + 1 ∧
        assignedStage root' store' env i' (v :: p) v = assignedStage root store env i (v :: p) v) :
    declarator root' store' env j' cx n = declarator root store env j cx n := by
  rw [Staging.declarator, Staging.declarator, h.declared? hn, visitAll_congr ih hp]
  split
  · rfl
  · next v hv =>
    split
    · rfl
    · split
      · next value hvalue => rw [ih value (Node.mem_of_node? hvalue) cx hp]
      · rw [hp]
        split
        · rfl
        · next new =>
          obtain ⟨i, i', rfl, rfl, same⟩ := ahead v hv (by simpa using new)
          dsimp only
          rw [same]

end

/-- Whether a shared node stands under a generated condition is the same in both trees. -/
theorem underGenerated (hn : n ∈ S) (ih : ∀ m ∈ S,
    visit root' store' env j' (.free p) m = visit root store env j (.free p) m) :
    underGenerated root' store' env j' p n = underGenerated root store env j p n := by
  obtain ⟨steps, top, top', above, above', inside, hk, hk'⟩ := h.above n hn
  rw [underGenerated_eq above, underGenerated_eq above', anyM_concat (selects_top hk),
    anyM_concat (selects_top hk')]
  refine anyM_congr fun step hstep => ?_
  have selectors (selector : Node) (hs : step.1.node? 0 = some selector) :=
    ih selector (h.closed step.1 (inside step hstep) selector (Node.mem_of_node? hs))
  unfold selects
  split
  · next hs => rw [selectors _ hs]
  · next hs => rw [selectors _ hs]
  · rfl

/-- Looking ahead for the stage of a local does the same in both trees. -/
theorem assignedStage {v : Symbol} (hn : n ∈ S) (hv : store.declared? n = some v)
    (ih : ∀ m ∈ S,
      visit root' store' env j' (.free p) m = visit root store env j (.free p) m) :
    assignedStage root' store' env j' p v = assignedStage root store env j p v := by
  obtain ⟨same, sites⟩ := h.sites n hn v hv
  rw [assignedStage_eq, assignedStage_eq, same]
  refine congrArg (· >>= _) (foldlM_congr (fun stages id hid => ?_) _)
  obtain ⟨site, hsite, rfl⟩ := sites id hid
  obtain ⟨found, found'⟩ := h.found site hsite
  have under := h.underGenerated hsite ih
  have values (value : Node) (hs : site.node? 1 = some value) :=
    ih value (h.closed site hsite value (Node.mem_of_node? hs))
  rw [found, found']
  cases stages with
  | none => rfl
  | some stages =>
    simp only [joins, under]
    refine congrArg _ (funext fun selected => ?_)
    split
    · rfl
    · split
      · next hs _ => rw [values _ hs]
      · rfl

theorem compute (hn : n ∈ S) (hp : cx.pending = p)
    (ih : ∀ m ∈ n.nodes, ∀ cx : Context, cx.pending = p →
      visit root' store' env j' cx m = visit root store env j cx m)
    (ih' : ∀ clause ∈ n.nodes, ∀ m ∈ clause.nodes, ∀ cx : Context, cx.pending = p →
      visit root' store' env j' cx m = visit root store env j cx m)
    (ahead : ∀ v, store.declared? n = some v → v ∉ p →
      ∃ i i', j = i + 1 ∧ j' = i' + 1 ∧ Staging.assignedStage root' store' env i' (v :: p) v =
        Staging.assignedStage root store env i (v :: p) v) :
    compute root' store' env j' cx n = compute root store env j cx n := by
  rw [Staging.compute, Staging.compute, visitAll_congr ih hp, unsupported_congr ih hp,
    h.identifier hn, h.memberAccess hn ih hp, h.invocation hn ih hp, h.assignment hn ih hp,
    localDeclaration_congr ih hp, h.declarator hn ih hp ahead, ifStatement_congr ih hp ih',
    h.forEachStatement hn ih hp]

theorem settles (hn : n ∈ S)
    (hc : Staging.compute root' store' env j' cx n = Staging.compute root store env j cx n) :
    settle root' store' env j' cx n = settle root store env j cx n := by
  rw [settle, settle, hc, h.isDynamic hn]

theorem compels (hn : n ∈ S) (reason : String)
    (hc : Staging.compute root' store' env j' cx n = Staging.compute root store env j cx n) :
    compel root' store' env j' cx n reason = compel root store env j cx n reason := by
  rw [compel, compel, hc, h.violation hn]

/-- The visits of a shared node do the same things in both trees. -/
theorem visit {locals : List Symbol}
    (declared : ∀ m ∈ S, ∀ v, store.declared? m = some v → v ∈ locals) {j j' : Nat} {n : Node}
    (hn : n ∈ S) {cx : Context} (distinct : cx.pending.Nodup) (inside : cx.pending ⊆ locals)
    (hj : locals.length ≤ j + cx.pending.length) (hj' : locals.length ≤ j' + cx.pending.length) :
    visit root' store' env j' cx n = visit root store env j cx n := by
  have ih (m : Node) (hm : m ∈ n.nodes) (cx' : Context) (hp : cx'.pending = cx.pending) :
      Staging.visit root' store' env j' cx' m = Staging.visit root store env j cx' m := by
    have := Node.size_lt_of_mem hm
    exact visit declared (h.closed n hn m hm) (hp ▸ distinct) (hp ▸ inside) (hp ▸ hj) (hp ▸ hj')
  have ih' (clause : Node) (hclause : clause ∈ n.nodes) (m : Node) (hm : m ∈ clause.nodes)
      (cx' : Context) (hp : cx'.pending = cx.pending) :
      Staging.visit root' store' env j' cx' m = Staging.visit root store env j cx' m := by
    have := Node.size_lt_of_mem hclause
    have := Node.size_lt_of_mem hm
    exact visit declared (h.closed _ (h.closed n hn _ hclause) m hm) (hp ▸ distinct) (hp ▸ inside)
      (hp ▸ hj) (hp ▸ hj')
  have same := h.compute hn rfl ih ih' fun v hv new => by
    have distinct' : (v :: cx.pending).Nodup := List.nodup_cons.2 ⟨new, distinct⟩
    have inside' : v :: cx.pending ⊆ locals := List.cons_subset.2 ⟨declared n hn v hv, inside⟩
    -- a further pending local leaves room for one more look ahead
    have room := (List.subperm_of_subset distinct' inside').length_le
    rw [List.length_cons] at room
    obtain ⟨i, rfl⟩ : ∃ i, j = i + 1 := ⟨j - 1, by omega⟩
    obtain ⟨i', rfl⟩ : ∃ i', j' = i' + 1 := ⟨j' - 1, by omega⟩
    refine ⟨i, i', rfl, rfl, h.assignedStage hn hv fun m hm => ?_⟩
    refine visit declared hm distinct' inside' ?_ ?_
    all_goals
      simp only [pending_free, List.length_cons]
      omega
  rw [Staging.visit, Staging.visit, h.settles hn same]
  simp only [h.compels hn _ same]
termination_by (j, n.size)

end Shared

end Stencil.Staging
