import Mathlib.Data.List.Find
import Stencil.Proofs.Facts.Declaring
import Stencil.Proofs.Facts.Lexical

/-!
# Stretches of the walk

The resolver keeps a stack of scopes and walks every construct once. Here is what a stretch of the
walk does, in terms of the tree: which declarations it comes to and in which order, which of them
it leaves in the innermost scope, and what it finds out about the nodes it covers.

Results:

* `Leads.refl`, `Leads.trans`, `Ready.after` – stretches, one after the other;
* `Obeys.bind`, `Obeys.inScope` – how actions compose;
* `Obeys.declare`, `Obeys.announce`, `Obeys.record`, `Obeys.refine` – the steps of the resolver.
-/
namespace Stencil

/-- Declarations that are noted at their node. The variable of a query is not. -/
def NodeKind.isNoted (k : NodeKind) : Bool := k.declares && k != .query

/-- Names and declarations about which something is found. -/
def NodeKind.isTold (k : NodeKind) : Bool := k == .identifier || k.isNoted

namespace Resolution

open Lexical

/-! ## The order of declarations -/

/-- The declarations in a tree in the order in which the walk comes to them. It walks an initializer
or a source before it declares the name, and the value of an assignment before the target. -/
def order (n : Node) : List Node :=
  let parts := n.nodes.attach.map fun ⟨m, _⟩ => order m
  let parts := if n.kind = .assignment then parts.reverse else parts
  let late := if n.kind.declaresLate then 1 else 0
  (parts.take late).flatten ++ (if n.kind.declares then [n] else []) ++ (parts.drop late).flatten
termination_by n.size
decreasing_by exact Node.size_lt_of_mem ‹_›

theorem order_eq (n : Node) : order n =
    let parts := if n.kind = .assignment then (n.nodes.map order).reverse else n.nodes.map order
    let late := if n.kind.declaresLate then 1 else 0
    (parts.take late).flatten ++ (if n.kind.declares then [n] else []) ++
      (parts.drop late).flatten := by
  rw [order, List.map_subtype (g := order) fun _ _ => rfl, List.unattach_attach]

section

variable {n : Node}

theorem order_plain (hd : n.kind.declares = false) (ha : n.kind ≠ .assignment) :
    order n = n.nodes.flatMap order := by
  have late : n.kind.declaresLate = false := by
    revert hd
    cases n.kind <;> first | exact fun _ => rfl | exact fun hd => absurd hd (by decide)
  rw [order_eq, if_neg ha, late, hd, List.flatMap_def]
  rfl

theorem order_assignment {target value : Node} (hk : n.kind = .assignment)
    (hn : n.nodes = [target, value]) : order n = order value ++ order target := by
  rw [order_eq, hn, hk]
  simp [NodeKind.declaresLate, NodeKind.declares, NodeKind.declaresAround,
    NodeKind.declaresWithin]

theorem order_first (hd : n.kind.declares) (hl : n.kind.declaresLate = false) :
    order n = [n] ++ n.nodes.flatMap order := by
  have ha : n.kind ≠ .assignment := fun hk => by rw [hk] at hd; cases hd
  rw [order_eq, if_neg ha, hl, if_pos hd, List.flatMap_def]
  rfl

theorem order_late (hd : n.kind.declares) (hl : n.kind.declaresLate) :
    order n = (n.nodes.take 1).flatMap order ++ [n] ++ (n.nodes.drop 1).flatMap order := by
  have ha : n.kind ≠ .assignment := fun hk => by rw [hk] at hd; cases hd
  rw [order_eq, if_neg ha, if_pos hl, if_pos hd, List.flatMap_def, List.flatMap_def, List.map_take,
    List.map_drop]

end

/-! ## What a stretch of the walk does -/

/-- What declarations do to the symbols in scope, the first declaration first. -/
def pushedAll (vs : List Symbol) (scopes : List (List Symbol)) : List (List Symbol) :=
  vs.foldl (fun scopes v => pushed v scopes) scopes

theorem pushedAll_append (vs ws : List Symbol) (scopes : List (List Symbol)) :
    pushedAll (vs ++ ws) scopes = pushedAll ws (pushedAll vs scopes) := List.foldl_append

theorem pushedAll_cons (vs : List Symbol) (scope : List Symbol) (rest : List (List Symbol)) :
    pushedAll vs (scope :: rest) = (vs.reverse ++ scope) :: rest := by
  induction vs generalizing scope with
  | nil => rfl
  | cons v vs ih =>
    change pushedAll vs ((v :: scope) :: rest) = _
    rw [ih, List.reverse_cons, List.append_assoc]
    rfl

variable {e : Environment} {own : Node → Symbol} {R : Node → Facts → Prop}

/-- The names of `ds` are in scope, nearest first, and the declarations `ord` come next. -/
structure Ready (own : Node → Symbol) (ds ord : List Node) (s : State) : Prop where
  nonempty : s.scopes ≠ []
  visible : s.symbols.flatten = ds.map own
  numbers : (ord.map fun d => (own d).id) = List.range' s.next ord.length

/-- From `s` to `s'` the walk came to the declarations `ord`, left those of `out` in the innermost
scope, and found out about the nodes in `cover` what `R` says. -/
structure Leads (own : Node → Symbol) (R : Node → Facts → Prop) (ord out cover : List Node)
    (s s' : State) : Prop where
  next : s'.next = s.next + ord.length
  symbols : s'.symbols = pushedAll (out.map own) s.symbols
  found : ∃ more, s'.found = more ++ s.found ∧
    (∀ entry ∈ more, ∃ x ∈ cover, entry.1 = x.id ∧ R x entry.2) ∧
    ∀ x ∈ cover, x.kind.isTold → ∃ entry ∈ more, entry.1 = x.id

section

variable {ds ds' ord ord' out out' cover cover' : List Node} {s mid s' : State}

theorem Ready.prefix (h : Ready own ds (ord ++ ord') s) : Ready own ds ord s := by
  refine ⟨h.nonempty, h.visible, ?_⟩
  have numbers := h.numbers
  rw [List.map_append, List.length_append, ← List.range'_append_1] at numbers
  exact (List.append_inj numbers (by simp)).1

theorem Ready.after (h : Ready own ds (ord ++ ord') s) (hl : Leads own R ord out cover s mid) :
    Ready own (out.reverse ++ ds) ord' mid := by
  have same : mid.symbols = pushedAll (out.map own) s.symbols := hl.symbols
  have numbers := h.numbers
  rw [List.map_append, List.length_append, ← List.range'_append_1] at numbers
  cases hs : s.symbols with
  | nil => exact absurd (List.map_eq_nil_iff.1 hs) h.nonempty
  | cons scope rest =>
    rw [hs, pushedAll_cons] at same
    refine ⟨fun he => ?_, ?_, ?_⟩
    · rw [State.symbols, he] at same
      cases same
    · -- later declarations stand in front
      rw [same, List.map_append, ← h.visible, hs, ← List.map_reverse]
      simp
    · rw [hl.next]
      exact (List.append_inj numbers (by simp)).2

theorem Leads.refl (s : State) : Leads own R [] [] [] s s :=
  ⟨rfl, rfl, [], rfl, by simp, by simp⟩

theorem Leads.trans (h : Leads own R ord out cover s mid)
    (h' : Leads own R ord' out' cover' mid s') :
    Leads own R (ord ++ ord') (out ++ out') (cover ++ cover') s s' := by
  obtain ⟨more, hmore, first, told⟩ := h.found
  obtain ⟨more', hmore', second, told'⟩ := h'.found
  refine ⟨?_, ?_, more' ++ more, ?_, fun entry he => ?_, fun x hx hk => ?_⟩
  · rw [h'.next, h.next, List.length_append, Nat.add_assoc]
  · rw [h'.symbols, h.symbols, List.map_append, pushedAll_append]
  · rw [hmore', hmore, List.append_assoc]
  · rcases List.mem_append.1 he with he | he
    · obtain ⟨x, hx, hr⟩ := second entry he
      exact ⟨x, List.mem_append_right _ hx, hr⟩
    · obtain ⟨x, hx, hr⟩ := first entry he
      exact ⟨x, List.mem_append_left _ hx, hr⟩
  · rcases List.mem_append.1 hx with hx | hx
    · obtain ⟨entry, he, hid⟩ := told x hx hk
      exact ⟨entry, List.mem_append_right _ he, hid⟩
    · obtain ⟨entry, he, hid⟩ := told' x hx hk
      exact ⟨entry, List.mem_append_left _ he, hid⟩

end

/-! ## Walks that keep to the order -/

/-- From every state in which `ds` is visible and the declarations `ord` come next, the action
leads on as `Leads` says. -/
def Obeys (own : Node → Symbol) (R : Node → Facts → Prop) (ds ord out cover : List Node) {α : Type}
    (act : Resolver α) : Prop :=
  ∀ s, Ready own ds ord s → ∀ a s', act.run s = .ok (a, s') → Leads own R ord out cover s s'

namespace Obeys

variable {α β : Type} {act : Resolver α}
  {ds ord ord' out out' cover cover' : List Node}

theorem pure (a : α) : Obeys own R ds [] [] [] (pure a) := by
  intro s _ b s' hr
  cases hr
  exact .refl s

theorem bind {k : α → Resolver β} (h : Obeys own R ds ord out cover act)
    (hk : ∀ a, Obeys own R (out.reverse ++ ds) ord' out' cover' (k a)) :
    Obeys own R ds (ord ++ ord') (out ++ out') (cover ++ cover') (act >>= k) := by
  intro s hs b s' hr
  obtain ⟨a, mid, ha, hr⟩ := Pass.exists_of_bind hr
  have first := h s hs.prefix a mid ha
  exact first.trans (hk a mid (hs.after first) b s' hr)

/-- Going on after an action that declares nothing around it. -/
theorem andThen {k : α → Resolver β} (h : Obeys own R ds ord [] cover act)
    (hk : ∀ a, Obeys own R ds ord' out' cover' (k a)) :
    Obeys own R ds (ord ++ ord') out' (cover ++ cover') (act >>= k) := bind h hk

/-- Going on with something that neither declares nor tells. -/
theorem andNothing {k : α → Resolver β} (h : Obeys own R ds ord [] cover act)
    (hk : ∀ a, Obeys own R ds [] [] [] (k a)) : Obeys own R ds ord [] cover (act >>= k) := by
  have := h.andThen hk
  rwa [List.append_nil, List.append_nil] at this

/-- Only what something is found out about need be covered. -/
theorem covering (h : Obeys own R ds ord out cover act) (hle : cover ⊆ cover')
    (htold : ∀ x ∈ cover', x.kind.isTold → x ∈ cover) : Obeys own R ds ord out cover' act := by
  intro s hs a s' hr
  obtain ⟨next, symbols, more, hmore, right, told⟩ := h s hs a s' hr
  refine ⟨next, symbols, more, hmore, fun entry he => ?_, fun x hx hk => told x (htold x hx hk) hk⟩
  obtain ⟨x, hx, hr⟩ := right entry he
  exact ⟨x, hle hx, hr⟩

/-- Making something of the result. -/
theorem result (f : α → β) (h : Obeys own R ds ord out cover act) :
    Obeys own R ds ord out cover (act >>= fun a => Pure.pure (f a)) := by
  have := bind h fun a => pure (R := R) (f a)
  rwa [List.append_nil, List.append_nil, List.append_nil] at this

theorem discard (h : Obeys own R ds ord out cover act) :
    Obeys own R ds ord out cover (discard act) := by
  rw [Pass.discard_eq]
  exact h.result fun _ => PUnit.unit

theorem map (f : α → β) (h : Obeys own R ds ord out cover act) :
    Obeys own R ds ord out cover (f <$> act) := by
  rw [← bind_pure_comp]
  exact h.result f

/-- A look at the state. -/
theorem look {k : State → Resolver α} (h : ∀ s, ∃ a, k s = Pure.pure a) :
    Obeys own R ds [] [] [] (get >>= k) := by
  intro s _ b s' hr
  obtain ⟨a, ha⟩ := h s
  have hr : (k s).run s = .ok (b, s') := hr
  rw [ha] at hr
  cases hr
  exact .refl s

/-- Expressions one after the other. -/
theorem mapM {γ : Type} {f : γ → Resolver β} {o c : γ → List Node} (xs : List γ)
    (h : ∀ x ∈ xs, Obeys own R ds (o x) [] (c x) (f x)) :
    Obeys own R ds (xs.flatMap o) [] (xs.flatMap c) (xs.mapM f) := by
  induction xs with
  | nil => exact pure _
  | cons x xs ih =>
    rw [List.mapM_cons]
    exact andThen (h x List.mem_cons_self) fun b =>
      (ih fun y hy => h y (List.mem_cons_of_mem _ hy)).result (b :: ·)

theorem foldlM {γ : Type} {f : β → γ → Resolver β} {o c : γ → List Node} (xs : List γ) (b : β)
    (h : ∀ b, ∀ x ∈ xs, Obeys own R ds (o x) [] (c x) (f b x)) :
    Obeys own R ds (xs.flatMap o) [] (xs.flatMap c) (xs.foldlM f b) := by
  induction xs generalizing b with
  | nil => exact pure _
  | cons x xs ih =>
    rw [List.foldlM]
    exact andThen (h b x List.mem_cons_self) fun b' => ih b' fun b y hy =>
      h b y (List.mem_cons_of_mem _ hy)

theorem forM {γ : Type} {f : γ → Resolver PUnit} {o c : γ → List Node} (xs : List γ)
    (h : ∀ x ∈ xs, Obeys own R ds (o x) [] (c x) (f x)) :
    Obeys own R ds (xs.flatMap o) [] (xs.flatMap c) (xs.forM f) := by
  induction xs with
  | nil => exact pure _
  | cons x xs ih =>
    exact andThen (h x List.mem_cons_self) fun _ => ih fun y hy => h y (List.mem_cons_of_mem _ hy)

theorem inScope (h : Obeys own R ds ord out cover act) :
    Obeys own R ds ord [] cover (inScope act) := by
  intro s hs a s' hr
  let opened : State := { s with scopes := [] :: s.scopes }
  have ready : Ready own ds ord opened := ⟨List.cons_ne_nil _ _, hs.visible, hs.numbers⟩
  rw [run_inScope] at hr
  cases ha : act.run opened with
  | error d =>
    rw [ha] at hr
    cases hr
  | ok r =>
    rw [ha] at hr
    cases hr
    obtain ⟨next, symbols, found⟩ := h opened ready r.1 r.2 ha
    refine ⟨next, ?_, found⟩
    have inner : opened.symbols = [] :: s.symbols := rfl
    rw [inner, pushedAll_cons] at symbols
    rw [State.symbols, List.map_tail]
    exact congrArg List.tail symbols

/-- Facts that are found about a node. -/
theorem record {n : Node} {f : Facts} (hf : f.isNone = false) (hr : R n f) :
    Obeys own R ds [] [] [n] (record n f) := by
  intro s _ a s' hrun
  unfold Resolution.record at hrun
  rw [hf] at hrun
  cases hrun
  refine ⟨rfl, rfl, [(n.id, f)], rfl, fun entry he => ?_, fun x hx _ => ?_⟩
  · rw [List.mem_singleton.1 he]
    exact ⟨n, List.mem_singleton_self n, rfl, hr⟩
  · exact ⟨(n.id, f), List.mem_singleton_self _, by rw [List.mem_singleton.1 hx]⟩

theorem refine (target : Node) (value : TypeExpr) :
    Obeys own R ds [] [] [] (refine target value) := by
  intro s _ a s' hr
  unfold Resolution.refine at hr
  split at hr
  · cases hr
    exact ⟨rfl, symbols_adjust _ value s.scopes, [], rfl, by simp, by simp⟩
  · cases hr
    exact .refl s

end Obeys

section

variable {n : Node} {ds : List Node}

/-- A declaration puts the symbol that comes next in scope. -/
theorem obeys_declare {name : String} {kind : SymbolKind} (type : Option TypeExpr)
    (hown : own n = ⟨(own n).id, name, kind, none, none⟩) :
    ∀ s, Ready own ds [n] s → ∃ mid, (declare name kind type).run s = .ok (own n, mid) ∧
      Leads own R [n] [n] [] s mid := by
  intro s hs
  obtain ⟨mid, hr, next, found, symbols⟩ := run_declare name kind type s
  have number : (own n).id = s.next := by simpa using hs.numbers
  have same : own n = ⟨s.next, name, kind, none, none⟩ := by rw [hown, number]
  rw [← same] at hr symbols
  exact ⟨mid, hr, next, symbols, [], found, by simp, by simp⟩

theorem Obeys.declare {name : String} {kind : SymbolKind} (type : Option TypeExpr)
    (hown : own n = ⟨(own n).id, name, kind, none, none⟩) :
    Obeys own R ds [n] [n] [] (declare name kind type) := by
  intro s hs a s' hr
  obtain ⟨mid, hmid, leads⟩ := obeys_declare (R := R) type hown s hs
  cases hr.symm.trans hmid
  exact leads

/-- A declaration that is noted at its node. -/
theorem Obeys.announce {name : String} {kind : SymbolKind} (type noted : Option TypeExpr)
    (hown : own n = ⟨(own n).id, name, kind, none, none⟩)
    (hr : R n ⟨none, some (own n), noted⟩) : Obeys own R ds [n] [n] [n] (do
      let declared ← Resolution.declare name kind type
      Resolution.record n ⟨none, some declared, noted⟩) := by
  intro s hs a s' hrun
  obtain ⟨b, mid, hb, hrun⟩ := Pass.exists_of_bind hrun
  obtain ⟨mid', hmid, leads⟩ := obeys_declare (R := R) type hown s hs
  cases hb.symm.trans hmid
  have hs : Ready own ds ([n] ++ []) s := hs
  have ready : Ready own ([n].reverse ++ ds) [] mid := hs.after leads
  exact leads.trans (Obeys.record rfl hr mid ready a s' hrun)

/-- A declaration that is noted at its node and seen from there on. -/
theorem Obeys.announceThen {β : Type} {name : String} {kind : SymbolKind}
    (type noted : Option TypeExpr) {ord out cover : List Node} {k : PUnit → Resolver β}
    (hown : own n = ⟨(own n).id, name, kind, none, none⟩) (hr : R n ⟨none, some (own n), noted⟩)
    (hk : Obeys own R (n :: ds) ord out cover (k ⟨⟩)) :
    Obeys own R ds ([n] ++ ord) ([n] ++ out) ([n] ++ cover) (do
      let declared ← Resolution.declare name kind type
      Resolution.record n ⟨none, some declared, noted⟩ >>= k) := by
  rw [← bind_assoc]
  exact .bind (.announce type noted hown hr) fun _ => hk

/-- What is said of all children is said of the node, if nothing is told about the node itself. -/
theorem Obeys.ofNodes {α : Type} {act : Resolver α} {ord out : List Node}
    (h : Obeys own R ds ord out (n.nodes.flatMap Node.preorder) act) (ht : n.kind.isTold = false) :
    Obeys own R ds ord out n.preorder act := by
  rw [preorder_nodes]
  refine h.covering (List.subset_cons_self _ _) fun x hx hk => ?_
  rcases List.mem_cons.1 hx with rfl | hx
  · exact absurd hk (by rw [ht]; decide)
  · exact hx

end

end Resolution

end Stencil
