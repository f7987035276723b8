import Stencil.Proofs.Facts.Declaring
import Stencil.Proofs.Facts.TypeTexts

/-!
# What resolution records

Types come from texts that were read, from literals, and from other types, so all that a walk
records are readable. A symbol that it records for an identifier may be one that a template
declares; every other one is the symbol of a global or of a member, since a call takes over the
symbol of its callee only if that is a method.

Results:

* `Preserves` – what a stretch of the walk keeps true of scopes and findings;
* `preserves_walk` – all walks do so;
* `sound_of_resolve` – what is found out about a tree.
-/
namespace Stencil.Resolution

open TypeExpr

/-- The symbol stands for a global or for a member. -/
def OfEnvironment (e : Environment) (v : Symbol) : Prop :=
  (∃ name type, e.globalSymbol? name = some (v, type)) ∨
    ∃ receiver name type, e.memberSymbol? receiver name = some (v, type)

/-- The kinds of symbols that templates declare. -/
def ownKinds : List SymbolKind := [.template, .localVar, .parameter]

/-- A local as a template may declare it. -/
structure Local.Sound (l : Local) : Prop where
  kind : l.symbol.kind ∈ ownKinds
  type : ∀ t, l.type = some t → t.Readable

/-- The symbol is one of the environment, or the node is an identifier. -/
def Known (e : Environment) (x : Node) (v : Symbol) : Prop :=
  OfEnvironment e v ∨ (v.kind ∈ ownKinds ∧ x.kind = .identifier)

/-- Facts as they may be recorded for a node with number `id` among `ns`. -/
structure Sound (e : Environment) (ns : Set Node) (id : Nat) (f : Facts) : Prop where
  type : ∀ t, f.type = some t → t.Readable
  symbol : ∀ v, f.symbol = some v → ∃ x ∈ ns, x.id = id ∧ Known e x v

structure State.Sound (e : Environment) (ns : Set Node) (s : State) : Prop where
  locals : ∀ scope ∈ s.scopes, ∀ l ∈ scope, l.Sound
  found : ∀ entry ∈ s.found, Resolution.Sound e ns entry.1 entry.2

variable {e : Environment} {ns : Set Node} {n : Node} {t l r : TypeExpr} {s : State}

/-! ## Types of expressions -/

theorem readable_typeExpr (m : Member) : m.typeExpr.Readable := by
  unfold Member.typeExpr
  split
  · next t h => exact readable_of_parse h
  · exact trivial

theorem readable_written (h : writtenType? n = some t) : t.Readable := by
  obtain ⟨token, -, rfl⟩ := Option.map_eq_some_iff.1 h
  split
  · next t h => exact readable_of_parse h
  · exact trivial

theorem readable_literalType (kind : Option TokenKind) : (literalType kind).Readable := by
  unfold literalType
  split <;> exact trivial

/-- Where no type is noted. -/
theorem readable_none (t : TypeExpr) (h : none = some t) : t.Readable := by
  cases h

/-- A type, or the unknown one. -/
theorem readable_getD {o : Option TypeExpr} {d : TypeExpr} (ho : ∀ t, o = some t → t.Readable)
    (hd : d.Readable) : (o.getD d).Readable := by
  cases o with
  | none => exact hd
  | some t => exact ho t rfl

theorem readable_binaryType (operator : Option TokenKind) (hl : l.Readable) (hr : r.Readable) :
    (binaryType operator l r).Readable := by
  have promoted : ((l.promote r).getD .unknown).Readable :=
    readable_getD (fun _ h => hl.promote hr h) trivial
  unfold binaryType
  split
  · exact trivial
  · split
    case h_9 =>
      split
      · exact trivial
      · exact promoted
    case h_10 => exact promoted
    all_goals exact trivial

theorem readable_unaryType (operator : Option TokenKind) (h : t.Readable) :
    (unaryType operator t).Readable := by
  unfold unaryType
  split
  · exact trivial
  · exact h

theorem readable_indexedType (h : t.Readable) : (indexedType t).Readable := by
  unfold indexedType
  split
  · exact trivial
  · exact trivial
  · exact h
  · exact trivial

theorem readable_iteratedType (h : t.Readable) : (iteratedType t).Readable := by
  unfold iteratedType
  split
  · exact trivial
  · exact readable_getD (fun _ hu => h.element? hu) trivial

theorem readable_global {name : String} {v : Symbol} (h : e.globalSymbol? name = some (v, t)) :
    t.Readable := by
  obtain ⟨m, -, h⟩ := Option.bind_eq_some_iff.1 h
  obtain ⟨id, -, h⟩ := Option.bind_eq_some_iff.1 h
  cases h
  exact readable_typeExpr m

theorem readable_member {receiver : TypeExpr} {name : String} {v : Symbol}
    (h : e.memberSymbol? receiver name = some (v, t)) : t.Readable := by
  obtain ⟨⟨owner, m⟩, -, h⟩ := Option.bind_eq_some_iff.1 h
  obtain ⟨id, -, h⟩ := Option.bind_eq_some_iff.1 h
  cases h
  exact readable_typeExpr m

/-! ## Walking -/

/-- Wherever the action ends it has kept the state sound, and `Q` holds of its result. -/
def Preserves (e : Environment) (ns : Set Node) {α : Type} (act : Resolver α) (Q : α → Prop) :
    Prop :=
  ∀ s, State.Sound e ns s → ∀ a s', act.run s = .ok (a, s') → State.Sound e ns s' ∧ Q a

/-- Nothing is said of the result. -/
abbrev PreservesOnly (e : Environment) (ns : Set Node) {α : Type} (act : Resolver α) : Prop :=
  Preserves e ns act fun _ => True

namespace Preserves

variable {α β : Type} {act : Resolver α} {Q : α → Prop} {T : β → Prop}

theorem pure {a : α} (h : Q a) : Preserves e ns (pure a) Q := by
  intro s hs b s' hr
  cases hr
  exact ⟨hs, h⟩

theorem throw {d : Defect} : Preserves e ns (throw d : Resolver α) Q := by
  intro s hs a s' hr
  cases hr

theorem bind {k : α → Resolver β} (h : Preserves e ns act Q)
    (hk : ∀ a, Q a → Preserves e ns (k a) T) : Preserves e ns (act >>= k) T := by
  intro s hs b s' hr
  obtain ⟨a, mid, ha, hr⟩ := Pass.exists_of_bind hr
  obtain ⟨sound, hq⟩ := h s hs a mid ha
  exact hk a hq mid sound b s' hr

/-- What follows may rely on the state being sound. -/
theorem look {k : State → Resolver α} (h : ∀ s, State.Sound e ns s → Preserves e ns (k s) Q) :
    Preserves e ns (get >>= k) Q :=
  fun s hs a s' hr => h s hs s hs a s' hr

theorem discard (h : Preserves e ns act Q) : PreservesOnly e ns (discard act) := by
  rw [Pass.discard_eq]
  exact .bind h fun _ _ => .pure trivial

theorem mapM {f : α → Resolver β} (xs : List α) (h : ∀ x ∈ xs, Preserves e ns (f x) T) :
    Preserves e ns (xs.mapM f) fun bs => ∀ b ∈ bs, T b := by
  induction xs with
  | nil => exact .pure nofun
  | cons x xs ih =>
    rw [List.mapM_cons]
    refine .bind (h x List.mem_cons_self) fun b hb => ?_
    exact .bind (ih fun y hy => h y (List.mem_cons_of_mem _ hy)) fun bs hbs =>
      .pure (List.forall_mem_cons.2 ⟨hb, hbs⟩)

theorem forM {f : α → Resolver PUnit} (xs : List α) (h : ∀ x ∈ xs, PreservesOnly e ns (f x)) :
    PreservesOnly e ns (xs.forM f) := by
  induction xs with
  | nil => exact .pure trivial
  | cons x xs ih =>
    exact .bind (h x List.mem_cons_self) fun _ _ => ih fun y hy => h y (List.mem_cons_of_mem _ hy)

theorem foldlM {f : β → α → Resolver β} (xs : List α) {b : β} (hb : T b)
    (h : ∀ b, T b → ∀ x ∈ xs, Preserves e ns (f b x) T) : Preserves e ns (xs.foldlM f b) T := by
  induction xs generalizing b with
  | nil => exact .pure hb
  | cons x xs ih =>
    rw [List.foldlM]
    exact .bind (h b hb x List.mem_cons_self) fun c hc => ih hc fun b hb y hy =>
      h b hb y (List.mem_cons_of_mem _ hy)

theorem inScope (h : Preserves e ns act Q) : Preserves e ns (inScope act) Q := by
  intro s hs a s' hr
  rw [run_inScope] at hr
  cases ha : act.run { s with scopes := [] :: s.scopes } with
  | error d => rw [ha] at hr; cases hr
  | ok r =>
    rw [ha] at hr
    cases hr
    have opened : State.Sound e ns { s with scopes := [] :: s.scopes } :=
      ⟨List.forall_mem_cons.2 ⟨fun _ hl => absurd hl List.not_mem_nil, hs.locals⟩, hs.found⟩
    obtain ⟨sound, hq⟩ := h _ opened r.1 r.2 ha
    exact ⟨⟨fun scope hscope => sound.locals scope (List.mem_of_mem_tail hscope), sound.found⟩, hq⟩

theorem declare {name : String} {kind : SymbolKind} {type : Option TypeExpr}
    (hk : kind ∈ ownKinds) (ht : ∀ t, type = some t → t.Readable) :
    PreservesOnly e ns (declare name kind type) := by
  intro s hs v s' hr
  cases hr
  refine ⟨⟨fun scope hscope l hl => ?_, hs.found⟩, trivial⟩
  dsimp only at hscope
  split at hscope
  · cases hscope
  · next first rest hscopes =>
    rcases List.mem_cons.1 hscope with rfl | hscope
    · rcases List.mem_cons.1 hl with rfl | hl
      · exact ⟨hk, ht⟩
      · exact hs.locals first (hscopes ▸ List.mem_cons_self) l hl
    · exact hs.locals scope (hscopes ▸ List.mem_cons_of_mem _ hscope) l hl

theorem record {f : Facts} (hf : Resolution.Sound e ns n.id f) :
    PreservesOnly e ns (record n f) := by
  intro s hs a s' hr
  unfold Resolution.record at hr
  split at hr
  · cases hr
    exact ⟨hs, trivial⟩
  · cases hr
    exact ⟨⟨hs.locals, List.forall_mem_cons.2 ⟨hf, hs.found⟩⟩, trivial⟩

/-- A declaration that is noted at its node. -/
theorem announce {name : String} {kind : SymbolKind} {type noted : Option TypeExpr}
    (hk : kind ∈ ownKinds) (ht : ∀ t, type = some t → t.Readable)
    (hn : ∀ t, noted = some t → t.Readable) : PreservesOnly e ns (do
      let declared ← Resolution.declare name kind type
      Resolution.record n ⟨none, some declared, noted⟩) :=
  .bind (.declare hk ht) fun _ _ => .record ⟨hn, nofun⟩

end Preserves

/-! ## Locals -/

theorem sound_adjust {name : String} {scopes : List Scope} (ht : t.Readable)
    (h : ∀ scope ∈ scopes, ∀ l ∈ scope, l.Sound) :
    ∀ scope ∈ adjust name (Local.settle t) scopes, ∀ l ∈ scope, l.Sound := by
  induction scopes with
  | nil => exact nofun
  | cons first rest ih =>
    obtain ⟨here, there⟩ := List.forall_mem_cons.1 h
    unfold adjust
    split
    · next i _ =>
      refine List.forall_mem_cons.2 ⟨fun l hl => ?_, there⟩
      obtain ⟨j, hj⟩ := List.getElem?_of_mem hl
      rw [List.getElem?_modify] at hj
      obtain ⟨m, hm, rfl⟩ := Option.map_eq_some_iff.1 hj
      have sound := here m (List.mem_of_getElem? hm)
      split
      · refine ⟨sound.kind, fun u hu => ?_⟩
        cases hu
        exact readable_getD sound.type ht
      · exact sound
    · exact List.forall_mem_cons.2 ⟨here, ih there⟩

theorem preserves_refine (target : Node) (ht : t.Readable) :
    PreservesOnly e ns (refine target t) := by
  unfold Resolution.refine
  split
  · intro s hs a s' hr
    cases hr
    exact ⟨⟨sound_adjust ht hs.locals, hs.found⟩, trivial⟩
  · exact .pure trivial

/-- What a name may stand for. -/
theorem State.Sound.named (hs : State.Sound e ns s) {name : String} {v : Symbol}
    (h : named? e s name = some (v, t)) : t.Readable ∧ (OfEnvironment e v ∨ v.kind ∈ ownKinds) := by
  unfold named? at h
  split at h
  · next l found =>
    cases h
    obtain ⟨scope, hscope, hmem⟩ := List.mem_flatten.1 (List.mem_of_find?_eq_some found)
    have sound := hs.locals scope hscope l hmem
    exact ⟨readable_getD sound.type trivial, .inr sound.kind⟩
  · exact ⟨readable_global h, .inl (.inl ⟨name, t, h⟩)⟩

/-- A call takes over a symbol of the environment only. -/
theorem State.Sound.method (hs : State.Sound e ns s) {id : Nat} {v : Symbol}
    (h : ((s.found.lookup id).bind Facts.symbol).filter (·.kind = .method) = some v) :
    OfEnvironment e v := by
  obtain ⟨h, method⟩ := Option.filter_eq_some_iff.1 h
  obtain ⟨f, hf, hv⟩ := Option.bind_eq_some_iff.1 h
  obtain ⟨before, after, split, -⟩ := List.lookup_eq_some_iff.1 hf
  obtain ⟨x, -, -, known⟩ := (hs.found (id, f) (by simp [split])).symbol v hv
  refine known.resolve_right fun ⟨own, _⟩ => ?_
  rw [of_decide_eq_true method] at own
  revert own
  decide

/-! ## All nodes -/

/-- What the walk may tell of an expression. -/
structure Tells (e : Environment) (n : Node) (r : Option Symbol × TypeExpr) : Prop where
  type : r.2.Readable
  symbol : ∀ v, r.1 = some v → Known e n v

theorem tells_type (ht : t.Readable) : Tells e n (none, t) := ⟨ht, nofun⟩

theorem preserves_operand {i : Nat}
    (h : ∀ m, n.node? i = some m → Preserves e ns (expression e m) Readable) :
    Preserves e ns (operand e n i) Readable := by
  rw [operand]
  split
  · next m hm => exact h m hm
  · exact .pure trivial

section

variable (h : ∀ x ∈ n.preorder, x ∈ ns)
  (ih : ∀ m : Node, m.size < n.size → (∀ x ∈ m.preorder, x ∈ ns) →
    PreservesOnly e ns (walk e m) ∧ Preserves e ns (expression e m) Readable)

include h ih

theorem preserves_child {m : Node} (hm : m ∈ n.nodes) :
    PreservesOnly e ns (walk e m) ∧ Preserves e ns (expression e m) Readable :=
  ih m (Node.size_lt_of_mem hm) fun x hx => h x (Node.preorder_subset hm hx)

theorem preserves_walkChildren : PreservesOnly e ns (walkChildren e n) := by
  rw [walkChildren]
  exact .forM _ fun m _ => (preserves_child h ih m.2).1

theorem preserves_meaning : Preserves e ns (meaning e n) (Tells e n) := by
  have operands (i : Nat) : Preserves e ns (operand e n i) Readable :=
    preserves_operand fun m hm => (preserves_child h ih (Node.mem_of_node? hm)).2
  have children {m : Node} (hm : m ∈ n.nodes) := preserves_child h ih hm
  have done {t : TypeExpr} (ht : t.Readable) : Preserves e ns (pure (none, t)) (Tells e n) :=
    .pure (tells_type ht)
  rw [meaning]
  split
  case h_1 => exact done (readable_literalType _)
  case h_2 hk =>
    refine .look fun s hs => ?_
    split
    · next symbol type found =>
      obtain ⟨name, -, found⟩ := Option.bind_eq_some_iff.1 found
      obtain ⟨readable, known⟩ := hs.named found
      refine .pure ⟨readable, fun v hv => ?_⟩
      cases hv
      exact known.imp_right fun own => ⟨own, hk⟩
    · exact done trivial
  case h_3 => exact done trivial
  case h_4 | h_5 => exact .bind (operands 0) fun _ ht => done ht
  case h_6 =>
    exact .bind (operands 0) fun _ hl => .bind (operands 1) fun _ hr =>
      done (readable_binaryType _ hl hr)
  case h_7 => exact .bind (operands 0) fun _ ht => done (readable_unaryType _ ht)
  case h_8 =>
    refine .bind (operands 1) fun value hv => ?_
    split
    · exact .bind (preserves_refine _ hv) fun _ _ => .bind (operands 0) fun _ ht => done ht
    · exact .bind (operands 0) fun _ ht => done ht
  case h_9 =>
    refine .bind (.discard (operands 0)) fun _ _ => .bind (operands 1) fun _ ht =>
      .bind (operands 2) fun _ _ => done ?_
    split
    · exact trivial
    · exact ht
  case h_10 =>
    split
    · exact done trivial
    · next callee arguments hn =>
      refine .bind (children (hn ▸ List.mem_cons_self)).2 fun returns hreturns => ?_
      refine .bind (.forM _ fun m _ => ?_) fun _ _ => .look fun s hs => .pure ⟨?_, fun v hv => ?_⟩
      · exact .discard (children (hn ▸ List.mem_cons_of_mem _ m.2)).2
      · dsimp only
        split
        · exact hreturns
        · exact trivial
      · exact .inl (hs.method hv)
  case h_11 =>
    refine .bind (operands 0) fun receiver _ => ?_
    split
    · exact done trivial
    split
    · next symbol type found =>
      obtain ⟨name, -, found⟩ := Option.bind_eq_some_iff.1 found
      refine .pure ⟨readable_member found, fun v hv => ?_⟩
      cases hv
      exact .inl (.inr ⟨receiver, name, type, found⟩)
    · exact done trivial
  case h_12 =>
    exact .bind (operands 0) fun _ ht => .bind (.discard (operands 1)) fun _ _ =>
      done (readable_indexedType ht)
  case h_13 =>
    exact .bind (.discard (operands 1)) fun _ _ =>
      done (readable_getD (fun _ ht => readable_written ht) trivial)
  case h_14 =>
    refine .bind (.mapM _ fun m _ => (children m.2).2) fun types htypes => done ?_
    cases types with
    | nil => exact trivial
    | cons first rest => exact htypes first List.mem_cons_self
  case h_15 =>
    refine .bind (.inScope (.forM _ fun m _ => ?_)) fun _ _ => done trivial
    dsimp only
    split
    · split
      · exact .announce (by decide) readable_none readable_none
      · exact .pure trivial
    · exact (children m.2).1
  case h_16 => exact .bind (operands 0) fun _ ht => done ht.awaited
  case h_17 =>
    have clause {c : Node} (hc : c ∈ n.nodes.tail) : Preserves e ns (operand e c 0) Readable := by
      have inside := List.mem_of_mem_tail hc
      refine preserves_operand fun m hm => (ih m ?_ fun x hx => h x ?_).2
      · exact Nat.lt_trans (Node.size_lt_of_mem (Node.mem_of_node? hm)) (Node.size_lt_of_mem inside)
      · exact Node.preorder_subset inside (Node.preorder_subset (Node.mem_of_node? hm) hx)
    have selected : Preserves e ns (n.nodes.tail.attach.foldlM (fun selected clause => do
        let type ← operand e clause.1 0
        return if clause.1.kind = .selectClause then type else selected) .object) Readable := by
      refine .foldlM _ trivial fun b hb c _ => .bind (clause c.2) fun t ht => .pure ?_
      split
      · exact ht
      · exact hb
    refine .bind (operands 0) fun source hsource => .inScope ?_
    split
    · refine .bind (.discard (.declare (by decide) fun t ht => ?_)) fun _ _ =>
        .bind selected fun t ht => done ht
      cases ht
      exact readable_getD (fun _ hu => hsource.element? hu) trivial
    · exact .bind selected fun t ht => done ht
  case h_18 => exact .throw

theorem preserves_expression : Preserves e ns (expression e n) Readable := by
  rw [expression]
  refine .bind (preserves_meaning h ih) fun r tells => ?_
  refine .bind (.record ⟨fun t ht => ?_, fun v hv => ?_⟩) fun _ _ => .pure tells.type
  · cases ht
    exact tells.type
  · exact ⟨n, h n n.mem_preorder_self, rfl, tells.symbol v hv⟩

theorem preserves_walk : PreservesOnly e ns (walk e n) := by
  have children : PreservesOnly e ns (walkChildren e n) := preserves_walkChildren h ih
  have readable {t : TypeExpr} (ht : t.Readable) : ∀ u, some t = some u → u.Readable :=
    fun u hu => Option.some.inj hu ▸ ht
  rw [walk]
  split
  case h_1 | h_2 =>
    split
    · have own : (if n.kind = .template then SymbolKind.template else .localVar) ∈ ownKinds := by
        split <;> decide
      rw [← bind_assoc]
      exact .bind (.announce own (readable trivial) readable_none) fun _ _ => .inScope children
    · exact .inScope children
  case h_3 =>
    have type : ((writtenType? n).getD .object).Readable :=
      readable_getD (fun _ ht => readable_written ht) trivial
    split
    · exact .announce (by decide) (readable type) (readable type)
    · exact .pure trivial
  case h_4 | h_5 | h_6 => exact .inScope children
  case h_7 =>
    dsimp only
    split
    · next value hv =>
      rw [← bind_pure_comp, bind_assoc]
      refine .bind (preserves_child h ih (Node.mem_of_node? hv)).2 fun t ht => ?_
      rw [pure_bind]
      split
      · exact .announce (by decide) (readable ht) (readable ht)
      · exact .pure trivial
    · split
      · exact .announce (by decide) readable_none readable_none
      · exact .pure trivial
  case h_8 =>
    refine .bind (preserves_operand fun m hm => (preserves_child h ih (Node.mem_of_node? hm)).2)
      fun source hsource => .inScope ?_
    have item := readable (readable_iteratedType hsource)
    have body {m : Node} (hm : n.node? 1 = some m) : PreservesOnly e ns (walk e m) :=
      (preserves_child h ih (Node.mem_of_node? hm)).1
    dsimp only
    split
    · rw [← bind_assoc]
      refine .bind (.announce (by decide) item item) fun _ _ => ?_
      split
      · next hb => exact body hb
      · exact .pure trivial
    · split
      · next hb => exact body hb
      · exact .pure trivial
  case h_9 =>
    split
    · exact .discard (preserves_expression h ih)
    · exact children

end

/-- Every walk records sound facts only. -/
theorem preserves_all (n : Node) (h : ∀ x ∈ n.preorder, x ∈ ns) :
    PreservesOnly e ns (walk e n) ∧ Preserves e ns (expression e n) Readable :=
  have ih (m : Node) (_ : m.size < n.size) (hm : ∀ x ∈ m.preorder, x ∈ ns) := preserves_all m hm
  ⟨preserves_walk h ih, preserves_expression h ih⟩
termination_by n.size

end Stencil.Resolution

namespace Stencil

open Resolution

/-- What is found out about the nodes of a tree is sound. -/
theorem sound_of_resolve {e : Environment} {n : Node} {f : Findings} (h : e.resolve n = .ok f) :
    ∀ entry ∈ f, Resolution.Sound e { x | x ∈ n.preorder } entry.1 entry.2 := by
  unfold Environment.resolve at h
  cases hw : (walk e n).run (.initial e) with
  | error d => rw [hw] at h; cases h
  | ok r =>
    rw [hw] at h
    cases h
    have initial : State.Sound e { x | x ∈ n.preorder } (.initial e) := by
      refine ⟨fun scope hscope l hl => ?_, fun entry he => absurd he List.not_mem_nil⟩
      rw [List.mem_singleton.1 hscope] at hl
      cases hl
    exact ((preserves_all n fun x hx => hx).1 _ initial r.1 r.2 hw).1.found

/-- The facts about a node are those of some entry, or none. -/
theorem sound_of_findings {e : Environment} {n : Node} {f : Findings} (h : e.resolve n = .ok f)
    (id : Nat) : Resolution.Sound e { x | x ∈ n.preorder } id (f.of id) := by
  rw [Findings.of]
  cases hl : f.lookup id with
  | none => exact ⟨nofun, nofun⟩
  | some facts =>
    obtain ⟨before, after, split, -⟩ := List.lookup_eq_some_iff.1 hl
    exact sound_of_resolve h (id, facts) (by simp [split])

end Stencil
