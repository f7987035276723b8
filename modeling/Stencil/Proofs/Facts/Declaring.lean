import Mathlib.Data.List.Perm.Subperm
import Mathlib.Data.Set.Basic
import Stencil.Facts.Resolution
import Stencil.Proofs.Stopping

/-!
# What resolution declares and finds

A walk adds to what was found, hands out numbers in order, and restores the scopes that it opens.
The symbols that it declares have numbers between the next one before and the next one after; a
local that a name refers to was declared in a scope that is open, or is a global of the environment.
So two walks one after the other, of which the first leaves no locals in scope, never speak of the
same local of a template.

Results:

* `Environment.lt_firstFreeId` – the numbers of globals are below those that are handed out;
* `Adds` – what a stretch of the walk does;
* `walks` – all walks do so;
* `adds_template` – a template leaves its name in scope, and no local;
* `found_append` – what is found in a file that goes on.
-/
namespace Stencil

/-- Globals that a template can name have numbers of their own: each stands in the table once, and a
name in a template has no dot in it, as keys of members have. -/
theorem Environment.lt_firstFreeId {e : Environment} {name : String} (hn : '.' ∉ name.toList)
    {id : Nat} (hid : e.symbolId? name = some id) : id < e.firstFreeId := by
  have listed : e.keys[id]? = some name := by
    obtain ⟨before, after, split, -⟩ := List.lookup_eq_some_iff.1 hid
    have mem : (name, id) ∈ e.keys.zipIdx := List.mem_reverse.1 (by simp [split])
    exact List.mem_zipIdx_iff_getElem?.1 mem
  have global : id < e.globals.names.length := by
    by_contra hle
    rw [keys, List.getElem?_append_right (Nat.le_of_not_lt hle)] at listed
    obtain ⟨⟨owner, members⟩, -, hmem⟩ := List.mem_flatMap.1 (List.mem_of_getElem? listed)
    obtain ⟨m, -, rfl⟩ := List.mem_map.1 hmem
    simp at hn
  refine Nat.lt_of_lt_of_le global ?_
  refine (List.subperm_of_subset e.sortedGlobals.nodup fun x hx => ?_).length_le
  rw [List.mem_eraseDups, keys]
  exact List.mem_append_left _ hx

namespace Resolution

/-- The symbols of the open scopes. -/
def State.symbols (s : State) : List (List Symbol) := s.scopes.map (·.map Local.symbol)

/-- The template declares the symbol, with a number between `lo` and `hi`. -/
structure Declared (lo hi : Nat) (v : Symbol) : Prop where
  container : v.container = none
  low : lo ≤ v.id
  high : v.id < hi

/-- The facts speak of locals that the environment has, or that were declared with a number between
`lo` and `hi`. -/
structure Speaks (e : Environment) (lo hi : Nat) (f : Facts) : Prop where
  declared : ∀ v, f.declared = some v → Declared lo hi v
  symbol : ∀ v, f.symbol = some v → v.isLocal →
    Declared lo hi v ∨ v.container ≠ none ∨ v.id < e.firstFreeId

/-- All locals in scope were declared with a number from `lo` on. -/
structure State.Bounded (lo : Nat) (s : State) : Prop where
  low : lo ≤ s.next
  locals : ∀ scope ∈ s.symbols, ∀ v ∈ scope, v.isLocal → Declared lo s.next v

/-- From `s` to `s'` the walk found facts about nodes with numbers in `ids`, and left all scopes but
the innermost as they were. -/
structure Adds (e : Environment) (lo : Nat) (ids : Set Nat) (s s' : State) : Prop where
  bounded : s'.Bounded lo
  next : s.next ≤ s'.next
  found : ∃ more, s'.found = more ++ s.found ∧
    ∀ entry ∈ more, entry.1 ∈ ids ∧ Speaks e lo s'.next entry.2
  outer : s'.symbols.tail = s.symbols.tail

variable {e : Environment} {lo hi hi' : Nat} {ids : Set Nat} {s mid s' : State}

theorem Declared.mono {v : Symbol} (h : Declared lo hi v) (hle : hi ≤ hi') : Declared lo hi' v :=
  ⟨h.container, h.low, Nat.lt_of_lt_of_le h.high hle⟩

theorem Speaks.mono {f : Facts} (h : Speaks e lo hi f) (hle : hi ≤ hi') : Speaks e lo hi' f :=
  ⟨fun v hv => (h.declared v hv).mono hle,
    fun v hv hl => (h.symbol v hv hl).imp (·.mono hle) id⟩

namespace Adds

theorem refl (h : s.Bounded lo) : Adds e lo ids s s :=
  ⟨h, Nat.le_refl _, ⟨[], rfl, fun _ hm => absurd hm List.not_mem_nil⟩, rfl⟩

theorem trans (h : Adds e lo ids s mid) (h' : Adds e lo ids mid s') : Adds e lo ids s s' := by
  obtain ⟨more, hmore, first⟩ := h.found
  obtain ⟨more', hmore', second⟩ := h'.found
  refine ⟨h'.bounded, Nat.le_trans h.next h'.next,
    ⟨more' ++ more, by rw [hmore', hmore, List.append_assoc], fun entry he => ?_⟩,
    h'.outer.trans h.outer⟩
  rcases List.mem_append.1 he with he | he
  · exact second entry he
  · exact ⟨(first entry he).1, (first entry he).2.mono h'.next⟩

end Adds

/-! ## Walking -/

/-- Wherever the action ends it walked as `Adds` says, and `Q` holds of the next number and of its
result. -/
def Walks (e : Environment) (lo : Nat) (ids : Set Nat) {α : Type} (act : Resolver α)
    (Q : Nat → α → Prop) : Prop :=
  ∀ s, s.Bounded lo → ∀ a s', act.run s = .ok (a, s') → Adds e lo ids s s' ∧ Q s'.next a

/-- Nothing is said of the result. -/
abbrev Plain (e : Environment) (lo : Nat) (ids : Set Nat) {α : Type} (act : Resolver α) : Prop :=
  Walks e lo ids act fun _ _ => True

namespace Walks

variable {α β : Type} {act : Resolver α} {Q : Nat → α → Prop} {T : Nat → β → Prop}

theorem pure {a : α} (h : ∀ next, Q next a) : Walks e lo ids (pure a) Q := by
  intro s hs b s' hr
  cases hr
  exact ⟨.refl hs, h _⟩

theorem throw {d : Defect} : Walks e lo ids (throw d : Resolver α) Q := by
  intro s hs a s' hr
  cases hr

theorem bind {k : α → Resolver β} (h : Plain e lo ids act) (hk : ∀ a, Walks e lo ids (k a) T) :
    Walks e lo ids (act >>= k) T := by
  intro s hs b s' hr
  obtain ⟨a, mid, ha, hr⟩ := Pass.exists_of_bind hr
  obtain ⟨first, -⟩ := h s hs a mid ha
  obtain ⟨second, hb⟩ := hk a mid first.bounded b s' hr
  exact ⟨first.trans second, hb⟩

/-- A look at the state. -/
theorem look {k : State → Resolver α}
    (h : ∀ s : State, s.Bounded lo → ∃ a, k s = Pure.pure a ∧ Q s.next a) :
    Walks e lo ids (get >>= k) Q := by
  intro s hs b s' hr
  obtain ⟨a, ha, hq⟩ := h s hs
  have hr : (k s).run s = .ok (b, s') := hr
  rw [ha] at hr
  cases hr
  exact ⟨.refl hs, hq⟩

theorem map (f : α → β) (h : Plain e lo ids act) : Plain e lo ids (f <$> act) := by
  rw [← bind_pure_comp]
  exact .bind h fun _ => .pure fun _ => trivial

theorem discard (h : Plain e lo ids act) : Plain e lo ids (discard act) := by
  rw [Pass.discard_eq]
  exact .bind h fun _ => .pure fun _ => trivial

theorem mapM {f : α → Resolver β} (xs : List α) (h : ∀ x ∈ xs, Plain e lo ids (f x)) :
    Plain e lo ids (xs.mapM f) := by
  induction xs with
  | nil => exact .pure fun _ => trivial
  | cons x xs ih =>
    rw [List.mapM_cons]
    refine .bind (h x List.mem_cons_self) fun b => ?_
    exact .bind (ih fun y hy => h y (List.mem_cons_of_mem _ hy)) fun bs => .pure fun _ => trivial

theorem forM {f : α → Resolver PUnit} (xs : List α) (h : ∀ x ∈ xs, Plain e lo ids (f x)) :
    Plain e lo ids (xs.forM f) := by
  induction xs with
  | nil => exact .pure fun _ => trivial
  | cons x xs ih =>
    exact .bind (h x List.mem_cons_self) fun _ => ih fun y hy => h y (List.mem_cons_of_mem _ hy)

theorem foldlM {f : β → α → Resolver β} (xs : List α) (b : β)
    (h : ∀ b, ∀ x ∈ xs, Plain e lo ids (f b x)) : Plain e lo ids (xs.foldlM f b) := by
  induction xs generalizing b with
  | nil => exact .pure fun _ => trivial
  | cons x xs ih =>
    rw [List.foldlM]
    exact .bind (h b x List.mem_cons_self) fun c => ih c fun b y hy =>
      h b y (List.mem_cons_of_mem _ hy)

end Walks

/-! ## Scopes -/

/-- A walk in a scope of its own is the walk with a scope opened before and closed after it. -/
theorem run_inScope {α : Type} (act : Resolver α) (s : State) :
    (inScope act).run s = (act.run { s with scopes := [] :: s.scopes }).map fun r =>
      (r.1, { r.2 with scopes := r.2.scopes.tail }) := by
  unfold inScope
  rw [StateT.run_bind]
  change ((act >>= fun a => do
    modify fun s : State => { s with scopes := s.scopes.tail }
    return a).run { s with scopes := [] :: s.scopes }) = _
  rw [StateT.run_bind]
  cases act.run { s with scopes := [] :: s.scopes } <;> rfl

/-- A scope of its own leaves no symbol behind. -/
theorem symbols_inScope {α : Type} {act : Resolver α} {Q : Nat → α → Prop}
    (h : Walks e lo ids act Q) (hs : s.Bounded lo) {a : α}
    (hr : (inScope act).run s = .ok (a, s')) :
    Adds e lo ids s s' ∧ s'.symbols = s.symbols ∧ Q s'.next a := by
  let opened : State := { s with scopes := [] :: s.scopes }
  have bounded : opened.Bounded lo :=
    ⟨hs.low, List.forall_mem_cons.2 ⟨fun _ hv => absurd hv List.not_mem_nil, hs.locals⟩⟩
  rw [run_inScope] at hr
  cases ha : act.run opened with
  | error d => rw [ha] at hr; cases hr
  | ok r =>
    rw [ha] at hr
    cases hr
    obtain ⟨adds, hq⟩ := h opened bounded r.1 r.2 ha
    have same : State.symbols { r.2 with scopes := r.2.scopes.tail } = s.symbols := by
      rw [State.symbols, List.map_tail]
      exact adds.outer
    have closed : State.Bounded lo { r.2 with scopes := r.2.scopes.tail } := by
      refine ⟨adds.bounded.low, fun scope hscope => adds.bounded.locals scope ?_⟩
      rw [State.symbols, List.map_tail] at hscope
      exact List.mem_of_mem_tail hscope
    exact ⟨⟨closed, adds.next, adds.found, congrArg List.tail same⟩, same, hq⟩

theorem walks_inScope {α : Type} {act : Resolver α} {Q : Nat → α → Prop}
    (h : Walks e lo ids act Q) : Walks e lo ids (inScope act) Q := by
  intro s hs a s' hr
  obtain ⟨adds, -, hq⟩ := symbols_inScope h hs hr
  exact ⟨adds, hq⟩

theorem adds_record {n : Node} {f : Facts} (hs : s.Bounded lo) (hn : n.id ∈ ids)
    (hf : Speaks e lo s.next f) {a : PUnit} (hr : (record n f).run s = .ok (a, s')) :
    Adds e lo ids s s' ∧ s'.symbols = s.symbols := by
  unfold Resolution.record at hr
  split at hr
  · cases hr
    exact ⟨.refl hs, rfl⟩
  · cases hr
    exact ⟨⟨⟨hs.low, hs.locals⟩, Nat.le_refl _,
      ⟨[(n.id, f)], rfl, by simpa using ⟨hn, hf⟩⟩, rfl⟩, rfl⟩

/-- What a declaration does to the symbols in scope. -/
def pushed (v : Symbol) : List (List Symbol) → List (List Symbol)
  | [] => []
  | scope :: rest => (v :: scope) :: rest

theorem run_declare (name : String) (kind : SymbolKind) (type : Option TypeExpr) (s : State) :
    ∃ s', (declare name kind type).run s = .ok (⟨s.next, name, kind, none, none⟩, s') ∧
      s'.next = s.next + 1 ∧ s'.found = s.found ∧
      s'.symbols = pushed ⟨s.next, name, kind, none, none⟩ s.symbols := by
  refine ⟨_, rfl, rfl, rfl, ?_⟩
  unfold State.symbols
  cases s.scopes <;> rfl

theorem mem_of_mem_pushed {v : Symbol} {scopes : List (List Symbol)} {scope : List Symbol}
    (h : scope ∈ pushed v scopes) {w : Symbol} (hw : w ∈ scope) :
    w = v ∨ ∃ scope ∈ scopes, w ∈ scope := by
  cases scopes with
  | nil => cases h
  | cons first rest =>
    rcases List.mem_cons.1 h with rfl | h
    · exact (List.mem_cons.1 hw).imp id fun hw => ⟨first, List.mem_cons_self, hw⟩
    · exact .inr ⟨scope, List.mem_cons_of_mem _ h, hw⟩

theorem adds_declare (e : Environment) (ids : Set Nat) (name : String) (kind : SymbolKind)
    (type : Option TypeExpr) (hs : s.Bounded lo) : ∃ s',
      (declare name kind type).run s = .ok (⟨s.next, name, kind, none, none⟩, s') ∧
      Adds e lo ids s s' ∧ Declared lo s'.next ⟨s.next, name, kind, none, none⟩ ∧
      s'.symbols = pushed ⟨s.next, name, kind, none, none⟩ s.symbols := by
  obtain ⟨s', hr, next, found, symbols⟩ := run_declare name kind type s
  have own : Declared lo s'.next ⟨s.next, name, kind, none, none⟩ :=
    ⟨rfl, hs.low, by rw [next]; exact Nat.lt_succ_self _⟩
  refine ⟨s', hr, ⟨⟨by rw [next]; exact Nat.le_succ_of_le hs.low, ?_⟩,
    by rw [next]; exact Nat.le_succ _, ⟨[], found, fun _ hm => absurd hm List.not_mem_nil⟩, ?_⟩,
    own, symbols⟩
  · intro scope hscope v hv hl
    rw [symbols] at hscope
    rcases mem_of_mem_pushed hscope hv with rfl | ⟨scope, hscope, hv⟩
    · exact own
    · exact (hs.locals scope hscope v hv hl).mono (by rw [next]; exact Nat.le_succ _)
  · rw [symbols]
    cases s.symbols <;> rfl

theorem walks_declare (name : String) (kind : SymbolKind) (type : Option TypeExpr) :
    Plain e lo ids (declare name kind type) := by
  intro s hs a s' hr
  obtain ⟨s'', hr', adds, -⟩ := adds_declare e ids name kind type hs
  cases hr.symm.trans hr'
  exact ⟨adds, trivial⟩

/-- A declaration that is noted at its node. -/
theorem adds_announce {n : Node} (hn : n.id ∈ ids) (name : String) (kind : SymbolKind)
    (type noted : Option TypeExpr) (hs : s.Bounded lo) {a : PUnit}
    (hr : (do
      let declared ← Resolution.declare name kind type
      Resolution.record n ⟨none, some declared, noted⟩).run s = .ok (a, s')) :
    Adds e lo ids s s' ∧ s'.symbols = pushed ⟨s.next, name, kind, none, none⟩ s.symbols := by
  obtain ⟨mid, hd, first, own, symbols⟩ := adds_declare e ids name kind type hs
  rw [StateT.run_bind, hd] at hr
  have speaks : Speaks e lo mid.next
      ⟨none, some ⟨s.next, name, kind, none, none⟩, noted⟩ :=
    ⟨fun v hv => by cases hv; exact own, fun v hv => by cases hv⟩
  obtain ⟨second, same⟩ := adds_record first.bounded hn speaks hr
  exact ⟨first.trans second, same.trans symbols⟩

theorem walks_announce {n : Node} (hn : n.id ∈ ids) (name : String) (kind : SymbolKind)
    (type noted : Option TypeExpr) : Plain e lo ids (do
      let declared ← Resolution.declare name kind type
      Resolution.record n ⟨none, some declared, noted⟩) :=
  fun _ hs _ _ hr => ⟨(adds_announce hn name kind type noted hs hr).1, trivial⟩

theorem Walks.announce {α : Type} {n : Node} {Q : Nat → α → Prop} {k : PUnit → Resolver α}
    (hn : n.id ∈ ids) (name : String) (kind : SymbolKind) (type noted : Option TypeExpr)
    (hk : Walks e lo ids (k ⟨⟩) Q) : Walks e lo ids (do
      let declared ← Resolution.declare name kind type
      Resolution.record n ⟨none, some declared, noted⟩ >>= k) Q := by
  rw [← bind_assoc]
  exact .bind (walks_announce hn name kind type noted) fun _ => hk

/-! ## Types of locals -/

/-- Giving a local its type leaves the symbols in scope. -/
theorem symbols_adjust (name : String) (t : TypeExpr) (scopes : List Scope) :
    (adjust name (Local.settle t) scopes).map (·.map Local.symbol) =
      scopes.map (·.map Local.symbol) := by
  induction scopes with
  | nil => rfl
  | cons scope rest ih =>
    unfold adjust
    split
    · next i _ =>
      rw [List.map_cons, List.map_cons]
      congr 1
      refine List.ext_getElem? fun j => ?_
      simp only [List.getElem?_map, List.getElem?_modify]
      cases scope[j]? with
      | none => rfl
      | some l => simp only [Option.map_some]; split <;> rfl
    · rw [List.map_cons, List.map_cons, ih]

theorem walks_refine (target : Node) (value : TypeExpr) :
    Plain e lo ids (refine target value) := by
  unfold Resolution.refine
  split
  · next name _ _ =>
    intro s hs a s' hr
    cases hr
    have same : State.symbols { s with scopes := adjust name (Local.settle value) s.scopes } =
        s.symbols := symbols_adjust name value s.scopes
    refine ⟨⟨⟨hs.low, ?_⟩, Nat.le_refl _, ⟨[], rfl, fun _ hm => absurd hm List.not_mem_nil⟩,
      congrArg List.tail same⟩, trivial⟩
    rw [same]
    exact hs.locals
  · exact .pure fun _ => trivial

/-! ## Names -/

/-- What a reference may refer to, if it is a local: one that was declared, or one of the
environment. -/
def Refers (e : Environment) (lo next : Nat) (v : Symbol) : Prop :=
  v.isLocal → Declared lo next v ∨ v.container ≠ none ∨ v.id < e.firstFreeId

theorem State.Bounded.refers {v : Symbol} {t : TypeExpr} {name : String} (hs : s.Bounded lo)
    (hn : '.' ∉ name.toList) (h : named? e s name = some (v, t)) :
    Refers e lo s.next v := by
  intro hl
  unfold named? at h
  split at h
  · next l found =>
    cases h
    obtain ⟨scope, hscope, hmem⟩ := List.mem_flatten.1 (List.mem_of_find?_eq_some found)
    exact .inl (hs.locals _ (List.mem_map_of_mem hscope) _ (List.mem_map_of_mem hmem) hl)
  · obtain ⟨m, -, h⟩ := Option.bind_eq_some_iff.1 h
    obtain ⟨id, hid, h⟩ := Option.bind_eq_some_iff.1 h
    cases h
    exact .inr (.inr (Environment.lt_firstFreeId hn hid))

theorem refers_member {receiver type : TypeExpr} {name : String} {v : Symbol}
    (h : e.memberSymbol? receiver name = some (v, type)) (next : Nat) : Refers e lo next v := by
  intro _
  obtain ⟨⟨owner, m⟩, -, h⟩ := Option.bind_eq_some_iff.1 h
  obtain ⟨id, -, h⟩ := Option.bind_eq_some_iff.1 h
  cases h
  exact .inr (.inl (Option.some_ne_none _))

/-- Numbers from `ids` and names without a dot, on the node and all below it. -/
structure Named (ids : Set Nat) (n : Node) : Prop where
  id : ∀ m ∈ n.preorder, m.id ∈ ids
  name : ∀ m ∈ n.preorder, ∀ name, m.name? = some name → '.' ∉ name.toList

theorem Named.child {n m : Node} (h : Named ids n) (hm : m ∈ n.nodes) : Named ids m :=
  ⟨fun x hx => h.id x (Node.preorder_subset hm hx),
    fun x hx => h.name x (Node.preorder_subset hm hx)⟩

/-! ## All nodes -/

/-- What an expression refers to. -/
def Means (e : Environment) (lo next : Nat) (r : Option Symbol × TypeExpr) : Prop :=
  ∀ v, r.1 = some v → Refers e lo next v

theorem walks_nothing {next : Nat} {t : TypeExpr} : Means e lo next (none, t) := by
  intro v hv
  cases hv

theorem walks_operand {n : Node} {i : Nat}
    (h : ∀ m, n.node? i = some m → Plain e lo ids (expression e m)) :
    Plain e lo ids (operand e n i) := by
  rw [operand]
  split
  · next m hm => exact h m hm
  · exact .pure fun _ => trivial

section

variable {n : Node} (h : Named ids n)
  (ih : ∀ m : Node, m.size < n.size → Named ids m →
    Plain e lo ids (walk e m) ∧ Plain e lo ids (expression e m))

include h ih

theorem walks_child {m : Node} (hm : m ∈ n.nodes) :
    Plain e lo ids (walk e m) ∧ Plain e lo ids (expression e m) :=
  ih m (Node.size_lt_of_mem hm) (h.child hm)

theorem walks_walkChildren : Plain e lo ids (walkChildren e n) := by
  rw [walkChildren]
  exact .forM _ fun m _ => (walks_child h ih m.2).1


theorem walks_meaning : Walks e lo ids (meaning e n) (Means e lo) := by
  have operands (i : Nat) : Plain e lo ids (operand e n i) :=
    walks_operand fun m hm => (walks_child h ih (Node.mem_of_node? hm)).2
  have children {m : Node} (hm : m ∈ n.nodes) := walks_child h ih hm
  have done {t : TypeExpr} : Walks e lo ids (pure (none, t)) (Means e lo) :=
    .pure fun _ => walks_nothing
  rw [meaning]
  split
  case h_1 => exact done
  case h_2 =>
    refine .look fun s hs => ?_
    split
    · next symbol type found =>
      obtain ⟨name, hname, found⟩ := Option.bind_eq_some_iff.1 found
      have refers := hs.refers (h.name n n.mem_preorder_self name hname) found
      exact ⟨_, rfl, fun v hv => by cases hv; exact refers⟩
    · exact ⟨_, rfl, walks_nothing⟩
  case h_3 => exact done
  case h_4 | h_5 | h_7 | h_16 => exact .bind (operands 0) fun _ => done
  case h_6 => exact .bind (operands 0) fun _ => .bind (operands 1) fun _ => done
  case h_8 =>
    refine .bind (operands 1) fun value => ?_
    split
    · exact .bind (walks_refine _ _) fun _ => .bind (operands 0) fun _ => done
    · exact .bind (operands 0) fun _ => done
  case h_9 =>
    exact .bind (.discard (operands 0)) fun _ => .bind (operands 1) fun _ =>
      .bind (operands 2) fun _ => done
  case h_10 =>
    split
    · exact done
    · next callee arguments hn =>
      refine .bind (children (hn ▸ List.mem_cons_self)).2 fun returns => ?_
      refine .bind (.forM _ fun m _ => ?_) fun _ => .look fun s _ => ?_
      · exact .discard (children (hn ▸ List.mem_cons_of_mem _ m.2)).2
      · refine ⟨_, rfl, fun v hv hl => ?_⟩
        obtain ⟨-, method⟩ := Option.filter_eq_some_iff.1 hv
        rw [decide_eq_true_eq] at method
        rw [Symbol.isLocal, method] at hl
        cases hl
  case h_11 =>
    refine .bind (operands 0) fun receiver => ?_
    split
    · exact done
    · split
      · next symbol type found =>
        obtain ⟨name, -, found⟩ := Option.bind_eq_some_iff.1 found
        exact .pure fun next v hv => by cases hv; exact refers_member found next
      · exact done
  case h_12 => exact .bind (operands 0) fun _ => .bind (.discard (operands 1)) fun _ => done
  case h_13 => exact .bind (.discard (operands 1)) fun _ => done
  case h_14 => exact .bind (.mapM _ fun m _ => (children m.2).2) fun _ => done
  case h_15 =>
    refine .bind (walks_inScope (.forM _ fun m _ => ?_)) fun _ => done
    dsimp only
    split
    · split
      · have hm := Node.mem_preorder_of_mem_nodes n.mem_preorder_self m.2
        exact walks_announce (h.id _ hm) _ _ _ _
      · exact .pure fun _ => trivial
    · exact (children m.2).1
  case h_17 =>
    have clause {c : Node} (hc : c ∈ n.nodes.tail) : Plain e lo ids (operand e c 0) := by
      have inside := List.mem_of_mem_tail hc
      refine walks_operand fun m hm => (ih m ?_ ((h.child inside).child (Node.mem_of_node? hm))).2
      exact Nat.lt_trans (Node.size_lt_of_mem (Node.mem_of_node? hm)) (Node.size_lt_of_mem inside)
    refine .bind (operands 0) fun source => walks_inScope ?_
    split
    · refine .bind (.discard (walks_declare _ _ _)) fun _ => .bind (.foldlM _ _ ?_) fun _ => done
      exact fun b c _ => .bind (clause c.2) fun _ => .pure fun _ => trivial
    · refine .bind (.foldlM _ _ ?_) fun _ => done
      exact fun b c _ => .bind (clause c.2) fun _ => .pure fun _ => trivial
  case h_18 => exact .throw

theorem walks_expression : Plain e lo ids (expression e n) := by
  rw [expression]
  intro s hs a s' hr
  obtain ⟨r, mid, hm, hr⟩ := Pass.exists_of_bind hr
  obtain ⟨first, means⟩ := walks_meaning h ih s hs r mid hm
  obtain ⟨b, s'', hrec, hr⟩ := Pass.exists_of_bind hr
  cases hr
  have speaks : Speaks e lo mid.next ⟨r.1, none, some r.2⟩ :=
    ⟨fun v hv => (by cases hv), fun v hv => means v hv⟩
  obtain ⟨second, -⟩ := adds_record first.bounded (h.id n n.mem_preorder_self) speaks hrec
  exact ⟨first.trans second, trivial⟩

theorem walks_walk : Plain e lo ids (walk e n) := by
  have children : Plain e lo ids (walkChildren e n) := walks_walkChildren h ih
  have here := h.id n n.mem_preorder_self
  rw [walk]
  split
  case h_1 | h_2 =>
    split
    · exact .announce here _ _ _ _ (walks_inScope children)
    · exact walks_inScope children
  case h_3 =>
    split
    · exact walks_announce here _ _ _ _
    · exact .pure fun _ => trivial
  case h_4 | h_5 | h_6 => exact walks_inScope children
  case h_7 =>
    dsimp only
    split
    case' h_1 value hv =>
      refine .bind (.map _ (walks_child h ih (Node.mem_of_node? hv)).2) fun type => ?_
    case' h_2 => refine .bind (.pure fun _ => trivial) fun type => ?_
    all_goals
      split
      · exact walks_announce here _ _ _ _
      · exact .pure fun _ => trivial
  case h_8 =>
    refine .bind (walks_operand fun m hm => (walks_child h ih (Node.mem_of_node? hm)).2) fun _ =>
      walks_inScope ?_
    dsimp only
    split
    case' h_1 => refine .announce here _ _ _ _ ?_
    all_goals
      split
      · next hb => exact (walks_child h ih (Node.mem_of_node? hb)).1
      · exact .pure fun _ => trivial
  case h_9 =>
    split
    · exact .discard (walks_expression h ih)
    · exact children

end

/-- Every walk adds to what was found, and leaves no scope open. -/
theorem walks (n : Node) (h : Named ids n) :
    Plain e lo ids (walk e n) ∧ Plain e lo ids (expression e n) :=
  have ih (m : Node) (_ : m.size < n.size) (hm : Named ids m) := walks m hm
  ⟨walks_walk h ih, walks_expression h ih⟩
termination_by n.size

/-! ## Templates one after another -/

/-- No local is in scope. -/
def State.Sealed (s : State) : Prop := ∀ scope ∈ s.symbols, ∀ v ∈ scope, ¬v.isLocal

/-- A template leaves in scope what was there and its own name. -/
theorem adds_template {n : Node} (hk : n.kind = .template)
    (h : Named ids n) (hs : s.Bounded lo) (closed : s.Sealed) {a : PUnit}
    (hr : (walk e n).run s = .ok (a, s')) : Adds e lo ids s s' ∧ s'.Sealed := by
  have children : Plain e lo ids (walkChildren e n) :=
    walks_walkChildren h fun m _ hm => walks m hm
  rw [walk] at hr
  simp only [hk] at hr
  cases hname : n.name? with
  | none =>
    simp only [hname] at hr
    obtain ⟨adds, same, -⟩ := symbols_inScope children hs hr
    exact ⟨adds, by rw [State.Sealed, same]; exact closed⟩
  | some name =>
    simp only [hname, if_true] at hr
    rw [← bind_assoc] at hr
    obtain ⟨noted, mid, hnote, hr⟩ := Pass.exists_of_bind hr
    obtain ⟨first, symbols⟩ := adds_announce (h.id n n.mem_preorder_self) _ _ _ _ hs hnote
    obtain ⟨second, same, -⟩ := symbols_inScope children first.bounded hr
    refine ⟨first.trans second, fun scope hscope v hv => ?_⟩
    rw [same, symbols] at hscope
    rcases mem_of_mem_pushed hscope hv with rfl | ⟨scope, hscope, hv⟩
    · simp [Symbol.isLocal]
    · exact closed scope hscope v hv

theorem adds_templates {ns : List Node}
    (h : ∀ n ∈ ns, n.kind = .template ∧ Named ids n) (hs : s.Bounded lo) (closed : s.Sealed)
    {a : PUnit} (hr : (ns.forM (walk e)).run s = .ok (a, s')) :
    Adds e lo ids s s' ∧ s'.Sealed := by
  induction ns generalizing s with
  | nil =>
    cases hr
    exact ⟨.refl hs, closed⟩
  | cons n ns ih =>
    obtain ⟨⟨hk, named⟩, later⟩ := List.forall_mem_cons.1 h
    have hr : (walk e n >>= fun _ => ns.forM (walk e)).run s = .ok (a, s') := hr
    obtain ⟨b, mid, hw, hr⟩ := Pass.exists_of_bind hr
    obtain ⟨first, closed'⟩ := adds_template hk named hs closed hw
    obtain ⟨second, closed''⟩ := ih later first.bounded closed' hr
    exact ⟨first.trans second, closed''⟩

theorem walkChildren_eq (n : Node) : walkChildren e n = n.nodes.forM (walk e) := by
  rw [walkChildren]
  change forM n.nodes.attach (fun x => walk e x.1) = forM n.nodes (walk e)
  conv_rhs => rw [← List.attach_map_subtype_val n.nodes, List.forM_map]

end Resolution

open Resolution

/-- A file is resolved template by template. -/
theorem resolve_file {e : Environment} {n : Node} (hk : n.kind = .compilationUnit)
    {f : Findings} (h : e.resolve n = .ok f) :
    ∃ s, (n.nodes.forM (walk e)).run (.initial e) = .ok (⟨⟩, s) ∧ f = s.found := by
  unfold Environment.resolve at h
  cases hw : (walk e n).run (.initial e) with
  | error d => rw [hw] at h; cases h
  | ok r =>
    rw [hw] at h
    cases h
    have children : walk e n = n.nodes.forM (walk e) := by
      rw [walk, ← walkChildren_eq, hk]
      rfl
    rw [children] at hw
    exact ⟨r.2, hw, rfl⟩

theorem bounded_initial (e : Environment) : (State.initial e).Bounded e.firstFreeId :=
  ⟨Nat.le_refl _, fun scope hscope v hv => by
    rw [List.mem_singleton.1 hscope] at hv
    cases hv⟩

theorem sealed_initial (e : Environment) : (State.initial e).Sealed := fun scope hscope v hv => by
  rw [List.mem_singleton.1 hscope] at hv
  cases hv

/-- Further templates add to what was found in a file, and speak of locals of their own. -/
theorem found_append {e : Environment} {n n' : Node}
    (hk : n.kind = .compilationUnit) (hk' : n'.kind = .compilationUnit) {more : List Node}
    (hnodes : n'.nodes = n.nodes ++ more) {ids ids' : Set Nat}
    (h : ∀ t ∈ n.nodes, t.kind = .template ∧ Named ids t)
    (h' : ∀ t ∈ more, t.kind = .template ∧ Named ids' t) {f f' : Findings}
    (hf : e.resolve n = .ok f) (hf' : e.resolve n' = .ok f') :
    ∃ mid hi added, f' = added ++ f ∧ e.firstFreeId ≤ mid ∧
      (∀ entry ∈ f, entry.1 ∈ ids ∧ Speaks e e.firstFreeId mid entry.2) ∧
      ∀ entry ∈ added, entry.1 ∈ ids' ∧ Speaks e mid hi entry.2 := by
  obtain ⟨s, hs, rfl⟩ := resolve_file hk hf
  obtain ⟨s', hs', rfl⟩ := resolve_file hk' hf'
  have parts : n'.nodes.forM (walk e) = n.nodes.forM (walk e) >>= fun _ => more.forM (walk e) := by
    rw [hnodes]
    exact List.forM_append
  rw [parts] at hs'
  obtain ⟨a, mid, hmid, hs'⟩ := Pass.exists_of_bind hs'
  cases hs.symm.trans hmid
  obtain ⟨first, closed⟩ := adds_templates h (bounded_initial e) (sealed_initial e) hs
  have bounded : s.Bounded s.next :=
    ⟨Nat.le_refl _, fun scope hscope v hv hl => absurd hl (closed scope hscope v hv)⟩
  obtain ⟨second, -⟩ := adds_templates h' bounded closed hs'
  obtain ⟨found, hfound, early⟩ := first.found
  obtain ⟨added, hadded, late⟩ := second.found
  refine ⟨s.next, s'.next, added, hadded, first.next, fun entry he => early entry ?_, late⟩
  rwa [hfound, show (State.initial e).found = [] from rfl, List.append_nil] at he

end Stencil
