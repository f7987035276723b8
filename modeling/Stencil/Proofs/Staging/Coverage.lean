import Stencil.Proofs.Source.Shape
import Stencil.Proofs.Staging.Runs
import Stencil.Session

/-!
# Accepted trees

A classification that reports nothing has visited every node of the tree, so every construct in it
has a staged meaning, no lambda, no query, no loop but `foreach`, and a stage that its kind may have.

Results:

* `Runs.decided` – a run decides all that stands below the nodes it visits;
* `Runs.splicesExpressions` – a run makes splices of expressions only;
* `decided_of_classify` – an accepted tree holds supported constructs only, with allowed stages.
-/
namespace Stencil.Staging

/-- The node and all below it have a staged meaning. -/
def Covered (n : Node) : Prop := ∀ m ∈ n.preorder, isSupported m.kind

/-- No two nodes of the tree have one number. -/
def Distinct (root : Node) : Prop :=
  ∀ m ∈ root.preorder, ∀ m' ∈ root.preorder, m.id = m'.id → m = m'

/-- The node has a stage. -/
def State.Knows (st : State) (id : Nat) : Prop := (st.stages.lookup id).isSome

/-- The node and all below it have a staged meaning, and a stage that their kinds may have. -/
def Decided (st : State) (n : Node) : Prop :=
  ∀ m ∈ n.preorder, isSupported m.kind ∧ ∃ s, st.stages.lookup m.id = some s ∧ allows m.kind s

/-- Every node of the tree whose stage is known is decided. -/
def KnownDecided (root : Node) (st : State) : Prop :=
  ∀ m ∈ root.preorder, st.Knows m.id → Decided st m

variable {root : Node} {store : FactStore}

theorem LookedAt.mem {v : Symbol} {m : Node} (h : LookedAt root store v m) :
    m ∈ root.preorder := by
  obtain ⟨id, -, site, hs, h | ⟨steps, parent, child, habove, hm, -, h⟩⟩ := h
  · exact Node.mem_preorder_of_mem_nodes (List.mem_of_find?_eq_some hs) (Node.mem_of_node? h)
  · exact Node.mem_preorder_of_mem_nodes (Node.mem_preorder_of_mem_above habove hm)
      (Node.mem_of_node? h)

theorem Decided.of_stages {st st' : State} {n : Node} (h : Decided st n)
    (hs : st'.stages = st.stages) : Decided st' n := by
  unfold Decided
  rwa [hs]

theorem KnownDecided.of_stages {st st' : State} (h : KnownDecided root st)
    (hs : st'.stages = st.stages) : KnownDecided root st' := by
  intro m hm hknown
  rw [State.Knows, hs] at hknown
  exact (h m hm hknown).of_stages hs

/-- What one more stage makes known. -/
theorem knows_settled {id : Nat} {s : Stage} {st st' : State}
    (hs : st'.stages = (id, s) :: st.stages) {other : Nat} :
    st'.Knows other ↔ other = id ∨ st.Knows other := by
  unfold State.Knows
  rw [hs, List.lookup_cons]
  by_cases h : other = id
  · simp [h]
  · simp [h, beq_eq_false_iff_ne.2 h]

/-- A node that gets its stage when its parts are decided. -/
theorem KnownDecided.settles {n : Node} {s : Stage} {st st' : State} (hu : Distinct root)
    (hn : n ∈ root.preorder) (h : KnownDecided root st) (hs : st'.stages = (n.id, s) :: st.stages)
    (hk : isSupported n.kind) (ha : allows n.kind s) (hc : ∀ m ∈ n.nodes, Decided st m) :
    KnownDecided root st' := by
  -- what was decided stays so, also if it is `n` that gets another stage
  have keeps {m : Node} (hm : m ∈ root.preorder) (h : Decided st m) : Decided st' m := by
    intro x hx
    obtain ⟨supported, t, ht, allowed⟩ := h x hx
    by_cases hid : x.id = n.id
    · obtain rfl := hu x (Node.preorder_trans hm hx) n hn hid
      exact ⟨hk, s, by simp [hs], ha⟩
    · exact ⟨supported, t, by rwa [hs, List.lookup_cons, beq_eq_false_iff_ne.2 hid], allowed⟩
  intro m hm hknown
  rcases (knows_settled hs).1 hknown with heq | hknown
  · obtain rfl := hu m hm n hn heq
    intro x hx
    rcases Node.mem_preorder.1 hx with rfl | ⟨c, hc', hx⟩
    · exact ⟨hk, s, by simp [hs], ha⟩
    · exact keeps (Node.mem_preorder_of_mem_nodes hm hc') (hc c hc') x hx
  · exact keeps hm (h m hm hknown)

theorem Rebinds.stages {st st' : State} (h : Rebinds st st') : st'.stages = st.stages := by
  rcases h with rfl | ⟨v, -, rfl⟩ <;> rfl

/-- What a task visits. -/
def Task.nodes : Task → List Node
  | .visit _ n => [n]
  | .parts _ ns => ns

/-- A run decides what it visits. -/
theorem Runs.decided {task : Task} {st st' : State} (h : Runs root store task st st')
    (hu : Distinct root) (hr : ∀ m ∈ root.preorder, Rule m.kind m.outline)
    (ht : ∀ n ∈ task.nodes, n ∈ root.preorder) (hst : KnownDecided root st) :
    KnownDecided root st' ∧ (∀ n ∈ task.nodes, st'.Knows n.id) ∧
      ∀ id, st.Knows id → st'.Knows id := by
  -- a node that gets its stage after `mid`, which knows what `st` knows
  have settled {p : List Symbol} {n : Node} {s : Stage} {st mid st' : State}
      (hn : ∀ m ∈ (Task.visit p n).nodes, m ∈ root.preorder) (hmid : KnownDecided root mid)
      (hk : isSupported n.kind) (ha : allows n.kind s) (hc : ∀ m ∈ n.nodes, mid.Knows m.id)
      (hs : st'.stages = (n.id, s) :: mid.stages) (hle : ∀ id, st.Knows id → mid.Knows id) :
      KnownDecided root st' ∧ (∀ m ∈ (Task.visit p n).nodes, st'.Knows m.id) ∧
        ∀ id, st.Knows id → st'.Knows id := by
    have hn := hn n List.mem_cons_self
    refine ⟨hmid.settles hu hn hs hk ha fun m hm => ?_, ?_, fun id hid => ?_⟩
    · exact hmid m (Node.mem_preorder_of_mem_nodes hn hm) (hc m hm)
    · exact List.forall_mem_singleton.2 ((knows_settled hs).2 (.inl rfl))
    · exact (knows_settled hs).2 (.inr (hle id hid))
  have named {p : List Symbol} {n : Node} {s : Stage} {st mid st' : State}
      (hn : ∀ m ∈ (Task.visit p n).nodes, m ∈ root.preorder) (hst : KnownDecided root st)
      (hmid : mid.stages = st.stages) (hk : n.kind = .identifier)
      (hs : st'.stages = (n.id, s) :: mid.stages) :
      KnownDecided root st' ∧ (∀ m ∈ (Task.visit p n).nodes, st'.Knows m.id) ∧
        ∀ id, st.Knows id → st'.Knows id := by
    have leaf := (hr n (hn n List.mem_cons_self)).nodes_leaf (by rw [hk]; rfl)
    refine settled hn (hst.of_stages hmid) (by rw [hk]; rfl) (by rw [hk]; rfl) (by simp [leaf]) hs ?_
    exact fun id hid => by rwa [State.Knows, hmid]
  have below {p : List Symbol} {n : Node} (hn : ∀ m ∈ (Task.visit p n).nodes, m ∈ root.preorder) :
      ∀ m ∈ (Task.parts p n.nodes).nodes, m ∈ root.preorder :=
    fun m hm => Node.mem_preorder_of_mem_nodes (hn n List.mem_cons_self) hm
  induction h with
  | done => exact ⟨hst, nofun, fun _ => id⟩
  | next first rest ihf ihr =>
    have hn := ht _ List.mem_cons_self
    obtain ⟨hmid, known, hle⟩ := ihf (by simpa [Task.nodes] using hn) hst
    obtain ⟨hst', knowns, hle'⟩ := ihr (fun m hm => ht m (List.mem_cons_of_mem _ hm)) hmid
    refine ⟨hst', List.forall_mem_cons.2 ⟨hle' _ (known _ List.mem_cons_self), knowns⟩, ?_⟩
    exact fun id hid => hle' id (hle id hid)
  | @remembered p n st s known =>
    have here : st.Knows n.id := by rw [State.Knows, known]; rfl
    exact ⟨hst, by simpa [Task.nodes] using here, fun _ => id⟩
  | free kind _ settles => exact named ht hst rfl kind settles.stages
  | read kind _ _ _ _ => exact named ht hst rfl kind rfl
  | spliced kind _ _ _ _ => exact named ht hst rfl kind rfl
  | coerced kind _ _ _ _ settles =>
    refine named ht hst ?_ kind settles.stages
    split <;> rfl
  | @node p n s st before mid st' _ supported allowed _ rebinds _ settles ih =>
    obtain ⟨hmid, hc, hle⟩ := ih (below ht) (hst.of_stages rebinds.stages)
    refine settled ht hmid supported allowed hc settles.stages fun id hid => hle id ?_
    rwa [State.Knows, rebinds.stages]
  | @declared p n v s st mid st' kind _ _ settles ih =>
    obtain ⟨hmid, hc, hle⟩ := ih (below ht) hst
    have held : KnownDecided root (mid.hold v s) := hmid.of_stages rfl
    exact settled ht held (by rw [kind]; rfl) (by rw [kind]; rfl) hc settles.stages hle
  | @ahead p n v s items st mid st' kind _ nodes looked _ settles ih =>
    obtain ⟨hmid, -, hle⟩ := ih (fun m hm => (looked m hm).mem) hst
    have held : KnownDecided root (mid.hold v s) := hmid.of_stages rfl
    exact settled ht held (by rw [kind]; rfl) (by rw [kind]; rfl) (by simp [nodes]) settles.stages
      hle
  | undecided kind _ nodes settles =>
    exact settled ht hst (by rw [kind]; rfl) (by rw [kind]; rfl) (by simp [nodes]) settles.stages
      fun _ => id
  | @loop p n source body v s st mid mid' st' kind _ nodes _ _ settles ihs ihb =>
    have inner := below ht
    simp only [Task.nodes, nodes, List.mem_cons, List.not_mem_nil, or_false, forall_eq_or_imp,
      forall_eq] at inner
    obtain ⟨hmid, hcs, hle⟩ := ihs (by simpa [Task.nodes] using inner.1) hst
    obtain ⟨hmid', hcb, hle'⟩ := ihb (by simpa [Task.nodes] using inner.2) (hmid.of_stages rfl)
    refine settled ht hmid' (by rw [kind]; rfl) (by rw [kind]; rfl) ?_ settles.stages
      fun id hid => hle' id (hle id hid)
    simpa [nodes] using ⟨hle' _ (hcs _ List.mem_cons_self), hcb _ List.mem_cons_self⟩

/-- Every splice of the tree is an expression. -/
def SplicesExpressions (root : Node) (st : State) : Prop :=
  ∀ m ∈ root.preorder, m.id ∈ st.splices → m.kind.isExpression

theorem SplicesExpressions.settles {n : Node} {s : Stage} {st st' : State} (hu : Distinct root)
    (hn : n ∈ root.preorder) (h : SplicesExpressions root st) (hs : Settles n s st st') :
    SplicesExpressions root st' := by
  intro m hm hsplice
  by_cases heq : m.id = n.id
  · obtain rfl := hu m hm n hn heq
    exact (hs.spliced hsplice).elim (h m hm) id
  · exact h m hm ((hs.splices m.id heq).1 hsplice)

theorem SplicesExpressions.of_splices {st st' : State} (h : SplicesExpressions root st)
    (hs : st'.splices = st.splices) : SplicesExpressions root st' :=
  fun m hm hsplice => h m hm (hs ▸ hsplice)

theorem Rebinds.splices {st st' : State} (h : Rebinds st st') : st'.splices = st.splices := by
  rcases h with rfl | ⟨v, -, rfl⟩ <;> rfl

/-- A run makes splices of expressions only. -/
theorem Runs.splicesExpressions {task : Task} {st st' : State} (h : Runs root store task st st')
    (hu : Distinct root) (ht : ∀ n ∈ task.nodes, n ∈ root.preorder)
    (hst : SplicesExpressions root st) : SplicesExpressions root st' := by
  have below {p : List Symbol} {n : Node} (hn : ∀ m ∈ (Task.visit p n).nodes, m ∈ root.preorder) :
      ∀ m ∈ (Task.parts p n.nodes).nodes, m ∈ root.preorder :=
    fun m hm => Node.mem_preorder_of_mem_nodes (hn n List.mem_cons_self) hm
  induction h with
  | done => exact hst
  | next first rest ihf ihr =>
    have hn := ht _ List.mem_cons_self
    exact ihr (fun m hm => ht m (List.mem_cons_of_mem _ hm))
      (ihf (by simpa [Task.nodes] using hn) hst)
  | remembered known => exact hst
  | free _ _ settles => exact hst.settles hu (ht _ List.mem_cons_self) settles
  | read _ _ _ _ _ => exact hst.of_splices rfl
  | @spliced p n v st kind _ _ _ _ =>
    intro m hm hsplice
    rcases List.mem_cons.1 hsplice with heq | hsplice
    · obtain rfl := hu m hm n (ht n List.mem_cons_self) heq
      rw [kind]
      rfl
    · exact hst m hm hsplice
  | coerced _ _ _ _ _ settles =>
    refine SplicesExpressions.settles hu (ht _ List.mem_cons_self) (hst.of_splices ?_) settles
    split <;> rfl
  | node _ _ _ _ rebinds _ settles ih =>
    exact (ih (below ht) (hst.of_splices rebinds.splices)).settles hu (ht _ List.mem_cons_self)
      settles
  | declared _ _ _ settles ih =>
    refine SplicesExpressions.settles hu (ht _ List.mem_cons_self) ?_ settles
    exact (ih (below ht) hst).of_splices rfl
  | ahead _ _ _ looked _ settles ih =>
    refine SplicesExpressions.settles hu (ht _ List.mem_cons_self) ?_ settles
    exact (ih (fun m hm => (looked m hm).mem) hst).of_splices rfl
  | undecided _ _ _ settles => exact hst.settles hu (ht _ List.mem_cons_self) settles
  | loop _ _ nodes _ _ settles ihs ihb =>
    have inner := below ht
    simp only [Task.nodes, nodes, List.mem_cons, List.not_mem_nil, or_false, forall_eq_or_imp,
      forall_eq] at inner
    have first := ihs (by simpa [Task.nodes] using inner.1) hst
    exact (ihb (by simpa [Task.nodes] using inner.2) (first.of_splices rfl)).settles hu
      (ht _ List.mem_cons_self) settles

/-- Classifying without a report is a run from the root. -/
theorem runs_of_classify {env : Environment} {n : Node} {c : Classification}
    (hr : ∀ m ∈ n.preorder, m.stage? = none ∧ Rule m.kind m.outline)
    (h : classify store env n = .ok c) (hd : c.diagnostics = []) :
    ∃ st, Runs n store (.visit [] n) .initial st ∧ c.tree = stamp st .either n := by
  unfold classify at h
  cases hv : (visit n store env n.size (.free []) n).run .initial with
  | error e => rw [hv] at h; cases h
  | ok r =>
    rw [hv] at h
    cases h
    obtain ⟨consistent, clean⟩ := Cleanly.visit hr n.size (.free []) n n.mem_preorder_self
      .initial r.1 r.2 hv
    obtain ⟨-, runs⟩ := clean ⟨hd, consistent (fun _ => rfl) hd⟩
    exact ⟨r.2, runs, rfl⟩

/-- An accepted tree holds supported constructs only, with stages that their kinds may have. -/
theorem decided_of_classify {env : Environment} {n : Node} {c : Classification}
    (hu : Distinct n) (hr : ∀ m ∈ n.preorder, m.stage? = none ∧ Rule m.kind m.outline)
    (h : classify store env n = .ok c) (hd : c.diagnostics = []) :
    ∃ st, Runs n store (.visit [] n) .initial st ∧ c.tree = stamp st .either n ∧ Decided st n := by
  obtain ⟨st, runs, htree⟩ := runs_of_classify hr h hd
  have start : KnownDecided n .initial := fun m _ h => by simp [State.Knows, State.initial] at h
  obtain ⟨decided, known, -⟩ := runs.decided hu (fun m hm => (hr m hm).2)
    (by simpa [Task.nodes] using n.mem_preorder_self) start
  exact ⟨st, runs, htree, decided n n.mem_preorder_self (known n List.mem_cons_self)⟩

end Stencil.Staging
