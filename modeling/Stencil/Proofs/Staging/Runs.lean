import Stencil.Proofs.Stopping
import Stencil.Proofs.Tree.Outline

/-!
# Runs of the classifier that report nothing

A tree is accepted when its classification reports nothing, so nothing was reported on the way
either. `Runs` says what such a run does to the state, step by step and in the order of the tree,
with everything left out that no invariant needs: which stage a composite expression gets, and
for which reason a position is forced.

* Every child of a node is visited, in source order, before the node gets its stage.
* A name reads the stage of its local, or decides it where the position is forced.
* A declaration binds its local to the stage that the declaring node gets.
* A declarator without a value first looks at the values assigned to its local and at the
  selectors above these assignments.

Results:

* `Cleanly.visit` – a run of the classifier that ends clean started clean and is such a run.
-/
namespace Stencil.Staging

/-- Nothing has been reported. -/
def State.Clean (st : State) : Prop := st.diagnostics = [] ∧ st.reported = []

/-- Reports are noted as such. -/
def State.Consistent (st : State) : Prop := st.diagnostics = [] → st.reported = []

/-- Kinds of nodes that have a staged meaning. -/
def isSupported : NodeKind → Bool
  | .whileStatement | .doStatement | .forStatement | .gotoStatement | .switchStatement
  | .lockStatement | .localFunction | .usingStatement | .lambda | .query | .await => false
  | _ => true

/-- Whether a node of the kind may get the stage: blocks, empty statements and what leaves a method
are never run by the generator itself, and an `if` is either decided there or generated. -/
def allows (k : NodeKind) (s : Stage) : Bool :=
  match k with
  | .block | .emptyStatement | .returnStatement | .yieldReturn | .yieldBreak =>
    s != .generationTime
  | .ifStatement => s == .generationTime || s == .generated
  | _ => true

/-- The state in which the node numbered `id` has the stage `s`. -/
def State.put (st : State) (id : Nat) (s : Stage) : State :=
  { st with stages := (id, s) :: st.stages }

/-- The state in which the local `v` has the stage `s`. -/
def State.hold (st : State) (v : Symbol) (s : Stage) : State :=
  { st with bindings := (v, s) :: st.bindings }

/-- The node gets the stage `s`, and may become a splice, if it is an expression, or stop being
one. -/
structure Settles (n : Node) (s : Stage) (st st' : State) : Prop where
  stages : st'.stages = (n.id, s) :: st.stages
  bindings : st'.bindings = st.bindings
  splices : ∀ other, other ≠ n.id → (other ∈ st'.splices ↔ other ∈ st.splices)
  spliced : n.id ∈ st'.splices → n.id ∈ st.splices ∨ n.kind.isExpression

/-- Before its parts are visited an assignment under a generated condition may make a local
generated that was not of generation time. -/
def Rebinds (st st' : State) : Prop :=
  st' = st ∨ ∃ v, st.bindings.lookup v ≠ some .generationTime ∧ st' = st.hold v .generated

section

variable (root : Node) (store : FactStore)

/-- The node declares the local `v` for the nodes after it. -/
def Opens (n : Node) (v : Symbol) : Prop :=
  store.declared? n = some v ∧ (n.kind = .declarator ∨ n.kind = .forEachStatement)

/-- What is looked at to find the stage of `v` before its assignments are reached: the values
assigned to it, and the selectors of the branches and loops around these assignments. -/
def LookedAt (v : Symbol) (m : Node) : Prop :=
  ∃ id ∈ store.sitesOf v, ∃ site, root.preorder.find? (·.id == id) = some site ∧
    (site.node? 1 = some m ∨ ∃ steps parent child, root.above site.id = some steps ∧
      (parent, child) ∈ steps ∧
      (parent.kind = .ifStatement ∨ parent.kind = .forEachStatement) ∧ parent.node? 0 = some m)

/-- What the classifier is asked to do while some locals are pending. -/
inductive Task where
  | visit (pending : List Symbol) (n : Node)
  | parts (pending : List Symbol) (ns : List Node)

/-- The run of a task takes one state to the other and reports nothing. -/
inductive Runs : Task → State → State → Prop
  | done {p : List Symbol} {st : State} : Runs (.parts p []) st st
  | next {p : List Symbol} {n : Node} {ns : List Node} {st mid st' : State}
    (first : Runs (.visit p n) st mid) (rest : Runs (.parts p ns) mid st') :
    Runs (.parts p (n :: ns)) st st'
  | remembered {p : List Symbol} {n : Node} {st : State} {s : Stage}
    (known : st.stages.lookup n.id = some s) : Runs (.visit p n) st st
  | free {p : List Symbol} {n : Node} {s : Stage} {st st' : State} (kind : n.kind = .identifier)
    (free : ∀ v, store.symbol? n = some v → v.isLocal → v ∈ p) (settles : Settles n s st st') :
    Runs (.visit p n) st st'
  | read {p : List Symbol} {n : Node} {v : Symbol} {st : State} (kind : n.kind = .identifier)
    (refers : store.symbol? n = some v) (isLocal : v.isLocal) (pending : v ∉ p)
    (new : st.stages.lookup n.id = none) :
    Runs (.visit p n) st (st.put n.id ((st.bindings.lookup v).getD .either))
  | spliced {p : List Symbol} {n : Node} {v : Symbol} {st : State} (kind : n.kind = .identifier)
    (refers : store.symbol? n = some v) (isLocal : v.isLocal) (pending : v ∉ p)
    (held : st.bindings.lookup v = some .generationTime) :
    Runs (.visit p n) st { st.put n.id .generated with splices := n.id :: st.splices }
  | coerced {p : List Symbol} {n : Node} {v : Symbol} {st st' : State}
    (kind : n.kind = .identifier)
    (refers : store.symbol? n = some v) (isLocal : v.isLocal) (pending : v ∉ p)
    (open' : st.bindings.lookup v ≠ some .generated)
    (settles : Settles n .generationTime (if (st.bindings.lookup v).getD .either = .either
      then st.hold v .generationTime else st) st') :
    Runs (.visit p n) st st'
  | node {p : List Symbol} {n : Node} {s : Stage} {st before mid st' : State}
    (kind : n.kind ≠ .identifier) (supported : isSupported n.kind) (allowed : allows n.kind s)
    (opens : ∀ v, ¬Opens store n v)
    (rebinds : Rebinds st before) (parts : Runs (.parts p n.nodes) before mid)
    (settles : Settles n s mid st') : Runs (.visit p n) st st'
  | declared {p : List Symbol} {n : Node} {v : Symbol} {s : Stage} {st mid st' : State}
    (kind : n.kind = .declarator) (declares : store.declared? n = some v)
    (parts : Runs (.parts p n.nodes) st mid) (settles : Settles n s (mid.hold v s) st') :
    Runs (.visit p n) st st'
  | ahead {p : List Symbol} {n : Node} {v : Symbol} {s : Stage} {items : List Node}
    {st mid st' : State} (kind : n.kind = .declarator) (declares : store.declared? n = some v)
    (nodes : n.nodes = []) (looked : ∀ m ∈ items, LookedAt root store v m)
    (parts : Runs (.parts (v :: p) items) st mid) (settles : Settles n s (mid.hold v s) st') :
    Runs (.visit p n) st st'
  | undecided {p : List Symbol} {n : Node} {v : Symbol} {st st' : State}
    (kind : n.kind = .declarator) (declares : store.declared? n = some v) (nodes : n.nodes = [])
    (settles : Settles n .either st st') : Runs (.visit p n) st st'
  | loop {p : List Symbol} {n source body : Node} {v : Symbol} {s : Stage}
    {st mid mid' st' : State} (kind : n.kind = .forEachStatement)
    (declares : store.declared? n = some v) (nodes : n.nodes = [source, body])
    (first : Runs (.visit p source) st mid) (inner : Runs (.visit p body) (mid.hold v s) mid')
    (settles : Settles n s mid' st') : Runs (.visit p n) st st'

end

/-! ## Running cleanly -/

/-- The action keeps notes of its reports. If it ends clean it started clean, and `R` relates what
it did. -/
def Cleanly {α : Type} (act : Classifier α) (R : State → α → State → Prop) : Prop :=
  ∀ st a st', act.run st = .ok (a, st') →
    (st.Consistent → st'.Consistent) ∧ (st'.Clean → st.Clean ∧ R st a st')

namespace Cleanly

variable {α β : Type} {R : State → α → State → Prop} {T : State → β → State → Prop}

theorem bind {act : Classifier α} {k : α → Classifier β} (h : Cleanly act R)
    (hk : ∀ a, Cleanly (k a) fun mid b st' => ∀ st, R st a mid → T st b st') :
    Cleanly (act >>= k) T := by
  intro st b st' hr
  rw [StateT.run_bind] at hr
  cases ha : act.run st with
  | error e => rw [ha] at hr; cases hr
  | ok r =>
    rw [ha] at hr
    obtain ⟨first, hfirst⟩ := h st r.1 r.2 ha
    obtain ⟨second, hsecond⟩ := hk r.1 r.2 b st' hr
    refine ⟨second ∘ first, fun hc => ?_⟩
    obtain ⟨hmid, hT⟩ := hsecond hc
    obtain ⟨hst, hR⟩ := hfirst hmid
    exact ⟨hst, hT st hR⟩

theorem pure {a : α} (h : ∀ st, R st a st) : Cleanly (Pure.pure a) R := by
  intro st b st' hr
  cases hr
  exact ⟨id, fun hc => ⟨hc, h st⟩⟩

theorem mono {R' : State → α → State → Prop} {act : Classifier α} (h : Cleanly act R)
    (hR : ∀ st a st', R st a st' → R' st a st') : Cleanly act R' := by
  intro st a st' hr
  obtain ⟨hc, ha⟩ := h st a st' hr
  exact ⟨hc, fun hclean => ⟨(ha hclean).1, hR st a st' (ha hclean).2⟩⟩

theorem get : Cleanly get fun st a st' => a = st ∧ st' = st := by
  intro st a st' hr
  cases hr
  exact ⟨id, fun hc => ⟨hc, rfl, rfl⟩⟩

/-- A step that leaves the reports alone. -/
theorem modify {f : State → State} (hd : ∀ st, (f st).diagnostics = st.diagnostics)
    (hr : ∀ st, (f st).reported = st.reported) :
    Cleanly (modify f) fun st _ st' => st' = f st := by
  intro st a st' h
  cases h
  simp only [State.Consistent, State.Clean, hd, hr]
  exact ⟨id, fun hc => ⟨hc, trivial⟩⟩

/-- No clean run reports. -/
theorem report (n : Node) (complaint : Complaint) (message : String)
    (properties : List (String × String)) (R : State → Unit → State → Prop) :
    Cleanly (Staging.report n complaint message properties) R := by
  intro st a st' h
  cases h
  beta_reduce
  split
  · next known =>
    refine ⟨id, fun hc => ?_⟩
    rw [hc.2] at known
    cases known
  · exact ⟨fun _ hd => by simp at hd, fun hc => by cases hc.2⟩

theorem lift (x : Except Defect α) :
    Cleanly (liftM x : Classifier α) fun st _ st' => st' = st := by
  intro st a st' h
  cases x with
  | error e => cases h
  | ok b =>
    cases h
    exact ⟨id, fun hc => ⟨hc, rfl⟩⟩

end Cleanly

/-! ## The classifier runs cleanly -/

section

variable {root : Node} {store : FactStore} {env : Environment} {jumps : Nat} {cx : Context}
  {n : Node}

/-- What a clean visit of a node does. -/
abbrev VisitsCleanly (root : Node) (store : FactStore) (p : List Symbol) (n : Node)
    {α : Type} (act : Classifier α) : Prop :=
  Cleanly act fun st _ st' => Runs root store (.visit p n) st st'

theorem Cleanly.mapM {α β : Type} {p : List Symbol} {f : α → Node} {act : α → Classifier β}
    (xs : List α) (h : ∀ x ∈ xs, VisitsCleanly root store p (f x) (act x)) :
    Cleanly (xs.mapM act) fun st _ st' => Runs root store (.parts p (xs.map f)) st st' := by
  induction xs with
  | nil => exact .pure fun _ => .done
  | cons x xs ih =>
    rw [List.mapM_cons]
    refine .bind (h x List.mem_cons_self) fun b => ?_
    refine .bind (ih fun y hy => h y (List.mem_cons_of_mem _ hy)) fun bs => .pure ?_
    exact fun st' mid rest st first => .next first rest

theorem Cleanly.forM {α : Type} {p : List Symbol} {f : α → Node} {act : α → Classifier PUnit}
    (xs : List α) (h : ∀ x ∈ xs, VisitsCleanly root store p (f x) (act x)) :
    Cleanly (xs.forM act) fun st _ st' => Runs root store (.parts p (xs.map f)) st st' := by
  induction xs with
  | nil => exact .pure fun _ => .done
  | cons x xs ih =>
    refine .bind (h x List.mem_cons_self) fun b => ?_
    refine (ih fun y hy => h y (List.mem_cons_of_mem _ hy)).mono ?_
    exact fun mid _ st' rest st first => .next first rest

theorem Cleanly.discard {α : Type} {act : Classifier α} {R : State → State → Prop}
    (h : Cleanly act fun st _ st' => R st st') :
    Cleanly (discard act) fun st _ st' => R st st' := by
  rw [Pass.discard_eq]
  exact .bind h fun _ => .pure fun _ _ hr => hr

theorem cleanly_assign (id : Nat) (s : Stage) :
    Cleanly (assign id s) fun st _ st' => st' = st.put id s :=
  .modify (fun _ => rfl) fun _ => rfl

theorem cleanly_bind (v : Symbol) (s : Stage) :
    Cleanly (bind v s) fun st _ st' => st' = st.hold v s :=
  .modify (fun _ => rfl) fun _ => rfl

theorem cleanly_binding? (v : Symbol) :
    Cleanly (binding? v) fun st b st' => b = st.bindings.lookup v ∧ st' = st := by
  refine .bind .get fun st => .pure ?_
  rintro mid _ ⟨rfl, rfl⟩
  exact ⟨rfl, rfl⟩

/-- Looking for a reason changes nothing. -/
theorem cleanly_selected (cx : Context) (phrase : String) (selector : Node) :
    Cleanly (selected cx phrase selector) fun st inner st' =>
      inner.pending = cx.pending ∧ st' = st := by
  unfold selected
  split
  · refine .bind (.lift _) fun text => .pure ?_
    rintro st _ rfl
    exact ⟨rfl, rfl⟩
  · exact .pure fun _ => ⟨rfl, rfl⟩

/-- What may run at generation time is no local known to be generated. -/
theorem cleanly_violation (n : Node) :
    Cleanly (violation store env n) fun st why st' => st' = st ∧ (why = none →
      n.kind = .identifier → ∀ v, store.symbol? n = some v → v.isLocal →
        st.bindings.lookup v ≠ some .generated) := by
  have dynamic : Cleanly (do
      if isDynamic store n then
        let text ← n.compact
        return some s!"`{text}`"
      else return none : Classifier (Option String)) fun st _ st' => st' = st := by
    split
    · exact .bind (.lift _) fun text => .pure fun _ _ h => h
    · exact .pure fun _ => rfl
  unfold violation
  dsimp only
  split
  · exact .pure fun _ => ⟨rfl, fun h => by cases h⟩
  · split
    · next v hv =>
      have free (hl : ¬v.isLocal) {st : State} : ∀ w, store.symbol? n = some w → w.isLocal →
          st.bindings.lookup w ≠ some .generated := by
        intro w hw hwl
        cases Option.some.inj (hv.symm.trans hw)
        exact absurd hwl hl
      split
      · refine .bind (cleanly_binding? v) fun held => ?_
        split
        · exact .pure fun st st' h => ⟨h.2, fun hw => by cases hw⟩
        · next hh =>
          refine .pure fun st st' h => ⟨h.2, fun _ hk w hw _ => ?_⟩
          cases Option.some.inj (hv.symm.trans hw)
          simpa [hk, h.1] using hh
      · next hl =>
        split
        · exact .pure fun _ => ⟨rfl, fun h => by cases h⟩
        · exact dynamic.mono fun st a st' h => ⟨h, fun _ _ => free hl⟩
    · next hv =>
      exact dynamic.mono fun st a st' h => ⟨h, fun _ _ w hw => by cases hv.symm.trans hw⟩

theorem cleanly_visitAll (cx : Context)
    (ih : ∀ m ∈ n.nodes, ∀ cx : Context,
      VisitsCleanly root store cx.pending m (visit root store env jumps cx m)) :
    Cleanly (visitAll root store env jumps cx n) fun st _ st' =>
      Runs root store (.parts cx.pending n.nodes) st st' := by
  rw [visitAll]
  have all := Cleanly.mapM (f := Subtype.val) n.nodes.attach fun x _ => ih x.1 x.2 cx
  rwa [List.attach_map_subtype_val] at all

/-- The parts of a node were visited, and whatever stage of those allowed the node now gets
completes its visit. -/
def Computes (root : Node) (store : FactStore) (p : List Symbol) (n : Node) (st : State)
    (s : Stage) (mid : State) : Prop :=
  ∀ t st', Settles n t mid st' → (n.kind.isExpression = false → t = s) →
    Runs root store (.visit p n) st st'

/-- Kinds of nodes that a clean run visits by visiting their parts. -/
def isComposite (k : NodeKind) : Bool :=
  isSupported k && k != .identifier && k != .declarator && k != .forEachStatement

theorem allows_of_isExpression {k : NodeKind} {s : Stage} (h : k.isExpression) : allows k s := by
  cases k <;> first | rfl | cases h

theorem Computes.node {st before mid : State} {s : Stage} (hk : isComposite n.kind)
    (ha : allows n.kind s) (rebinds : Rebinds st before)
    (parts : Runs root store (.parts cx.pending n.nodes) before mid) :
    Computes root store cx.pending n st s mid := by
  simp only [isComposite, Bool.and_eq_true, bne_iff_ne] at hk
  obtain ⟨⟨⟨hs, hi⟩, hd⟩, hf⟩ := hk
  intro t st' settles ht
  have allowed : allows n.kind t := by
    cases he : n.kind.isExpression with
    | false => rwa [ht he]
    | true => exact allows_of_isExpression he
  refine .node hi hs allowed ?_ rebinds parts settles
  rintro v ⟨-, h | h⟩
  · exact hd h
  · exact hf h

theorem settles_put (st : State) (n : Node) (s : Stage) : Settles n s st (st.put n.id s) :=
  ⟨rfl, rfl, fun _ _ => .rfl, .inl⟩

/-- A node whose parts were all visited, whatever stage follows from theirs. -/
theorem Cleanly.composite {α : Type} (hk : isComposite n.kind) {act : Classifier α}
    (h : Cleanly act fun st _ st' => Runs root store (.parts cx.pending n.nodes) st st')
    (f : α → Stage) (ha : ∀ a, allows n.kind (f a)) :
    Cleanly (act >>= fun a => Pure.pure (f a)) (Computes root store cx.pending n) :=
  .bind h fun a => .pure fun _ _ parts => .node hk (ha a) (.inl rfl) parts

section

variable (hn : Rule n.kind n.outline)
  (ih : ∀ m ∈ n.nodes, ∀ cx : Context,
    VisitsCleanly root store cx.pending m (visit root store env jumps cx m))

include hn ih in
theorem cleanly_memberAccess (hk : n.kind = .memberAccess) :
    Cleanly (memberAccess root store env jumps cx n) (Computes root store cx.pending n) := by
  obtain ⟨receiver, hnodes, -⟩ := hn.nodes_memberAccess hk
  have hr : n.node? 0 = some receiver := by simp [Node.node?, hnodes]
  have visited (cx' : Context) (hp : cx'.pending = cx.pending) :
      Cleanly (visit root store env jumps cx' receiver) fun st _ st' =>
        Runs root store (.parts cx.pending n.nodes) st st' := by
    rw [hnodes, ← hp]
    exact (ih receiver (by simp [hnodes]) cx').mono fun _ _ _ h => .next h .done
  have composite : isComposite n.kind := by rw [hk]; rfl
  have free (s : Stage) : allows n.kind s := by rw [hk]; rfl
  rw [memberAccess]
  split
  · next h => cases h.symm.trans hr
  · next r h =>
    cases Option.some.inj (hr.symm.trans h)
    split
    · exact .composite composite (.discard (visited (cx.force _) rfl)) (fun _ => .generationTime)
        fun _ => free _
    · exact .composite composite (.discard (visited cx rfl)) (fun _ => .generated) fun _ => free _
    · exact (visited cx rfl).mono fun _ s _ h => .node composite (free s) (.inl rfl) h

include ih in
theorem cleanly_invocation (hk : n.kind = .invocation) :
    Cleanly (invocation root store env jumps cx n) (Computes root store cx.pending n) := by
  have composite : isComposite n.kind := by rw [hk]; rfl
  have free (s : Stage) : allows n.kind s := by rw [hk]; rfl
  have all (f : List Stage → Stage) :=
    Cleanly.composite composite (cleanly_visitAll cx ih) f fun _ => free _
  have forced (f : Unit → Stage) :=
    Cleanly.composite composite (.discard (cleanly_visitAll cx ih)) f fun _ => free _
  rw [invocation]
  split
  · next h => exact .pure fun st => .node composite (free _) (.inl rfl) (h ▸ .done)
  · next callee arguments h =>
    have first (cx' : Context) := ih callee (by simp [h]) cx'
    have rest (cx' : Context) (m : { m // m ∈ arguments }) := ih m.1 (by simp [h, m.2]) cx'
    have joined {st mid st' : State} (s : Stage)
        (hc : Runs root store (.visit cx.pending callee) st mid)
        (ha : Runs root store (.parts cx.pending (arguments.attach.map Subtype.val)) mid st') :
        Computes root store cx.pending n st s st' := by
      rw [List.attach_map_subtype_val] at ha
      exact .node composite (free s) (.inl rfl) (h ▸ .next hc ha)
    split
    · exact all _
    · split
      · exact forced _
      · split
        · refine .bind (.discard (first cx)) fun _ => ?_
          refine .bind (.forM _ fun m _ => .discard (rest _ m)) fun _ => .pure ?_
          exact fun st' mid ha st hc => joined _ hc ha
        · exact forced _
        · refine .bind (first cx) fun s => ?_
          refine .bind (.mapM _ fun m _ => rest cx m) fun ss => .pure ?_
          exact fun st' mid ha st hc => joined _ hc ha

include ih in
theorem cleanly_assignment (hk : n.kind = .assignment ∨ n.kind = .step) :
    Cleanly (assignment root store env jumps cx n) (Computes root store cx.pending n) := by
  have composite : isComposite n.kind := by rcases hk with hk | hk <;> rw [hk] <;> rfl
  have free (s : Stage) : allows n.kind s := by rcases hk with hk | hk <;> rw [hk] <;> rfl
  have all := cleanly_visitAll cx ih
  rw [assignment]
  split
  · exact .composite composite all _ fun _ => free _
  · next v hv =>
    refine .bind (cleanly_binding? v) fun bound => ?_
    dsimp only
    have under : Cleanly (do
          bind v .generated
          discard (visitAll root store env jumps cx n)
          return Stage.generated) fun st _ st' =>
        Runs root store (.parts cx.pending n.nodes) (st.hold v .generated) st' := by
      refine .bind (cleanly_bind v .generated) fun _ => .bind (.discard all) fun _ => .pure ?_
      rintro st' mid parts st rfl
      exact parts
    split
    · split
      · refine .bind (.report _ _ _ _ fun _ _ _ => False) fun _ => under.mono ?_
        exact fun _ _ _ _ _ h => h.elim
      · next hb =>
        refine under.mono ?_
        rintro mid s st' parts st ⟨rfl, rfl⟩
        exact .node composite (free s) (.inr ⟨v, hb, rfl⟩) parts
    · split
      · split
        · next h =>
          refine .pure ?_
          rintro mid st ⟨-, rfl⟩
          exact .node composite (free _) (.inl rfl) (h ▸ .done)
        · next target values h =>
          refine .bind (.discard (ih target (by simp [h]) cx)) fun _ => ?_
          refine .bind (.forM _ fun m _ => .discard (ih m.1 (by simp [h, m.2]) _)) fun _ => ?_
          refine .pure ?_
          rintro st' mid' rest mid first st ⟨-, rfl⟩
          rw [List.attach_map_subtype_val] at rest
          exact .node composite (free _) (.inl rfl) (h ▸ .next first rest)
      · refine .bind all fun stages => .pure ?_
        rintro st' mid parts st ⟨-, rfl⟩
        exact .node composite (free _) (.inl rfl) parts

include ih in
theorem cleanly_localDeclaration (hk : n.kind = .localDeclaration) :
    Cleanly (localDeclaration root store env jumps cx n) (Computes root store cx.pending n) := by
  have composite : isComposite n.kind := by rw [hk]; rfl
  have free (s : Stage) : allows n.kind s := by rw [hk]; rfl
  rw [localDeclaration]
  refine .bind (cleanly_visitAll _ ih) fun stages => ?_
  dsimp only
  split
  · refine .bind (.report _ _ _ _ fun _ _ _ => False) fun _ => .pure ?_
    exact fun _ _ h => h.elim
  · exact .pure fun st' st parts => .node composite (free _) (.inl rfl) parts

include hn ih in
theorem cleanly_ifStatement (hk : n.kind = .ifStatement)
    (ih' : ∀ clause ∈ n.nodes, ∀ m ∈ clause.nodes, ∀ cx : Context,
      VisitsCleanly root store cx.pending m (visit root store env jumps cx m)) :
    Cleanly (ifStatement root store env jumps cx n) (Computes root store cx.pending n) := by
  have composite : isComposite n.kind := by rw [hk]; rfl
  obtain ⟨condition', body, rest, hnodes, -⟩ := hn.nodes_ifStatement hk
  rw [ifStatement]
  split
  · next h => cases h.symm.trans hnodes
  · next condition branches h =>
    refine .bind (ih condition (by simp [h]) cx) fun s => ?_
    have branch (inner : Context) (s : Stage) (x : { m // m ∈ branches }) :
        VisitsCleanly root store inner.pending x.1 (do
          if x.1.kind = .elseClause then
            discard (visitAll root store env jumps inner x.1)
            assign x.1.id s
          else discard (visit root store env jumps inner x.1)) := by
      have hm : x.1 ∈ n.nodes := by simp [h, x.2]
      split
      · next hc =>
        refine .bind (.discard (cleanly_visitAll _ (ih' x.1 hm))) fun _ => ?_
        refine (cleanly_assign x.1.id s).mono ?_
        rintro mid _ st' rfl st parts
        have clause : isComposite x.1.kind := by rw [hc]; rfl
        have allowed : allows x.1.kind s := by rw [hc]; rfl
        exact Computes.node clause allowed (.inl rfl) parts s _ (settles_put mid x.1 s) fun _ => rfl
      · exact .discard (ih x.1 hm inner)
    have taken (inner : Context) (s : Stage) :=
      Cleanly.forM branches.attach fun x _ => branch inner s x
    have visited {st mid st' : State} (s : Stage) (hs : s = .generationTime ∨ s = .generated)
        (first : Runs root store (.visit cx.pending condition) st mid)
        (rest : Runs root store (.parts cx.pending (branches.attach.map Subtype.val)) mid st') :
        Computes root store cx.pending n st s st' := by
      have allowed : allows n.kind s := by rcases hs with rfl | rfl <;> rw [hk] <;> rfl
      rw [List.attach_map_subtype_val] at rest
      exact .node composite allowed (.inl rfl) (h ▸ .next first rest)
    split
    · rw [pure_bind]
      refine .bind (taken cx _) fun _ => .pure ?_
      exact fun st' mid rest st first => visited _ (.inl rfl) first rest
    · refine .bind (cleanly_selected cx _ _) fun inner => ?_
      rw [pure_bind]
      refine .bind (taken inner _) fun _ => .pure ?_
      rintro st' mid' rest mid ⟨hp, rfl⟩ st first
      exact visited _ (.inr rfl) first (hp ▸ rest)

/-- The node opens `v` with the stage it gets. -/
theorem Computes.opening {st mid : State} {s : Stage} (hk : n.kind.isExpression = false)
    (h : ∀ st', Settles n s mid st' → Runs root store (.visit cx.pending n) st st') :
    Computes root store cx.pending n st s mid := by
  intro t st' settles ht
  cases ht hk
  exact h st' settles

include ih in
/-- No clean run comes to a construct without a staged meaning. -/
theorem cleanly_unsupported (construct : String) (R : State → Stage → State → Prop) :
    Cleanly (unsupported root store env jumps cx n construct) R := by
  rw [unsupported]
  refine .bind (.report _ _ _ _ fun _ _ _ => False) fun _ => ?_
  refine .bind (.discard (cleanly_visitAll _ ih)) fun _ => .pure ?_
  exact fun _ _ _ _ h => h.elim

include hn ih in
theorem cleanly_forEachStatement (hk : n.kind = .forEachStatement) :
    Cleanly (forEachStatement root store env jumps cx n) (Computes root store cx.pending n) := by
  obtain ⟨source, body, hnodes, -, -⟩ := hn.nodes_forEach hk
  have hs : n.node? 0 = some source := by simp [Node.node?, hnodes]
  have hb : n.node? 1 = some body := by simp [Node.node?, hnodes]
  rw [forEachStatement]
  split
  · exact cleanly_unsupported ih _ _
  · split
    · next source' body' hs' hb' =>
      cases Option.some.inj (hs.symm.trans hs')
      cases Option.some.inj (hb.symm.trans hb')
      refine .bind (ih source (by simp [hnodes]) cx) fun found => ?_
      dsimp only
      generalize (if found = .generationTime then found else .generated) = s
      have inside : Cleanly (do
          let inner ← if s = .generationTime then pure cx
            else selected cx "the loop over" source
          discard (visit root store env jumps (inner.inLoop s) body)
          return s) fun st s' st' => s' = s ∧ Runs root store (.visit cx.pending body) st st' := by
        have visited (inner : Context) := ih body (by simp [hnodes]) (inner.inLoop s)
        dsimp only
        split
        · rw [pure_bind]
          exact .bind (.discard (visited cx)) fun _ => .pure fun _ _ h => ⟨rfl, h⟩
        · refine .bind (cleanly_selected cx _ _) fun inner => ?_
          refine .bind (.discard (visited inner)) fun _ => .pure ?_
          rintro st' mid h _ ⟨hp, rfl⟩
          have hp : (inner.inLoop s).pending = cx.pending := hp
          exact ⟨rfl, hp ▸ h⟩
      split
      · next v hv =>
        refine .bind (cleanly_bind v s) fun _ => inside.mono ?_
        rintro _ _ st' ⟨rfl, inner⟩ mid rfl st first
        refine .opening (by rw [hk]; rfl) fun final settles => ?_
        exact .loop hk hv hnodes first inner settles
      · next hv =>
        refine inside.mono ?_
        rintro mid _ st' ⟨rfl, inner⟩ st first
        refine fun t final settles _ => .node (by simp [hk]) (by rw [hk]; rfl) (by rw [hk]; rfl) ?_
          (.inl rfl)
          (hnodes ▸ .next first (.next inner .done)) settles
        exact fun v h => hv v h.1
    · next no => exact (no _ _ hs hb).elim

end

/-! ## Looking ahead -/

theorem Runs.append {p : List Symbol} {xs ys : List Node} {st mid st' : State}
    (h : Runs root store (.parts p xs) st mid) (h' : Runs root store (.parts p ys) mid st') :
    Runs root store (.parts p (xs ++ ys)) st st' := by
  induction xs generalizing st with
  | nil => cases h; exact h'
  | cons x xs ih =>
    cases h with
    | next first rest => exact .next first (ih rest)

/-- Some of what is looked at for `v` was visited. -/
def Looks (root : Node) (store : FactStore) (p : List Symbol) (v : Symbol) (st st' : State) :
    Prop :=
  ∃ items : List Node, (∀ m ∈ items, LookedAt root store v m) ∧
    Runs root store (.parts p items) st st'

theorem Looks.refl {p : List Symbol} {v : Symbol} (st : State) : Looks root store p v st st :=
  ⟨[], nofun, .done⟩

theorem Looks.one {p : List Symbol} {v : Symbol} {m : Node} {st st' : State}
    (hm : LookedAt root store v m) (h : Runs root store (.visit p m) st st') :
    Looks root store p v st st' :=
  ⟨[m], by simpa using hm, .next h .done⟩

theorem Looks.trans {p : List Symbol} {v : Symbol} {st mid st' : State}
    (h : Looks root store p v st mid) (h' : Looks root store p v mid st') :
    Looks root store p v st st' := by
  obtain ⟨xs, hx, hr⟩ := h
  obtain ⟨ys, hy, hr'⟩ := h'
  refine ⟨xs ++ ys, fun m hm => ?_, hr.append hr'⟩
  rcases List.mem_append.1 hm with hm | hm
  · exact hx m hm
  · exact hy m hm

section

variable {p : List Symbol} {v : Symbol}

theorem Cleanly.anyM {α : Type} {f : α → Classifier Bool} (xs : List α)
    (h : ∀ x ∈ xs, Cleanly (f x) fun st _ st' => Looks root store p v st st') :
    Cleanly (xs.anyM f) fun st _ st' => Looks root store p v st st' := by
  induction xs with
  | nil => exact .pure fun st => .refl st
  | cons x xs ih =>
    rw [List.anyM]
    refine .bind (h x List.mem_cons_self) fun found => ?_
    split
    · exact .pure fun mid st hr => hr
    · refine (ih fun y hy => h y (List.mem_cons_of_mem _ hy)).mono ?_
      exact fun mid _ st' rest st first => first.trans rest

theorem Cleanly.foldlM {α β : Type} {f : β → α → Classifier β} (xs : List α) (b : β)
    (h : ∀ b, ∀ x ∈ xs, Cleanly (f b x) fun st _ st' => Looks root store p v st st') :
    Cleanly (xs.foldlM f b) fun st _ st' => Looks root store p v st st' := by
  induction xs generalizing b with
  | nil => exact .pure fun st => .refl st
  | cons x xs ih =>
    rw [List.foldlM]
    refine .bind (h b x List.mem_cons_self) fun c => ?_
    refine (ih c fun b y hy => h b y (List.mem_cons_of_mem _ hy)).mono ?_
    exact fun mid _ st' rest st first => first.trans rest

variable (ih : ∀ m ∈ root.preorder, ∀ cx : Context,
  VisitsCleanly root store cx.pending m (visit root store env jumps cx m))

include ih in
theorem cleanly_underGenerated {id : Nat} {site : Node} (hid : id ∈ store.sitesOf v)
    (hs : root.preorder.find? (·.id == id) = some site) :
    Cleanly (underGenerated root store env jumps p site) fun st _ st' =>
      Looks root store p v st st' := by
  rw [underGenerated]
  split
  · exact .pure fun st => .refl st
  · next steps habove =>
    refine .anyM _ ?_
    -- each step up the tree may add one selector
    rintro ⟨⟨parent, child⟩, hm⟩ -
    have hp := Node.mem_preorder_of_mem_above habove hm
    have selector {m : Node} (hk : parent.kind = .ifStatement ∨ parent.kind = .forEachStatement)
        (h0 : parent.node? 0 = some m) : Cleanly (do
          if m.id = child.id then return false
          return decide ((← visit root store env jumps (.free p) m) ≠ .generationTime))
        fun st _ st' => Looks root store p v st st' := by
      split
      · exact .pure fun st => .refl st
      · refine .bind (ih m (Node.mem_preorder_of_mem_nodes hp (Node.mem_of_node? h0)) (.free p))
          fun _ => .pure fun st' st hr => .one ?_ hr
        exact ⟨id, hid, site, hs, .inr ⟨steps, parent, child, habove, hm, hk, h0⟩⟩
    dsimp only
    split
    · next h h0 => exact selector (.inl h) h0
    · next h h0 => exact selector (.inr h) h0
    · exact .pure fun st => .refl st

include ih in
theorem cleanly_assignedStage :
    Cleanly (assignedStage root store env jumps p v) fun st _ st' =>
      Looks root store p v st st' := by
  rw [assignedStage]
  refine .bind (.foldlM (store.sitesOf v) _ ?_) fun _ => .pure fun st' st h => h
  intro stages id hid
  split
  · next stages site hs =>
    refine .bind (cleanly_underGenerated ih hid hs) fun under => ?_
    split
    · exact .pure fun mid st h => h
    · split
      · next value hv hk =>
        have hm := Node.mem_preorder_of_mem_nodes (List.mem_of_find?_eq_some hs)
          (Node.mem_of_node? hv)
        refine .bind (ih value hm (.free p)) fun s => .pure fun st' mid visited st looked => ?_
        exact looked.trans (.one ⟨id, hid, site, hs, .inl hv⟩ visited)
      · exact .pure fun mid st h => h
  · exact .pure fun st => .refl st

end

/-! ## Visits -/

theorem cleanly_declarator (hn : Rule n.kind n.outline)
    (ih : ∀ m ∈ n.nodes, ∀ cx : Context,
      VisitsCleanly root store cx.pending m (visit root store env jumps cx m))
    (ahead : ∀ j < jumps, ∀ m ∈ root.preorder, ∀ cx : Context,
      VisitsCleanly root store cx.pending m (visit root store env j cx m))
    (hk : n.kind = .declarator) :
    Cleanly (declarator root store env jumps cx n) (Computes root store cx.pending n) := by
  have expression : n.kind.isExpression = false := by rw [hk]; rfl
  rw [declarator]
  split
  · next hv =>
    refine .bind (cleanly_visitAll _ ih) fun _ => .pure fun st' st parts t final settles _ => ?_
    refine .node (by simp [hk]) (by rw [hk]; rfl) (by rw [hk]; rfl) ?_ (.inl rfl) parts settles
    rintro v ⟨h, -⟩
    cases hv.symm.trans h
  · next v hv =>
    split
    · refine .bind (.discard (cleanly_visitAll _ ih)) fun _ => ?_
      refine .bind (cleanly_bind v .generated) fun _ => .pure ?_
      rintro st' mid rfl st parts
      exact .opening expression fun final settles => .declared hk hv parts settles
    · split
      · next value h0 =>
        have hnodes : n.nodes = [value] := by
          rcases hn.nodes_declarator hk with h | ⟨_, h, -⟩
          · simp [Node.node?, h] at h0
          · simpa [Node.node?, h] using h0
        refine .bind (ih value (by simp [hnodes]) cx) fun s => ?_
        refine .bind (cleanly_bind v s) fun _ => .pure ?_
        rintro st' mid rfl st visited
        refine .opening expression fun final settles => ?_
        exact .declared hk hv (hnodes ▸ .next visited .done) settles
      · next h0 =>
        have hnodes : n.nodes = [] := by
          rcases hn.nodes_declarator hk with h | ⟨_, h, -⟩
          · exact h
          · simp [Node.node?, h] at h0
        have undecided (st : State) : Computes root store cx.pending n st .either st :=
          .opening expression fun final settles => .undecided hk hv hnodes settles
        split
        · exact .pure undecided
        · split
          · exact .pure undecided
          · next j =>
            refine .bind (cleanly_assignedStage (ahead j (Nat.lt_succ_self j))) fun s => ?_
            refine .bind (cleanly_bind v s) fun _ => .pure ?_
            rintro st' mid rfl st ⟨items, looked, parts⟩
            refine .opening expression fun final settles => ?_
            exact .ahead hk hv hnodes looked parts settles

theorem cleanly_jump (hn : Rule n.kind n.outline)
    (hk : n.kind = .breakStatement ∨ n.kind = .continueStatement) :
    Cleanly (jump n cx) (Computes root store cx.pending n) := by
  have composite : isComposite n.kind := by rcases hk with hk | hk <;> rw [hk] <;> rfl
  have hnodes : n.nodes = [] := hn.nodes_leaf (by rcases hk with hk | hk <;> rw [hk] <;> rfl)
  have left (st : State) (s : Stage) : Computes root store cx.pending n st s st :=
    .node composite (by rcases hk with hk | hk <;> rw [hk] <;> rfl) (.inl rfl) (hnodes ▸ .done)
  rw [jump]
  split
  · refine .bind (.report _ _ _ _ fun _ _ _ => False) fun _ => .pure ?_
    exact fun _ _ h => h.elim
  · exact .pure fun st => left st _

/-- What computing the stage of a node does, names apart. -/
theorem cleanly_compute (hn : ∀ m ∈ n.preorder, Rule m.kind m.outline)
    (ih : ∀ m ∈ n.preorder, m.size < n.size → ∀ cx : Context,
      VisitsCleanly root store cx.pending m (visit root store env jumps cx m))
    (ahead : ∀ j < jumps, ∀ m ∈ root.preorder, ∀ cx : Context,
      VisitsCleanly root store cx.pending m (visit root store env j cx m))
    (hk : n.kind ≠ .identifier) :
    Cleanly (compute root store env jumps cx n) (Computes root store cx.pending n) := by
  have here := hn n n.mem_preorder_self
  have child {m : Node} (hm : m ∈ n.nodes) : m ∈ n.preorder :=
    Node.mem_preorder_of_mem_nodes n.mem_preorder_self hm
  have parts (m : Node) (hm : m ∈ n.nodes) (cx : Context) :=
    ih m (child hm) (Node.size_lt_of_mem hm) cx
  have all (hk : isComposite n.kind) (f : List Stage → Stage) (ha : ∀ ss, allows n.kind (f ss)) :
      Cleanly (visitAll root store env jumps cx n >>= fun ss => pure (f ss))
        (Computes root store cx.pending n) := .composite hk (cleanly_visitAll _ parts) f ha
  have walked (hk : isComposite n.kind) (s : Stage) (ha : allows n.kind s) :
      Cleanly (do discard (visitAll root store env jumps cx n); return s)
        (Computes root store cx.pending n) :=
    .composite hk (.discard (cleanly_visitAll _ parts)) (fun _ => s) fun _ => ha
  have leaf (hk : isComposite n.kind) (hl : n.kind.isLeaf) (s : Stage) (ha : allows n.kind s) :
      Cleanly (pure s) (Computes root store cx.pending n) :=
    .pure fun st => .node hk ha (.inl rfl) (here.nodes_leaf hl ▸ .done)
  have clauses (clause : Node) (hc : clause ∈ n.nodes) (m : Node) (hm : m ∈ clause.nodes)
      (cx : Context) :=
    ih m (Node.mem_preorder_of_mem_nodes (child hc) hm)
      (Nat.lt_trans (Node.size_lt_of_mem hm) (Node.size_lt_of_mem hc)) cx
  rw [compute]
  split
  -- most kinds visit all their parts, some have none, and the others have lemmas of their own
  all_goals first
    | (next h => exact absurd h hk)
    | (next h => exact walked (by rw [h]; rfl) _ (by rw [h]; rfl))
    | (next h => exact all (by rw [h]; rfl) _ fun _ => by rw [h]; rfl)
    | (next h => exact leaf (by rw [h]; rfl) (by rw [h]; rfl) _ (by rw [h]; rfl))
    | exact cleanly_unsupported parts _ _
    | (next h => exact cleanly_memberAccess here parts h)
    | (next h => exact cleanly_invocation parts h)
    | (next h => exact cleanly_assignment parts (.inl h))
    | (next h => exact cleanly_assignment parts (.inr h))
    | (next h => exact cleanly_localDeclaration parts h)
    | (next h => exact cleanly_declarator here parts ahead h)
    | (next h => exact cleanly_forEachStatement here parts h)
    | (next h => exact cleanly_jump here (.inl h))
    | (next h => exact cleanly_jump here (.inr h))
    | (next h => exact cleanly_ifStatement here parts h clauses)

theorem cleanly_forceSubtree (n : Node) : Cleanly (forceSubtree n) fun _ _ _ => True := by
  have each (m : Node) : Cleanly (do unsplice m.id; assign m.id .generationTime)
      fun _ _ _ => True :=
    .bind (.modify (fun _ => rfl) fun _ => rfl) fun _ =>
      (cleanly_assign m.id .generationTime).mono fun _ _ _ _ _ _ => trivial
  rw [forceSubtree]
  induction n.preorder with
  | nil => exact .pure fun _ => trivial
  | cons m ms ih => exact .bind (each m) fun _ => ih.mono fun _ _ _ _ _ _ => trivial

/-- How the stage that was computed for a node completes its visit. -/
structure Completes (root : Node) (store : FactStore) (cx : Context) (n : Node)
    (C : State → Stage → State → Prop) : Prop where
  forced : cx.forced ≠ none → n.kind.isExpression → ∀ st s mid st', (n.kind = .identifier → ∀ v,
    store.symbol? n = some v → v.isLocal → st.bindings.lookup v ≠ some .generated) →
    C st s mid → Settles n .generationTime mid st' →
    Runs root store (.visit cx.pending n) st st'
  spliced : cx.forced = none → n.kind.isExpression → ∀ st mid, C st .generationTime mid →
    Runs root store (.visit cx.pending n) st
      { mid.put n.id .generated with splices := n.id :: mid.splices }
  plain : cx.forced = none ∨ n.kind ≠ .identifier → ∀ st s mid,
    st.stages.lookup n.id = none → C st s mid →
    Runs root store (.visit cx.pending n) st (mid.put n.id s)

section

variable {C : State → Stage → State → Prop}
  (hcompute : Cleanly (compute root store env jumps cx n) C)
  (completes : Completes root store cx n C)

include hcompute completes

theorem cleanly_compel {reason : String} (hf : cx.forced = some reason)
    (he : n.kind.isExpression) :
    VisitsCleanly root store cx.pending n (compel root store env jumps cx n reason) := by
  rw [compel]
  refine .bind (cleanly_violation n) fun why => ?_
  dsimp only
  split
  · refine .bind (.report _ _ _ _ fun _ _ _ => False) fun _ => ?_
    refine .bind (cleanly_forceSubtree n) fun _ => .pure ?_
    exact fun _ _ _ _ h => h.elim
  · have computed : Cleanly (discard (compute root store env jumps cx n)) fun st _ mid =>
        ∃ s, C st s mid := .discard (hcompute.mono fun st s mid h => ⟨s, h⟩)
    refine .bind computed fun _ => .bind (.modify (fun _ => rfl) fun _ => rfl) fun _ => ?_
    refine .bind (cleanly_assign n.id .generationTime) fun _ => .pure ?_
    rintro _ _ rfl mid rfl _ ⟨s, hc⟩ st ⟨rfl, hfree⟩
    refine completes.forced (by simp [hf]) he _ s mid _ (hfree rfl) hc
      ⟨rfl, rfl, fun other ho => ?_, fun _ => .inr he⟩
    simp [State.put, ho]

theorem cleanly_settle (hf : (n.kind.isExpression && cx.forced.isSome) = false) :
    Cleanly (settle root store env jumps cx n) fun st _ st' =>
      st.stages.lookup n.id = none → Runs root store (.visit cx.pending n) st st' := by
  rw [settle]
  refine .bind hcompute fun s => ?_
  split
  · next hsplice =>
    obtain ⟨⟨he, rfl⟩, -⟩ : (n.kind.isExpression ∧ s = .generationTime) ∧ isDynamic store n := by
      simpa using hsplice
    refine .bind (.modify (fun _ => rfl) fun _ => rfl) fun _ => ?_
    refine .bind (cleanly_assign n.id .generated) fun _ => .pure ?_
    rintro _ _ rfl mid rfl st hc _
    exact completes.spliced (by simpa [he] using hf) he st mid hc
  · refine .bind (cleanly_assign n.id s) fun _ => .pure ?_
    rintro _ mid rfl st hc hnew
    refine completes.plain ?_ st s mid hnew hc
    by_cases hk : n.kind = .identifier
    · exact .inl (by simpa [hk, NodeKind.isExpression] using hf)
    · exact .inr hk

/-- A visit remembers the stage of a node or decides it. -/
theorem cleanly_visit (hm : n.stage? = none) :
    VisitsCleanly root store cx.pending n (visit root store env jumps cx n) := by
  rw [visit]
  simp only [hm]
  refine .bind .get fun st0 => ?_
  cases hf : n.kind.isExpression && cx.forced.isSome with
  | true =>
    obtain ⟨he, hsome⟩ := Bool.and_eq_true_iff.1 hf
    obtain ⟨reason, hr⟩ := Option.isSome_iff_exists.1 hsome
    have forced := cleanly_compel hcompute completes hr he
    simp only [hr, if_true]
    split
    · next s hs =>
      split
      · refine .pure ?_
        rintro mid _ ⟨rfl, rfl⟩
        exact .remembered hs
      · refine forced.mono ?_
        rintro mid _ st' h _ ⟨rfl, rfl⟩
        exact h
    · refine forced.mono ?_
      rintro mid _ st' h _ ⟨rfl, rfl⟩
      exact h
  | false =>
    simp only [Bool.not_false, Bool.true_or, if_true]
    split
    · next s hs =>
      refine .pure ?_
      rintro mid _ ⟨rfl, rfl⟩
      exact .remembered hs
    · next hs =>
      refine (cleanly_settle hcompute completes hf).mono ?_
      rintro mid _ st' h _ ⟨rfl, rfl⟩
      exact h (Option.eq_none_iff_forall_not_mem.2 fun s hs' => hs s hs')

end

/-- What the name of a local comes to, before it gets its stage. -/
def Names (store : FactStore) (cx : Context) (n : Node) (st : State) (s : Stage) (mid : State) :
    Prop :=
  (∀ v, store.symbol? n = some v → v.isLocal → v ∈ cx.pending) ∧ mid = st ∨
  ∃ v, store.symbol? n = some v ∧ v.isLocal ∧ v ∉ cx.pending ∧
    (cx.forced = none → s = (st.bindings.lookup v).getD .either ∧ mid = st) ∧
    (cx.forced ≠ none → mid = if (st.bindings.lookup v).getD .either = .either
      then st.hold v .generationTime else st)

theorem cleanly_identifier : Cleanly (identifier store env n cx) (Names store cx n) := by
  rw [identifier]
  split
  · next hv =>
    refine .pure fun st => .inl ⟨fun v h _ => ?_, rfl⟩
    cases hv.symm.trans h
  · next v hv =>
    have same {w : Symbol} (hw : store.symbol? n = some w) : v = w :=
      Option.some.inj (hv.symm.trans hw)
    split
    · next hl =>
      refine .pure fun st => .inl ⟨fun w hw h => ?_, rfl⟩
      cases same hw
      simp [h] at hl
    · next hl =>
      have hl : v.isLocal := by simpa using hl
      split
      · next hp =>
        refine .pure fun st => .inl ⟨fun w hw _ => ?_, rfl⟩
        cases same hw
        simpa using hp
      · next hp =>
        have hp : v ∉ cx.pending := by simpa using hp
        have named {st mid : State} {s : Stage}
            (free : cx.forced = none → s = (st.bindings.lookup v).getD .either ∧ mid = st)
            (forced : cx.forced ≠ none → mid = if (st.bindings.lookup v).getD .either = .either
              then st.hold v .generationTime else st) : Names store cx n st s mid :=
          .inr ⟨v, hv, hl, hp, free, forced⟩
        refine .bind (cleanly_binding? v) fun held => ?_
        split
        · next hf =>
          refine .bind (cleanly_bind v _) fun _ => .pure ?_
          rintro _ mid rfl st ⟨hb, rfl⟩
          exact named (fun h => by simp [hf] at h) fun _ => by simp [← hb]
        · next hf =>
          refine .bind (cleanly_bind v _) fun _ => .pure ?_
          rintro _ mid rfl st ⟨hb, rfl⟩
          exact named (fun h => by simp [hf] at h) fun _ => by simp [← hb]
        · next _ s hforced =>
          refine .pure ?_
          rintro _ st ⟨hb, rfl⟩
          refine named (fun _ => by simp [← hb]) fun hf => ?_
          obtain ⟨reason, hr⟩ := Option.ne_none_iff_exists'.1 hf
          have : s ≠ .either := by
            rintro rfl
            exact hforced reason hr rfl
          simp [← hb, this]
        · next hf =>
          refine .pure ?_
          rintro _ st ⟨hb, rfl⟩
          exact named (fun _ => by simp [← hb]) fun h => absurd hf h

theorem completes_names (hk : n.kind = .identifier) :
    Completes root store cx n (Names store cx n) := by
  refine ⟨fun hf _ st s mid st' hfree hnames settles => ?_, fun hf he st mid hnames => ?_,
    fun hf st s mid hnew hnames => ?_⟩
  · rcases hnames with ⟨free, rfl⟩ | ⟨v, hv, hl, hp, -, forced⟩
    · exact .free hk free settles
    · exact .coerced hk hv hl hp (hfree hk v hv hl) (forced hf ▸ settles)
  · rcases hnames with ⟨free, rfl⟩ | ⟨v, hv, hl, hp, named, -⟩
    · refine .free hk free ⟨rfl, rfl, fun other ho => ?_, fun _ => .inr he⟩
      simp [ho]
    · obtain ⟨hs, rfl⟩ := named hf
      cases hb : mid.bindings.lookup v with
      | none => simp [hb] at hs
      | some s =>
        simp only [hb, Option.getD_some] at hs
        exact .spliced hk hv hl hp (hs ▸ hb)
  · rcases hnames with ⟨free, rfl⟩ | ⟨v, hv, hl, hp, named, -⟩
    · exact .free hk free (settles_put mid n s)
    · obtain ⟨rfl, rfl⟩ := named (hf.resolve_right fun h => h hk)
      exact .read hk hv hl hp hnew

theorem completes_computes :
    Completes root store cx n (Computes root store cx.pending n) := by
  refine ⟨fun _ he st s mid st' _ computes settles => ?_, fun _ he st mid computes => ?_,
    fun _ st s mid _ computes => computes s _ (settles_put mid n s) fun _ => rfl⟩
  · exact computes _ st' settles fun h => by simp [he] at h
  · refine computes _ _ ⟨rfl, rfl, fun other ho => ?_, fun _ => .inr he⟩ fun h => by simp [he] at h
    simp [ho]

end

/-- A visit that ends clean started clean and is a run. -/
theorem Cleanly.visit {root : Node} {store : FactStore} {env : Environment}
    (hroot : ∀ m ∈ root.preorder, m.stage? = none ∧ Rule m.kind m.outline) (jumps : Nat)
    (cx : Context) (n : Node) (hn : n ∈ root.preorder) :
    VisitsCleanly root store cx.pending n (visit root store env jumps cx n) := by
  have ih : ∀ m ∈ n.preorder, m.size < n.size → ∀ cx : Context,
      VisitsCleanly root store cx.pending m (Staging.visit root store env jumps cx m) :=
    fun m hm hsize cx => Cleanly.visit hroot jumps cx m (Node.preorder_trans hn hm)
  have ahead : ∀ j < jumps, ∀ m ∈ root.preorder, ∀ cx : Context,
      VisitsCleanly root store cx.pending m (Staging.visit root store env j cx m) :=
    fun j hj m hm cx => Cleanly.visit hroot j cx m hm
  by_cases hk : n.kind = .identifier
  · refine cleanly_visit ?_ (completes_names hk) (hroot n hn).1
    rw [compute, hk]
    exact cleanly_identifier
  · refine cleanly_visit (cleanly_compute ?_ ih ahead hk) completes_computes (hroot n hn).1
    exact fun m hm => (hroot m (Node.preorder_trans hn hm)).2
termination_by (jumps, n.size)

end Stencil.Staging
