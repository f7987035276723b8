import Stencil.Proofs.Session.Classified
import Stencil.Proofs.Staging.Steps
import Stencil.Quotation.WrappedCall

/-!
# Jumps and the loops they leave
-/
namespace Stencil.Staging

/-! ## Parts that hold no statements -/

/-- Kinds of nodes that hold no statements where every construct has a staged meaning. -/
def isInert (k : NodeKind) : Bool := k.isExpression || k == .typeName

/-- Slots that take inert nodes only. -/
def takesInert (s : Slot) : Bool := s.takesExpressions || s == .node .typeName

theorem isInert_of_admits {s : Slot} (hs : takesInert s) {k : NodeKind} (h : s.admits (.node k)) :
    isInert k := by
  cases s <;> simp_all [takesInert, isInert, Slot.takesExpressions, Slot.admits]

theorem isInert_child {n m : Node} (h : n.FitsKind)
    (hk : (places n.kind).all fun p => takesInert p.slot) (hm : m ∈ n.nodes) : isInert m.kind :=
  h.forall_node (P := fun k => isInert k)
    (fun p hp _ hk' => isInert_of_admits (List.all_eq_true.1 hk p hp) hk') _
    (List.mem_map_of_mem (f := Child.outline) (Node.mem_nodes.1 hm))

theorem isSupported_of_construct? {n : Node} (h : construct? n = none) : isSupported n.kind := by
  by_contra hs
  rw [construct?, if_pos (by simpa using hs)] at h
  cases h

/-- Below an expression there are no statements. -/
theorem isInert_below {n m : Node} (laid : n.Laid)
    (supported : ∀ x ∈ n.preorder, isSupported x.kind) (hk : isInert n.kind)
    (hm : m ∈ n.preorder) : isInert m.kind := by
  rcases Node.mem_preorder.1 hm with rfl | ⟨c, hc, hm⟩
  · exact hk
  · have := Node.size_lt_of_mem hc
    have hs := supported n n.mem_preorder_self
    have inert : (places n.kind).all fun p => takesInert p.slot := by
      generalize n.kind = k at hk hs
      cases k <;> first | rfl | contradiction
    have child := isInert_child laid.here inert hc
    refine isInert_below (laid.child hc) (fun x hx => supported x ?_) child hm
    exact Node.mem_preorder.2 (.inr ⟨c, hc, hx⟩)
termination_by n.size

/-- The node is not looked at ahead of time. -/
def Plain (root n : Node) : Prop := ∀ e, Ahead root e → n ∉ e.preorder

theorem Ahead.isExpression {root e : Node} (hr : ∀ m ∈ root.preorder, Rule m.kind m.outline)
    (h : Ahead root e) : e.kind.isExpression := by
  obtain ⟨n, hn, ⟨hk, he⟩ | ⟨hk | hk, he⟩⟩ := h
  · exact (hr n hn).value_isExpression hk he
  · exact (hr n hn).first_isExpression (.inr (.inr hk)) he
  · obtain ⟨source, body, hnodes, hs, -⟩ := (hr n hn).nodes_forEach hk
    obtain rfl : source = e := by simpa [Node.node?, hnodes] using he
    exact hs

/-- A tree that was annotated, in which every construct has a staged meaning. -/
structure Meaningful (root : Node) : Prop extends Pristine root where
  supported : ∀ m ∈ root.preorder, construct? m = none

namespace Meaningful

variable {root : Node} (h : Meaningful root)

include h

theorem inert_below {e m : Node} (he : e ∈ root.preorder) (hk : isInert e.kind)
    (hm : m ∈ e.preorder) : isInert m.kind :=
  isInert_below (h.laid.below he)
    (fun x hx => isSupported_of_construct? (h.supported x (Node.preorder_trans he hx))) hk hm

/-- Statements are not looked at ahead of time. -/
theorem plain {m : Node} (hk : isInert m.kind = false) : Plain root m := by
  intro e he hm
  have inert : isInert e.kind := by simp [isInert, he.isExpression h.rules]
  rw [h.inert_below he.mem inert hm] at hk
  cases hk

/-- What a variable is declared with is not looked at ahead of time. -/
theorem plain_initializer {d value : Node} (hd : d ∈ root.preorder) (hk : d.kind = .declarator)
    (hv : value ∈ d.nodes) : Plain root value := by
  intro e he hm
  have inert : isInert e.kind := by simp [isInert, he.isExpression h.rules]
  rcases Node.exists_parent hm with rfl | ⟨p, hp, hv'⟩
  · obtain ⟨n, hn, ⟨hk', hv'⟩ | ⟨hk', hv'⟩⟩ := he <;>
      obtain rfl := h.numbered.parent_unique hd hn hv (Node.mem_of_node? hv') <;> simp [hk] at hk'
  · -- the declarator is the only parent of the value, so it would stand below `e`
    obtain rfl := h.numbered.parent_unique hd (Node.preorder_trans he.mem hp) hv hv'
    have inner := h.inert_below he.mem inert hp
    rw [hk] at inner
    cases inner

end Meaningful

/-! ## Visits one after the other -/

/-- What holds after the action, if it ends. -/
def After (st : State) {α : Type} (act : Classifier α) (R : α → State → Prop) : Prop :=
  ∀ a st', act.run st = .ok (a, st') → R a st'

namespace After

variable {α β : Type} {st : State} {R : α → State → Prop} {T : β → State → Prop}

theorem bind {act : Classifier α} {k : α → Classifier β} (h : After st act R)
    (hk : ∀ a mid, R a mid → After mid (k a) T) : After st (act >>= k) T := by
  intro b st' hr
  rw [StateT.run_bind] at hr
  cases ha : act.run st with
  | error e => rw [ha] at hr; cases hr
  | ok r =>
    rw [ha] at hr
    exact hk r.1 r.2 (h r.1 r.2 ha) b st' hr

theorem pure {a : α} (h : R a st) : After st (Pure.pure a) R := by
  intro b st' hr
  cases hr
  exact h

theorem mono {R' : α → State → Prop} {act : Classifier α} (h : After st act R)
    (hR : ∀ a st', R a st' → R' a st') : After st act R' :=
  fun a st' hr => hR a st' (h a st' hr)

theorem and {R' : α → State → Prop} {act : Classifier α} (h : After st act R)
    (h' : After st act R') : After st act fun a st' => R a st' ∧ R' a st' :=
  fun a st' hr => ⟨h a st' hr, h' a st' hr⟩

theorem trivial {act : Classifier α} (h : ∀ a st', R a st') : After st act R :=
  fun a st' _ => h a st'

theorem discard {act : Classifier α} {R : State → Prop} (h : After st act fun _ st' => R st') :
    After st (discard act) fun _ st' => R st' := by
  rw [Pass.discard_eq]
  exact .bind h fun _ _ hr => .pure hr

end After

/-! ## What later visits leave alone -/

section

variable {root : Node} {W : Set Node} {st st' : State} {n : Node}

/-- What is known of a number that is none of `W` stays. -/
theorem Steps.keeps (h : Steps W st st') {id : Nat} (hid : ∀ w ∈ W, w.id ≠ id) :
    st'.stages.lookup id = st.stages.lookup id ∧
      ∀ c, (id, c) ∈ st'.reported ↔ (id, c) ∈ st.reported := by
  induction h with
  | refl => exact ⟨rfl, fun _ => .rfl⟩
  | tail _ step ih =>
    cases step with
    | put hn s =>
      refine ⟨Eq.trans ?_ ih.1, ih.2⟩
      rw [State.put, List.lookup_cons, beq_eq_false_iff_ne.2 (hid _ hn).symm]
    | hold | splices => exact ih
    | tell hn =>
      refine ⟨ih.1, fun c => Iff.trans ?_ (ih.2 c)⟩
      have apart := (hid _ hn).symm
      simp [State.tell, apart]

/-- No number of `W` is that of a node of the subtree, but for those looked at ahead of time. -/
def Spares (root : Node) (W : Set Node) (n : Node) : Prop :=
  ∀ x ∈ n.preorder, Plain root x → ∀ w ∈ W, w.id ≠ x.id

/-- Nothing is known of the nodes of the subtree, but for those looked at ahead of time. -/
def Fresh (root : Node) (st : State) (n : Node) : Prop :=
  ∀ x ∈ n.preorder, Plain root x → st.stages.lookup x.id = none ∧ ∀ c, (x.id, c) ∉ st.reported

theorem Fresh.steps (h : Fresh root st n) (hs : Steps W st st') (spares : Spares root W n) :
    Fresh root st' n := by
  intro x hx plain
  obtain ⟨unknown, unreported⟩ := h x hx plain
  obtain ⟨stages, reported⟩ := hs.keeps (spares x hx plain)
  exact ⟨stages.trans unknown, fun c hc => unreported c ((reported c).1 hc)⟩

theorem Fresh.below {m : Node} (h : Fresh root st n) (hm : m ∈ n.preorder) : Fresh root st m :=
  fun x hx => h x (Node.preorder_trans hm hx)

/-- A visit spares what stands beside its node. -/
theorem spares_of_disjoint (hu : Distinct root) {m : Node} (hn : n ∈ root.preorder)
    (hd : m.Disjoint n) : Spares root (Within root m) n := by
  rintro x hx plain w (hw | ⟨e, he, hw⟩) hid
  · exact hd w hw x hx hid
  · rw [hu w (Node.preorder_trans he.mem hw) x (Node.preorder_trans hn hx) hid] at hw
    exact plain e he hw

end

/-! ## Settings of jumps -/

/-- What decides about a jump: the stage of the nearest loop, and whether a generated condition
stands between. -/
structure Setting where
  loop : Option Stage
  crossed : Bool

def Context.setting (cx : Context) : Setting := ⟨cx.loop, cx.crossed.isSome⟩

/-- The setting under a generated condition. -/
def Setting.cross (s : Setting) : Setting :=
  ⟨s.loop, s.crossed || s.loop == some .generationTime⟩

/-- The setting inside a node of the stage `s`. -/
def enter (s : Option Stage) (cx : Setting) (p : Node) : Setting :=
  if p.kind = .forEachStatement then ⟨s, false⟩
  else if p.kind = .ifStatement ∧ s = some .generated then cx.cross
  else cx

/-- The setting at the end of a way down, by the stages of the nodes on the way. -/
def settingAt (st : State) (cx : Setting) (steps : List (Node × Node)) : Setting :=
  steps.foldr (fun step cx => enter (st.stages.lookup step.1.id) cx step.1) cx

theorem enter_of_kind {p : Node} (h : p.kind ≠ .forEachStatement ∧ p.kind ≠ .ifStatement)
    (s : Option Stage) (cx : Setting) : enter s cx p = cx := by
  rw [enter, if_neg h.1, if_neg fun hp => h.2 hp.1]

theorem settingAt_cons (st : State) (cx : Setting) (step : Node × Node)
    (rest : List (Node × Node)) :
    settingAt st cx (step :: rest) =
      enter (st.stages.lookup step.1.id) (settingAt st cx rest) step.1 := rfl

theorem settingAt_snoc (st : State) (cx : Setting) (steps : List (Node × Node)) (n c : Node) :
    settingAt st cx (steps ++ [(n, c)]) =
      settingAt st (enter (st.stages.lookup n.id) cx n) steps := by
  rw [settingAt, List.foldr_append]
  rfl

theorem settingAt_congr {st st' : State} {cx : Setting} {steps : List (Node × Node)}
    (h : ∀ step ∈ steps, step.1.kind = .forEachStatement ∨ step.1.kind = .ifStatement →
      st'.stages.lookup step.1.id = st.stages.lookup step.1.id) :
    settingAt st' cx steps = settingAt st cx steps := by
  induction steps with
  | nil => rfl
  | cons step rest ih =>
    obtain ⟨here, there⟩ := List.forall_mem_cons.1 h
    have inner : settingAt st' cx rest = settingAt st cx rest := ih there
    rw [settingAt_cons, settingAt_cons, inner]
    by_cases hk : step.1.kind = .forEachStatement ∨ step.1.kind = .ifStatement
    · rw [here hk]
    · rw [not_or] at hk
      rw [enter_of_kind hk, enter_of_kind hk]

theorem setting_under {cx : Context} (reason : String) :
    (cx.under reason).setting = cx.setting.cross := by
  obtain ⟨forced, condition, loop, crossed, pending⟩ := cx
  cases crossed <;> simp [Context.under, Context.setting, Setting.cross, Context.crosses]
  split <;> simp_all

/-- Where no further condition is asked for, another one changes nothing. -/
theorem setting_of_not_wantsCondition {cx : Context} (h : ¬cx.wantsCondition) :
    cx.setting = cx.setting.cross := by
  obtain ⟨forced, condition, loop, crossed, pending⟩ := cx
  simp only [Context.wantsCondition, Context.crosses, Bool.or_eq_true, not_or] at h
  cases crossed <;> simp_all [Context.setting, Setting.cross]

theorem after_selected {cx : Context} {phrase : String} {selector : Node} {st : State} :
    After st (selected cx phrase selector) fun inner st' =>
      st' = st ∧ inner.setting = cx.setting.cross ∧ inner.forced = cx.forced := by
  unfold selected
  split
  · refine .bind (R := fun _ mid => mid = st) (fun a st' h => ?_) fun text mid hm => .pure ?_
    · cases hx : selector.compact with
      | error e => rw [hx] at h; cases h
      | ok b => rw [hx] at h; cases h; rfl
    · exact ⟨hm, setting_under _, rfl⟩
  · next h => exact .pure ⟨rfl, setting_of_not_wantsCondition h, rfl⟩

/-! ## What is known of statements that were visited -/

/-- What is known of a statement after its visit. -/
structure Recorded (store : FactStore) (st : State) (cx : Setting) (n : Node) : Prop where
  known : st.Knows n.id
  jump : n.kind = .breakStatement ∨ n.kind = .continueStatement →
    st.stages.lookup n.id = some (cx.loop.getD .either) ∧
      ((n.id, .jumpInGeneratedBranch) ∈ st.reported ↔ cx.crossed)
  /-- a variable declared alone with the wrapped call is generated -/
  wrapped : n.kind = .localDeclaration → ∀ d call, n.nodes = [d] → d.nodes = [call] →
    (Quotation.wrappedForm? store call).isSome → st.stages.lookup n.id = some .generated

/-- All statements of the subtree were visited in their settings. -/
def Records (store : FactStore) (st : State) (cx : Setting) (n : Node) : Prop :=
  ∀ m ∈ n.preorder, isInert m.kind = false → ∀ steps, n.above m.id = some steps →
    Recorded store st (settingAt st cx steps) m

section

variable {root n : Node} {store : FactStore} {W : Set Node} {st st' : State} {cx : Setting}

theorem isInert_of_kind {p : Node} (h : p.kind = .forEachStatement ∨ p.kind = .ifStatement) :
    isInert p.kind = false := by
  rcases h with h | h <;> rw [h] <;> rfl

theorem Records.steps (hr : Meaningful root) (h : Records store st cx n)
    (hs : Steps W st st') (spares : Spares root W n) :
    Records store st' cx n := by
  have keeps {x : Node} (hx : x ∈ n.preorder) (hk : isInert x.kind = false) :=
    hs.keeps (spares x hx (hr.plain hk))
  intro m hm hk steps habove
  have same : settingAt st' cx steps = settingAt st cx steps := settingAt_congr
    fun step hstep hkind => (keeps (Node.mem_preorder_of_mem_above habove hstep)
      (isInert_of_kind hkind)).1
  obtain ⟨known, jump, wrapped⟩ := h m hm hk steps habove
  obtain ⟨stages, reported⟩ := keeps hm hk
  refine ⟨by rwa [State.Knows, stages], ?_, by rwa [stages]⟩
  rw [same, stages, reported]
  exact jump

theorem Records.of_inert (hr : Meaningful root) (hn : n ∈ root.preorder) (hk : isInert n.kind) :
    Records store st cx n := by
  intro m hm hm'
  rw [hr.inert_below hn hk hm] at hm'
  cases hm'

theorem Records.of_nodes (hn : n.Numbered) (here : isInert n.kind = false → Recorded store st cx n)
    (parts : ∀ c ∈ n.nodes, Records store st (enter (st.stages.lookup n.id) cx n) c) :
    Records store st cx n := by
  intro m hm hk steps habove
  rcases Node.mem_preorder.1 hm with rfl | ⟨c, hc, hm⟩
  · rw [Node.above_self] at habove
    cases habove
    exact here hk
  · rw [hn.above_child hc hm] at habove
    obtain ⟨inner, hi, rfl⟩ := Option.map_eq_some_iff.1 habove
    rw [settingAt_snoc]
    exact parts c hc m hm hk inner hi

end

/-! ## Statements are visited once -/

/-- The wrapped call is generated where it is not looked at ahead of time, and so is a variable that
is declared with it. -/
structure Yields (root : Node) (store : FactStore) (n : Node) (s : Stage) : Prop where
  call : Plain root n → (Quotation.wrappedForm? store n).isSome → s = .generated
  declarator : n.kind = .declarator → ∀ call, n.nodes = [call] →
    (Quotation.wrappedForm? store call).isSome → s = .generated

theorem Yields.of_kind {root n : Node} {store : FactStore} {s : Stage}
    (h : n.kind ≠ .invocation ∧ n.kind ≠ .declarator) : Yields root store n s :=
  ⟨fun _ hw => by simp [Quotation.wrappedForm?, h.1] at hw, fun hk => absurd hk h.2⟩

/-- A visit of a fresh node records its statements. -/
def Visits (root : Node) (store : FactStore) (cx : Setting) (n : Node) {α : Type}
    (act : Classifier α) (Q : α → Prop) : Prop :=
  ∀ st, Fresh root st n → After st act fun a st' =>
    Steps (Within root n) st st' ∧ Records store st' cx n ∧ Q a

theorem forM_eq_discard {α : Type} (act : α → Classifier PUnit) (xs : List α) :
    xs.forM act = discard (xs.mapM act) := by
  induction xs with
  | nil => rfl
  | cons x xs ih =>
    change (act x >>= fun _ => xs.forM act) = _
    rw [Pass.discard_eq] at ih
    rw [ih, Pass.discard_eq, List.mapM_cons]
    simp only [bind_assoc, pure_bind]

/-- Where visits of some nodes make changes. -/
def WithinAll (root : Node) (ns : List Node) : Set Node := {w | ∃ m ∈ ns, w ∈ Within root m}

section

variable {root : Node} {store : FactStore} {env : Environment} {jumps : Nat} {cx : Setting}
  {α : Type} {f : α → Node}

theorem Visits.ignore {β : Type} {n : Node} {act : Classifier β} {Q : β → Prop}
    (h : Visits root store cx n act Q) :
    Visits root store cx n (discard act) fun _ => True := by
  intro st fresh
  exact .discard ((h st fresh).mono fun a st' h => ⟨h.1, h.2.1, trivial⟩)

theorem within_subset_withinAll {ns : List Node} {m : Node} (hm : m ∈ ns) :
    Within root m ⊆ WithinAll root ns := fun _ hx => ⟨m, hm, hx⟩

theorem spares_withinAll (hu : Distinct root) {ns : List Node} {m : Node} (hm : m ∈ root.preorder)
    (hd : ∀ n ∈ ns, n.Disjoint m) : Spares root (WithinAll root ns) m := by
  rintro x hx plain w ⟨n, hn, hw⟩
  exact spares_of_disjoint hu hm (hd n hn) x hx plain w hw

variable (hr : Meaningful root) (xs : List α) (inside : ∀ x ∈ xs, f x ∈ root.preorder)
  (apart : (xs.map f).Pairwise Node.Disjoint)

include hr inside apart

theorem after_mapM {β : Type} {act : α → Classifier β} {Q : α → β → Prop}
    (h : ∀ x ∈ xs, Visits root store cx (f x) (act x) (Q x)) {st : State}
    (fresh : ∀ x ∈ xs, Fresh root st (f x)) :
    After st (xs.mapM act) fun bs st' => Steps (WithinAll root (xs.map f)) st st' ∧
      (∀ x ∈ xs, Records store st' cx (f x)) ∧ List.Forall₂ Q xs bs := by
  induction xs generalizing st with
  | nil => exact .pure ⟨.refl, nofun, .nil⟩
  | cons x xs ih =>
    obtain ⟨here, there⟩ := List.pairwise_cons.1 apart
    obtain ⟨inHere, inThere⟩ := List.forall_mem_cons.1 inside
    have disjoint (y : α) (hy : y ∈ xs) : (f x).Disjoint (f y) := here _ (List.mem_map_of_mem hy)
    rw [List.mapM_cons]
    refine .bind (h x List.mem_cons_self st (fresh x List.mem_cons_self)) ?_
    rintro b mid ⟨steps, records, hb⟩
    refine .bind (ih inThere there (fun y hy => h y (List.mem_cons_of_mem _ hy)) fun y hy => ?_) ?_
    · exact (fresh y (List.mem_cons_of_mem _ hy)).steps steps
        (spares_of_disjoint hr.apart (inThere y hy) (disjoint y hy))
    · rintro bs st' ⟨steps', records', hbs⟩
      refine .pure ⟨?_, List.forall_mem_cons.2 ⟨?_, records'⟩, .cons hb hbs⟩
      · refine (steps.mono (within_subset_withinAll (by simp))).trans (steps'.mono ?_)
        rintro w ⟨m, hm, hw⟩
        exact ⟨m, by simp [hm], hw⟩
      · refine records.steps hr steps' (spares_withinAll hr.apart inHere ?_)
        intro n hn y hy z hz he
        exact here n hn z hz y hy he.symm

theorem after_forM {act : α → Classifier PUnit}
    (h : ∀ x ∈ xs, Visits root store cx (f x) (act x) fun _ => True) {st : State}
    (fresh : ∀ x ∈ xs, Fresh root st (f x)) :
    After st (xs.forM act) fun _ st' => ∀ x ∈ xs, Records store st' cx (f x) := by
  rw [forM_eq_discard]
  exact .discard ((after_mapM hr xs inside apart h fresh).mono fun _ _ h => h.2.1)

end

/-- What the computation of a stage leaves for a statement. -/
structure Computed (root : Node) (store : FactStore) (cx : Setting) (n : Node) (s : Stage)
    (mid : State) : Prop where
  parts : ∀ c ∈ n.nodes, Records store mid (enter (some s) cx n) c
  jump : n.kind = .breakStatement ∨ n.kind = .continueStatement →
    s = cx.loop.getD .either ∧ ((n.id, .jumpInGeneratedBranch) ∈ mid.reported ↔ cx.crossed)
  wrapped : n.kind = .localDeclaration → ∀ d call, n.nodes = [d] → d.nodes = [call] →
    (Quotation.wrappedForm? store call).isSome → s = .generated
  yields : Yields root store n s

section

variable {root n : Node} {store : FactStore} {env : Environment} {jumps : Nat} {cx : Context}
  {st : State}

theorem after_report {complaint : Complaint} {message : String}
    {properties : List (String × String)}
    (fits : Fits n ⟨complaint, .classification, n.span, message, properties⟩) :
    After st (report n complaint message properties) fun _ st' =>
      Steps {n} st st' ∧ (n.id, complaint) ∈ st'.reported :=
  fun _ _ h =>
    have run := run_report (W := {n}) (Set.mem_singleton n) fits h
    ⟨run.1, run.2.2⟩

/-- A node of which nothing is known and that is not forced is settled. -/
theorem after_settle {R T : Stage → State → Prop} (hm : n.stage? = none)
    (hf : (n.kind.isExpression && cx.forced.isSome) = false)
    (hst : st.stages.lookup n.id = none)
    (h : After st (compute root store env jumps cx n) R)
    (hs : ∀ s mid, R s mid → n.kind.isExpression → s ≠ .generationTime)
    (hR : ∀ s mid, R s mid → T s (mid.put n.id s)) :
    After st (visit root store env jumps cx n) T := by
  have settled : After st (settle root store env jumps cx n) T := by
    rw [settle]
    refine .bind h fun s mid hr => ?_
    split
    · next hsplice =>
      simp only [Bool.and_eq_true, decide_eq_true_eq] at hsplice
      exact absurd hsplice.1.2 (hs s mid hr hsplice.1.1)
    · refine .bind (R := fun _ st' => st' = mid.put n.id s) ?_ fun _ st' hst' => ?_
      · intro a st' h
        cases h
        rfl
      · exact .pure (hst' ▸ hR s mid hr)
  intro a st' hv
  rw [visit] at hv
  simp only [hm, hf, StateT.run_bind, StateT.run_get, pure_bind, hst, Bool.false_eq_true,
    if_false] at hv
  exact settled a st' hv

/-- Nothing is reported about the children of a node when something is reported about it. -/
theorem spares_singleton (hn : n.Numbered) {c : Node} (hc : c ∈ n.nodes) : Spares root {n} c := by
  rintro x hx - w rfl
  exact (hn.id_ne hc hx).symm

/-- A computation that leaves what it should completes the visit of a statement. -/
theorem Computed.records (hr : Meaningful root) (hn : n ∈ root.preorder) {s : Stage} {mid : State}
    (h : Computed root store cx.setting n s mid) :
    Records store (mid.put n.id s) cx.setting n := by
  have numbered := hr.numbered.below hn
  have here : (mid.put n.id s).stages.lookup n.id = some s := by simp [State.put]
  refine .of_nodes numbered (fun _ => ⟨by rw [State.Knows, here]; rfl, fun hk => ?_, ?_⟩) ?_
  · rw [here, (h.jump hk).1]
    exact ⟨rfl, (h.jump hk).2⟩
  · rw [here]
    exact fun hk d call hd hc hw => congrArg some (h.wrapped hk d call hd hc hw)
  · intro c hc
    rw [here]
    refine (h.parts c hc).steps hr (.single (.put (W := {n}) rfl s mid)) ?_
    exact spares_singleton numbered hc

section

variable (hr : Meaningful root) (hn : n ∈ root.preorder) (fresh : Fresh root st n)
  (hf : cx.forced = none)

include hr hn

/-- Nodes without statements leave nothing to record, but for variables with the wrapped call. -/
theorem computed_quiet (hq : (places n.kind).all fun p => takesInert p.slot)
    (hk : n.kind ∉ [.breakStatement, .continueStatement, .localDeclaration]) {s : Stage}
    {mid : State} (hy : Yields root store n s) : Computed root store cx.setting n s mid := by
  simp only [List.mem_cons, List.not_mem_nil, or_false, not_or] at hk
  refine ⟨fun c hc => ?_, fun h => absurd h (by simp [hk]), fun h => absurd h hk.2.2, hy⟩
  exact .of_inert hr (Node.mem_preorder_of_mem_nodes hn hc)
    (isInert_child (hr.laid n hn) hq hc)

include fresh in
theorem after_jump (hk : n.kind = .breakStatement ∨ n.kind = .continueStatement) :
    After st (jump n cx) (Computed root store cx.setting n) := by
  have nodes : n.nodes = [] :=
    (hr.rules n hn).nodes_leaf (by rcases hk with hk | hk <;> rw [hk] <;> rfl)
  have inert : isInert n.kind = false := by rcases hk with hk | hk <;> rw [hk] <;> rfl
  have left {mid : State} (h : (n.id, .jumpInGeneratedBranch) ∈ mid.reported ↔ cx.crossed.isSome) :
      Computed root store cx.setting n cx.jumpStage mid :=
    ⟨by simp [nodes], fun _ => ⟨rfl, h⟩, by rcases hk with hk | hk <;> simp [hk],
      .of_kind (by rcases hk with hk | hk <;> simp [hk])⟩
  rw [jump]
  split
  · next reason hc =>
    refine .bind (after_report (.atJump hk)) fun _ mid h => ?_
    exact .pure (left (by simp [h.2, hc]))
  · next hc =>
    have new := (fresh n n.mem_preorder_self (hr.plain inert)).2 .jumpInGeneratedBranch
    refine .pure (left ?_)
    cases hcr : cx.crossed with
    | none => simp [new]
    | some reason => exact absurd hcr (hc reason)

variable (ih : ∀ m ∈ n.nodes, ∀ cx : Context, cx.forced = none →
  Visits root store cx.setting m (visit root store env jumps cx m) (Yields root store m))

include ih

theorem visits_visitAll {cx : Context} (hf : cx.forced = none) (fresh : Fresh root st n) :
    After st (visitAll root store env jumps cx n) fun ss mid =>
      Steps (WithinAll root n.nodes) st mid ∧
      (∀ m ∈ n.nodes, Records store mid cx.setting m) ∧
      List.Forall₂ (Yields root store) n.nodes ss := by
  rw [visitAll]
  have all := after_mapM hr (f := Subtype.val) n.nodes.attach
    (fun x _ => Node.mem_preorder_of_mem_nodes hn x.2)
    (by rw [List.attach_map_subtype_val]; exact (hr.numbered.below hn).siblings)
    (fun x _ => ih x.1 x.2 cx hf)
    (fun x _ => fresh.below (Node.mem_preorder_of_mem_nodes n.mem_preorder_self x.2))
  rw [List.attach_map_subtype_val] at all
  refine all.mono ?_
  rintro ss mid ⟨steps, records, yields⟩
  refine ⟨steps, fun m hm => ?_, ?_⟩
  · exact records ⟨m, hm⟩ (List.mem_attach _ _)
  · rw [← List.attach_map_subtype_val n.nodes]
    exact List.forall₂_map_left_iff.2 yields

/-- What a branch of an `if` comes to, an `else` included. -/
theorem visits_branch {inner : Context} (hi : inner.forced = none) (s : Stage) {m : Node}
    (hm : m ∈ n.nodes)
    (ih' : ∀ x ∈ m.nodes, ∀ cx : Context, cx.forced = none →
      Visits root store cx.setting x (visit root store env jumps cx x) (Yields root store x)) :
    Visits root store inner.setting m (do
      if m.kind = .elseClause then
        discard (visitAll root store env jumps inner m)
        assign m.id s
      else discard (visit root store env jumps inner m)) fun _ => True := by
  split
  · next hc =>
    intro st fresh
    have inside := Node.mem_preorder_of_mem_nodes hn hm
    refine .bind (.discard ((visits_visitAll hr inside ih' hi fresh).mono
      fun _ _ h => (⟨h.1, h.2.1⟩ : _ ∧ _))) ?_
    rintro _ mid ⟨steps, records⟩
    have computed : Computed root store inner.setting m s mid := by
      refine ⟨fun c hc' => ?_, by simp [hc], by simp [hc], Yields.of_kind (by simp [hc])⟩
      rw [enter_of_kind (by simp [hc])]
      exact records c hc'
    intro a st' ha
    cases ha
    refine ⟨.tail (steps.mono ?_) (.put (.inl m.mem_preorder_self) s mid),
      computed.records hr inside, trivial⟩
    rintro w ⟨x, hx, hw⟩
    exact within_subset (Node.mem_preorder_of_mem_nodes m.mem_preorder_self hx) hw
  · exact (ih m hm inner hi).ignore

include fresh hf

theorem after_parts (hk : n.kind ≠ .forEachStatement ∧ n.kind ≠ .ifStatement)
    (hk' : n.kind ∉ [.breakStatement, .continueStatement, .localDeclaration])
    (hy : n.kind ≠ .invocation ∧ n.kind ≠ .declarator) (s : Stage) :
    After st (do discard (visitAll root store env jumps cx n); return s)
      (Computed root store cx.setting n) := by
  simp only [List.mem_cons, List.not_mem_nil, or_false, not_or] at hk'
  refine .bind (.discard ((visits_visitAll hr hn ih hf fresh).mono fun _ _ h => h.2.1)) ?_
  intro _ mid records
  refine .pure ⟨fun c hc => ?_, by simp [hk'], by simp [hk'], Yields.of_kind hy⟩
  rw [enter_of_kind hk]
  exact records c hc

theorem after_localDeclaration (hk : n.kind = .localDeclaration) :
    After st (localDeclaration root store env jumps cx n) (Computed root store cx.setting n) := by
  rw [localDeclaration]
  refine .bind (visits_visitAll hr hn ih hf fresh) ?_
  rintro ss mid ⟨-, records, yields⟩
  have computed {st' : State} (steps : Steps {n} mid st') :
      Computed root store cx.setting n (Stage.combine ss) st' := by
    refine ⟨fun c hc => ?_, by simp [hk], fun _ d call hd hc hw => ?_, .of_kind (by simp [hk])⟩
    · rw [enter_of_kind (by simp [hk])]
      exact (records c hc).steps hr steps (spares_singleton (hr.numbered.below hn) hc)
    · have kind := (hr.rules n hn).nodes_localDeclaration hk d (by simp [hd])
      rw [hd] at yields
      obtain ⟨s, rest, hs, hrest, rfl⟩ := List.forall₂_cons_left_iff.1 yields
      cases hrest
      rw [hs.declarator kind call hc hw]
      rfl
  dsimp only
  split
  · exact .bind (after_report (.aboutLocal (.inr rfl))) fun _ st' h => .pure (computed h.1)
  · exact .pure (computed .refl)

theorem after_ifStatement (hk : n.kind = .ifStatement)
    (ih' : ∀ clause ∈ n.nodes, ∀ m ∈ clause.nodes, ∀ cx : Context, cx.forced = none →
      Visits root store cx.setting m (visit root store env jumps cx m) (Yields root store m)) :
    After st (ifStatement root store env jumps cx n) (Computed root store cx.setting n) := by
  have quiet {s : Stage} {mid : State}
      (parts : ∀ c ∈ n.nodes, Records store mid (enter (some s) cx.setting n) c) :
      Computed root store cx.setting n s mid :=
    ⟨parts, by simp [hk], by simp [hk], Yields.of_kind (by simp [hk])⟩
  have child {m : Node} (hm : m ∈ n.nodes) := Node.mem_preorder_of_mem_nodes hn hm
  rw [ifStatement]
  split
  · next h => exact .pure (quiet (by simp [h]))
  · next condition branches h =>
    have siblings := (hr.numbered.below hn).siblings
    rw [h] at siblings
    obtain ⟨beside, apart⟩ := List.pairwise_cons.1 siblings
    have inert : isInert condition.kind := by
      rw [isInert, (hr.rules n hn).first_isExpression (.inr (.inr hk)) (by simp [Node.node?, h])]
      rfl
    have hc : condition ∈ n.nodes := by simp [h]
    have freshly (x : Node) (hx : x ∈ n.nodes) : Fresh root st x :=
      fresh.below (Node.mem_preorder_of_mem_nodes n.mem_preorder_self hx)
    have taken (inner : Context) (hi : inner.forced = none) (s : Stage) {mid : State}
        (hs : enter (some s) cx.setting n = inner.setting)
        (steps : Steps (Within root condition) st mid) :
        After mid (branches.attach.forM fun x => do
          if x.1.kind = .elseClause then
            discard (visitAll root store env jumps inner x.1)
            assign x.1.id s
          else discard (visit root store env jumps inner x.1))
          fun _ st' => Computed root store cx.setting n s st' := by
      have later (x : { m // m ∈ branches }) : x.1 ∈ n.nodes := by simp [h, x.2]
      refine (after_forM hr (f := Subtype.val) branches.attach (fun x _ => child (later x))
        (by rwa [List.attach_map_subtype_val])
        (fun x _ => visits_branch hr hn ih hi s (later x) (ih' x.1 (later x)))
        fun x _ => (freshly x.1 (later x)).steps steps
          (spares_of_disjoint hr.apart (child (later x)) (beside x.1 x.2))).mono ?_
      intro _ st' records
      refine quiet fun c hc' => ?_
      rw [h] at hc'
      rcases List.mem_cons.1 hc' with rfl | hc'
      · exact .of_inert hr (child hc) inert
      · rw [hs]
        exact records ⟨c, hc'⟩ (List.mem_attach _ _)
    refine .bind ((ih condition hc cx hf st (freshly condition hc)).mono fun _ _ h => h.1) ?_
    intro s mid steps
    split
    · rw [pure_bind]
      refine .bind (taken cx hf _ ?_ steps) fun _ _ computed => .pure computed
      simp [enter, hk]
    · refine .bind after_selected ?_
      rintro inner _ ⟨rfl, hset, hforced⟩
      rw [pure_bind]
      refine .bind (taken inner (hforced.trans hf) _ ?_ steps) fun _ _ computed => .pure computed
      simp [enter, hk, hset]

theorem after_forEachStatement (hk : n.kind = .forEachStatement) :
    After st (forEachStatement root store env jumps cx n) (Computed root store cx.setting n) := by
  obtain ⟨source, body, hnodes, hs, -⟩ := (hr.rules n hn).nodes_forEach hk
  have h0 : n.node? 0 = some source := by simp [Node.node?, hnodes]
  have h1 : n.node? 1 = some body := by simp [Node.node?, hnodes]
  have child {m : Node} (hm : m ∈ n.nodes) := Node.mem_preorder_of_mem_nodes hn hm
  have freshly (x : Node) (hx : x ∈ n.nodes) : Fresh root st x :=
    fresh.below (Node.mem_preorder_of_mem_nodes n.mem_preorder_self hx)
  have hsrc : source ∈ n.nodes := by simp [hnodes]
  have hbody : body ∈ n.nodes := by simp [hnodes]
  have siblings := (hr.numbered.below hn).siblings
  rw [hnodes] at siblings
  have beside : source.Disjoint body := (List.pairwise_cons.1 siblings).1 body List.mem_cons_self
  have sync : ¬n.hasAwait := by
    intro hawait
    have := hr.supported n hn
    simp [construct?, hk, isSupported, hawait] at this
  rw [forEachStatement, if_neg sync]
  split
  · next source' body' hs' hb' =>
    cases Option.some.inj (h0.symm.trans hs')
    cases Option.some.inj (h1.symm.trans hb')
    refine .bind ((ih source hsrc cx hf st (freshly source hsrc)).mono fun _ _ h => h.1) ?_
    intro found mid steps
    dsimp only
    generalize (if found = .generationTime then found else .generated) = s
    have turns (inner : Context) (hi : inner.forced = none) {mid : State}
        (steps : Steps (Within root source) st mid) : After mid (do
          discard (visit root store env jumps (inner.inLoop s) body)
          return s) (Computed root store cx.setting n) := by
      have fresh' : Fresh root mid body := (freshly body hbody).steps steps
        (spares_of_disjoint hr.apart (child hbody) beside)
      refine .bind (.discard ((ih body hbody (inner.inLoop s) hi mid fresh').mono
        fun _ _ h => h.2.1)) fun _ st' records => .pure ⟨fun c hc => ?_, by simp [hk], by simp [hk],
          Yields.of_kind (by simp [hk])⟩
      rw [hnodes, List.mem_cons, List.mem_singleton] at hc
      rcases hc with rfl | rfl
      · exact .of_inert hr (child hsrc) (by simp [isInert, hs])
      · rw [enter, if_pos hk]
        exact records
    have inside {mid : State} (steps : Steps (Within root source) st mid) : After mid (do
        let inner ← if s = .generationTime then pure cx
          else selected cx "the loop over" source
        discard (visit root store env jumps (inner.inLoop s) body)
        return s) (Computed root store cx.setting n) := by
      dsimp only
      split
      · rw [pure_bind]
        exact turns cx hf steps
      · refine .bind after_selected ?_
        rintro inner _ ⟨rfl, -, hforced⟩
        exact turns inner (hforced.trans hf) steps
    split
    · next v _ =>
      refine .bind (R := fun _ st' => Steps (Within root source) st st') ?_ fun _ _ => inside
      intro a st' h
      cases h
      exact steps.tail (.hold v s mid)
    · exact inside steps
  · next no => exact (no _ _ h0 h1).elim

end

/-- The wrapped call is generated where nothing forces it. -/
theorem after_wrapped (hr : Meaningful root) (hn : n ∈ root.preorder)
    (hw : (Quotation.wrappedForm? store n).isSome) (hf : cx.forced = none)
    (hst : st.stages.lookup n.id = none) :
    After st (visit root store env jumps cx n) fun s _ => s = .generated := by
  have hk : n.kind = .invocation := by
    by_contra hk
    simp [Quotation.wrappedForm?, hk] at hw
  obtain ⟨callee, hcallee⟩ := Node.exists_node? (hr.laid n hn) (i := 0) (by rw [hk]; decide)
  obtain ⟨method, hmethod, hdeferred⟩ : ∃ method, store.symbol? n = some method ∧
      method.deferred.isSome := by
    rw [Quotation.wrappedForm?, if_pos hk] at hw
    obtain ⟨form, hform⟩ := Option.isSome_iff_exists.1 hw
    obtain ⟨method, hmethod, hdeferred⟩ := Option.bind_eq_some_iff.1 hform
    exact ⟨method, hmethod, by rw [hdeferred]; rfl⟩
  have computed : After st (compute root store env jumps cx n) fun s _ => s = .generated := by
    rw [compute, hk]
    dsimp only
    rw [invocation]
    split
    · next h => simp [Node.node?, h] at hcallee
    · simp only [hmethod, hdeferred, if_true]
      exact .bind (.discard (.trivial (R := fun _ _ => True) fun _ _ => True.intro))
        fun _ _ _ => .pure rfl
  refine after_settle (hr.unstaged n hn) (by simp [hf]) hst computed ?_ fun s mid h => h
  rintro s mid rfl - ⟨⟩

section

variable (hr : Meaningful root) (hn : n ∈ root.preorder) (fresh : Fresh root st n)
  (hf : cx.forced = none)
  (ih : ∀ m ∈ n.nodes, ∀ cx : Context, cx.forced = none →
    Visits root store cx.setting m (visit root store env jumps cx m) (Yields root store m))

include hr hn fresh hf ih

theorem after_declarator (hk : n.kind = .declarator) :
    After st (declarator root store env jumps cx n) (Computed root store cx.setting n) := by
  have computed {s : Stage} {mid : State} (h : ∀ call, n.nodes = [call] →
      (Quotation.wrappedForm? store call).isSome → s = .generated) :
      Computed root store cx.setting n s mid :=
    computed_quiet hr hn (by rw [hk]; rfl) (by simp [hk])
      ⟨fun _ hw => by simp [Quotation.wrappedForm?, hk] at hw, fun _ => h⟩
  by_cases hw : ∃ call, n.nodes = [call] ∧ (Quotation.wrappedForm? store call).isSome
  · obtain ⟨call, hnodes, hw⟩ := hw
    have hcall : call ∈ n.nodes := by simp [hnodes]
    have plain := hr.plain_initializer hn hk hcall
    have first : n.node? 0 = some call := by simp [Node.node?, hnodes]
    rw [declarator.eq_def]
    split
    · refine .bind (visits_visitAll hr hn ih hf fresh) ?_
      rintro ss mid ⟨-, -, yields⟩
      refine .pure (computed fun _ _ _ => ?_)
      rw [hnodes] at yields
      obtain ⟨s, rest, hs, hrest, rfl⟩ := List.forall₂_cons_left_iff.1 yields
      cases hrest
      rw [hs.call plain hw]
      rfl
    · split
      · refine .bind (.trivial (R := fun _ _ => True) fun _ _ => trivial) fun _ _ _ => ?_
        refine .bind (.trivial (R := fun _ _ => True) fun _ _ => trivial) fun _ _ _ => ?_
        exact .pure (computed fun _ _ _ => rfl)
      · split
        · next value h =>
          cases Option.some.inj (first.symm.trans h)
          have generated := (ih call hcall cx hf st (fresh.below
            (Node.mem_preorder_of_mem_nodes n.mem_preorder_self hcall))).mono
              fun s _ h => h.2.2.call plain hw
          refine .bind generated fun s _ hs => ?_
          refine .bind (.trivial (R := fun _ _ => True) fun _ _ => trivial) fun _ _ _ => ?_
          exact .pure (computed fun _ _ _ => hs)
        · next h => cases h.symm.trans first
  · exact .trivial fun s mid => computed fun call hc hw' => absurd ⟨call, hc, hw'⟩ hw

/-- What computing the stage of a statement leaves. -/
theorem after_compute (hk : isInert n.kind = false)
    (ih' : ∀ clause ∈ n.nodes, ∀ m ∈ clause.nodes, ∀ cx : Context, cx.forced = none →
      Visits root store cx.setting m (visit root store env jumps cx m) (Yields root store m)) :
    After st (compute root store env jumps cx n) (Computed root store cx.setting n) := by
  have supported := isSupported_of_construct? (hr.supported n hn)
  have parts := after_parts hr hn fresh hf ih
  -- nodes that hold no statements have nothing to record
  have quiet {act : Classifier Stage} (hq : (places n.kind).all fun p => takesInert p.slot)
      (hk : n.kind ∉ [.breakStatement, .continueStatement, .localDeclaration, .invocation,
        .declarator]) : After st act (Computed root store cx.setting n) := by
    simp only [List.mem_cons, List.not_mem_nil, or_false, not_or] at hk
    exact .trivial fun s mid => computed_quiet hr hn hq (by simp [hk]) (.of_kind hk.2.2.2)
  rw [compute]
  split
  all_goals first
    | (next h => rw [h] at hk; contradiction)
    | (next h => rw [h] at supported; contradiction)
    | (next h => exact quiet (by rw [h]; rfl) (by rw [h]; decide))
    | (next h => exact parts (by rw [h]; decide) (by rw [h]; decide) (by rw [h]; decide) _)
    | (next h => exact after_localDeclaration hr hn fresh hf ih h)
    | (next h => exact after_declarator hr hn fresh hf ih h)
    | (next h => exact after_ifStatement hr hn fresh hf ih h ih')
    | (next h => exact after_forEachStatement hr hn fresh hf ih h)
    | (next h => exact after_jump hr hn fresh (by rw [h]; decide))

end

end

/-- The visit of a node that is not forced records its statements, each in its setting. -/
theorem visits_visit {root : Node} (hr : Meaningful root) {store : FactStore} {env : Environment}
    (jumps : Nat) (cx : Context) (hf : cx.forced = none) (n : Node) (hn : n ∈ root.preorder) :
    Visits root store cx.setting n (visit root store env jumps cx n) (Yields root store n) := by
  have ih : ∀ m ∈ n.nodes, ∀ cx : Context, cx.forced = none →
      Visits root store cx.setting m (visit root store env jumps cx m) (Yields root store m) :=
    fun m hm cx hf => by
      have := Node.size_lt_of_mem hm
      exact visits_visit hr jumps cx hf m (Node.mem_preorder_of_mem_nodes hn hm)
  have ih' : ∀ clause ∈ n.nodes, ∀ m ∈ clause.nodes, ∀ cx : Context, cx.forced = none →
      Visits root store cx.setting m (visit root store env jumps cx m) (Yields root store m) :=
    fun clause hc m hm cx hf => by
      have := Node.size_lt_of_mem hc
      have := Node.size_lt_of_mem hm
      exact visits_visit hr jumps cx hf m
        (Node.mem_preorder_of_mem_nodes (Node.mem_preorder_of_mem_nodes hn hc) hm)
  intro st fresh
  have steps : After st (visit root store env jumps cx n) fun _ st' =>
      Steps (Within root n) st st' :=
    fun a st' h => (sweeps_visit hr.apart hr.fresh jumps cx n hn ∅ st a st' h).1
  refine steps.and ?_
  cases hk : isInert n.kind with
  | true =>
    have expression : n.kind ≠ .declarator := by
      intro h
      rw [h] at hk
      cases hk
    refine After.mono (R := fun s _ => Yields root store n s) ?_ fun s st' yields =>
      ⟨.of_inert hr hn hk, yields⟩
    by_cases hw : Plain root n ∧ (Quotation.wrappedForm? store n).isSome
    · have unknown := (fresh n n.mem_preorder_self hw.1).1
      exact (after_wrapped hr hn hw.2 hf unknown).mono fun s _ hs =>
        ⟨fun _ _ => hs, fun h => absurd h expression⟩
    · exact .trivial fun s _ => ⟨fun plain h => absurd ⟨plain, h⟩ hw, fun h => absurd h expression⟩
  | false =>
    have expression : n.kind.isExpression = false := by
      simp only [isInert, Bool.or_eq_false_iff] at hk
      exact hk.1
    have unknown := (fresh n n.mem_preorder_self (hr.plain hk)).1
    refine after_settle (hr.unstaged n hn) (by simp [expression]) unknown
      (after_compute hr hn fresh hf ih hk ih') (fun s mid _ h => ?_) fun s mid computed => ?_
    · rw [expression] at h
      cases h
    · exact ⟨computed.records hr hn, computed.yields⟩
termination_by n.size

/-- What the classification of a tree records of its statements. -/
theorem Meaningful.exists_records {root : Node} (hr : Meaningful root) {store : FactStore}
    {env : Environment} {c : Classification} (hc : classify store env root = .ok c) :
    ∃ st, c.tree = stamp st .either root ∧ c.diagnostics = st.diagnostics ∧
      Steps (Within root root) .initial st ∧
      Records store st (Context.free []).setting root := by
  have visits : Visits root store (Context.free []).setting root
      (visit root store env root.size (.free []) root) (Yields root store root) :=
    visits_visit hr root.size (.free []) rfl root root.mem_preorder_self
  unfold classify at hc
  cases hv : (visit root store env root.size (.free []) root).run .initial with
  | error e => rw [hv] at hc; cases hc
  | ok r =>
    rw [hv] at hc
    cases hc
    obtain ⟨steps, records, -⟩ := visits .initial (fun _ _ _ => ⟨rfl, fun _ => List.not_mem_nil⟩) _ _ hv
    exact ⟨r.2, rfl, rfl, steps, records⟩

end Stencil.Staging
