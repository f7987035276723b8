import Stencil.Proofs.Facts.Continued
import Stencil.Proofs.Staging.Coverage
import Stencil.Proofs.Staging.Shared
import Stencil.Proofs.Staging.Stamped

/-!
# Classifying a file that goes on

The templates of a file are visited in their order. In a file that goes on with more templates the
visits of the first ones do the same as without these, and the later visits change only nodes of the
later templates. So the first templates get the same stages in both files.

Results:

* `Runs.confined` – what a run leaves alone;
* `run_visit_file` – the templates of a file are visited one after another;
* `GoesOn.classified` – the trees of the first templates are the same.
-/
namespace Stencil.Staging

variable {root : Node} {store : FactStore} {env : Environment} {id : Nat} {st mid st' : State}

/-- Both states know the same of a number. -/
structure SameAt (id : Nat) (st st' : State) : Prop where
  stage : st'.stages.lookup id = st.stages.lookup id
  splice : id ∈ st'.splices ↔ id ∈ st.splices

namespace SameAt

theorem refl (st : State) : SameAt id st st := ⟨rfl, .rfl⟩

theorem trans (h : SameAt id st mid) (h' : SameAt id mid st') : SameAt id st st' :=
  ⟨h'.stage.trans h.stage, h'.splice.trans h.splice⟩

theorem put {n : Node} (hn : n.id ≠ id) (s : Stage) (st : State) : SameAt id st (st.put n.id s) :=
  ⟨lookup_cons_of_ne hn.symm, .rfl⟩

theorem hold (v : Symbol) (s : Stage) (st : State) : SameAt id st (st.hold v s) := ⟨rfl, .rfl⟩

theorem settles {n : Node} {s : Stage} (hn : n.id ≠ id) (h : Settles n s st st') :
    SameAt id st st' := by
  refine ⟨?_, h.splices id hn.symm⟩
  rw [h.stages, lookup_cons_of_ne hn.symm]

theorem rebinds (h : Rebinds st st') : SameAt id st st' := by
  rcases h with rfl | ⟨v, -, rfl⟩
  · exact .refl _
  · exact .hold ..

end SameAt

/-- A run changes nothing outside a set of nodes that holds whatever is visited or looked at. -/
theorem Runs.confined {S : Set Node} (closed : ∀ n ∈ S, ∀ c ∈ n.nodes, c ∈ S)
    (looks : ∀ n ∈ S, ∀ v, store.declared? n = some v → ∀ m, LookedAt root store v m → m ∈ S)
    (hid : ∀ n ∈ S, n.id ≠ id) {task : Task} (h : Runs root store task st st')
    (ht : ∀ n ∈ task.nodes, n ∈ S) : SameAt id st st' := by
  have below {p : List Symbol} {n : Node} (hn : ∀ m ∈ (Task.visit p n).nodes, m ∈ S) :
      ∀ m ∈ (Task.parts p n.nodes).nodes, m ∈ S :=
    fun m hm => closed n (hn n List.mem_cons_self) m hm
  have only {p : List Symbol} {n : Node} (hn : n ∈ S) : ∀ m ∈ (Task.visit p n).nodes, m ∈ S :=
    List.forall_mem_singleton.2 hn
  induction h with
  | done => exact .refl _
  | next _ _ ihf ihr =>
    have first := ihf (only (ht _ List.mem_cons_self))
    exact first.trans (ihr fun m hm => ht m (List.mem_cons_of_mem _ hm))
  | remembered known => exact .refl _
  | free _ _ settles => exact .settles (hid _ (ht _ List.mem_cons_self)) settles
  | read _ _ _ _ _ => exact .put (hid _ (ht _ List.mem_cons_self)) _ _
  | @spliced p n v st _ _ _ _ _ =>
    have other := hid n (ht n List.mem_cons_self)
    exact ⟨lookup_cons_of_ne other.symm, by simp [other.symm]⟩
  | @coerced p n v st st' _ _ _ _ _ settles =>
    refine SameAt.trans ?_ (.settles (hid _ (ht _ List.mem_cons_self)) settles)
    split
    · exact .hold ..
    · exact .refl _
  | node _ _ _ _ rebinds _ settles ih =>
    exact (SameAt.rebinds rebinds).trans
      ((ih (below ht)).trans (.settles (hid _ (ht _ List.mem_cons_self)) settles))
  | declared _ _ _ settles ih =>
    exact (ih (below ht)).trans
      ((SameAt.hold ..).trans (.settles (hid _ (ht _ List.mem_cons_self)) settles))
  | ahead _ declares _ looked _ settles ih =>
    have hn := ht _ List.mem_cons_self
    exact (ih fun m hm => looks _ hn _ declares m (looked m hm)).trans
      ((SameAt.hold ..).trans (.settles (hid _ hn) settles))
  | undecided _ _ _ settles => exact .settles (hid _ (ht _ List.mem_cons_self)) settles
  | @loop p n source body v s st mid mid' st' _ _ nodes _ _ settles ihs ihb =>
    have inner : ∀ m ∈ [source, body], m ∈ S := nodes ▸ below ht
    have first := ihs (only (inner source List.mem_cons_self))
    have second := ihb (only (inner body (by simp)))
    exact first.trans ((SameAt.hold ..).trans
      (second.trans (.settles (hid _ (ht _ List.mem_cons_self)) settles)))

/-! ## Stamping -/

mutual

/-- What states know of the nodes of a tree decides how it is stamped. -/
theorem stamp_congr (inherited : Stage) : (n : Node) → (∀ m ∈ n.preorder, SameAt m.id st st') →
    stamp st' inherited n = stamp st inherited n
  | ⟨id, kind, span, marks, children⟩, h => by
    rw [Node.preorder_eq] at h
    obtain ⟨here, below⟩ := List.forall_mem_cons.1 h
    have spliced : st'.splices.contains id = st.splices.contains id := by
      rw [Bool.eq_iff_iff, List.contains_iff_mem, List.contains_iff_mem]
      exact here.splice
    rw [stamp, stamp, here.stage, stampAll_congr _ children below, spliced]

theorem stampAll_congr (inherited : Stage) : (cs : List (Child Node)) →
    (∀ m ∈ Node.preorderAll cs, SameAt m.id st st') →
    stampAll st' inherited cs = stampAll st inherited cs
  | [], _ => by rw [stampAll, stampAll]
  | .token t :: rest, h => by
    rw [Node.preorderAll] at h
    rw [stampAll, stampAll, stampAll_congr inherited rest h]
  | .node n :: rest, h => by
    rw [Node.preorderAll, List.forall_mem_append] at h
    rw [stampAll, stampAll, stamp_congr inherited n h.1, stampAll_congr inherited rest h.2]

end

theorem stampAll_append (inherited : Stage) (cs ds : List (Child Node)) :
    stampAll st inherited (cs ++ ds) = stampAll st inherited cs ++ stampAll st inherited ds := by
  induction cs with
  | nil => rw [stampAll]; rfl
  | cons c cs ih =>
    cases c <;> simp only [List.cons_append, stampAll, ih]

/-! ## Files -/

theorem visitAll_eq (jumps : Nat) (cx : Context) (n : Node) :
    visitAll root store env jumps cx n = n.nodes.mapM (visit root store env jumps cx) := by
  rw [visitAll]
  conv_rhs => rw [← List.attach_map_subtype_val n.nodes, List.mapM_map]
  rfl

/-- The templates of a file are visited one after another. -/
theorem run_visit_file {n : Node} (hk : n.kind = .compilationUnit) (hs : n.stage? = none)
    (jumps : Nat) : (visit root store env jumps (.free []) n).run .initial =
      (n.nodes.mapM (visit root store env jumps (.free []))).run .initial >>= fun r =>
        pure (.either, r.2.put n.id .either) := by
  rw [visit, hs]
  simp only [hk, NodeKind.isExpression, settle, compute, visitAll_eq, Bool.false_and,
    Bool.false_eq_true, if_false, Bool.not_false, Bool.true_or, if_true, StateT.run_bind,
    StateT.run_get, pure_bind]
  change (StateT.run (discard (List.mapM (visit root store env jumps (.free [])) n.nodes))
    State.initial >>= fun r => _) >>= (fun r => _) = _
  rw [Pass.discard_eq, StateT.run_bind]
  cases (List.mapM (visit root store env jumps (.free [])) n.nodes).run State.initial <;> rfl

/-- A file is stamped with what the visits of its templates came to. -/
theorem classify_file {n : Node} (hk : n.kind = .compilationUnit) (hs : n.stage? = none)
    {c : Classification} (h : classify store env n = .ok c) :
    ∃ ss st, (n.nodes.mapM (visit n store env n.size (.free []))).run .initial = .ok (ss, st) ∧
      c = ⟨stamp (st.put n.id .either) .either n, st.diagnostics⟩ := by
  unfold classify at h
  rw [run_visit_file hk hs] at h
  cases hr : (n.nodes.mapM (visit n store env n.size (.free []))).run .initial with
  | error d => rw [hr] at h; cases h
  | ok r =>
    rw [hr] at h
    cases h
    exact ⟨r.1, r.2, rfl, rfl⟩

/-- The templates of a file inherit nothing from it. -/
theorem children_stamp_file (st : State) (inherited : Stage) (n : Node) :
    (stamp (st.put n.id .either) inherited n).children =
      stampAll (st.put n.id .either) .either n.children := by
  rw [stamp_eq, children_restamp, State.put, List.lookup_cons_self]
  rfl

/-! ## Files that go on -/

open FactStore

theorem mem_preorderAll_of_mem_nodes {cs : List (Child Node)} {m c : Node}
    (hm : m ∈ Node.preorderAll cs) (hc : c ∈ m.nodes) : c ∈ Node.preorderAll cs := by
  obtain ⟨t, ht, hm⟩ := (Node.mem_preorderAll cs).1 hm
  exact (Node.mem_preorderAll cs).2 ⟨t, ht, Node.mem_preorder_of_mem_nodes hm hc⟩

/-- In a numbered tree nodes are found by their numbers. -/
theorem find_of_numbered {n m : Node} (h : n.Numbered) (hm : m ∈ n.preorder) :
    n.preorder.find? (·.id == m.id) = some m := by
  cases hf : n.preorder.find? (·.id == m.id) with
  | none =>
    have other := List.find?_eq_none.1 hf m hm
    simp at other
  | some m' =>
    have hid : m'.id = m.id := by simpa using List.find?_some hf
    rw [h.eq_of_id (List.mem_of_find?_eq_some hf) hm hid]

theorem mapM_congr {α β : Type} {f g : α → Classifier β} {xs : List α}
    (h : ∀ x ∈ xs, f x = g x) : xs.mapM f = xs.mapM g := by
  induction xs with
  | nil => rfl
  | cons x xs ih =>
    rw [List.mapM_cons, List.mapM_cons, h x List.mem_cons_self,
      ih fun y hy => h y (List.mem_cons_of_mem _ hy)]

/-- The second file has the templates of the first one and those in `ds`, and the stores know of
both what was learned. -/
structure GoesOn (n n' : Node) (ds : List (Child Node)) (store store' : FactStore) : Prop where
  file : n.kind = .compilationUnit
  file' : n'.kind = .compilationUnit
  numbered : n.Numbered
  numbered' : n'.Numbered
  children : n'.children = n.children ++ ds
  learned : Continues store store' n.children ds
  unstaged : n.stage? = none
  rules : ∀ m ∈ n'.preorder, m.stage? = none ∧ Rule m.kind m.outline

namespace GoesOn

variable {n n' : Node} {ds : List (Child Node)} {store' : FactStore}
  (h : GoesOn n n' ds store store')

include h

/-- The nodes of the first file stand below templates that both files have. -/
theorem exists_template {m : Node} (hm : m ∈ Node.preorderAll n.children) :
    ∃ t ∈ n.nodes, t ∈ n'.nodes ∧ m ∈ t.preorder := by
  obtain ⟨t, ht, hm⟩ := (Node.mem_preorderAll _).1 hm
  exact ⟨t, Node.mem_nodes.2 ht,
    Node.mem_nodes.2 (h.children ▸ List.mem_append_left _ ht), hm⟩

theorem nodes : n'.nodes = n.nodes ++ ds.filterMap Child.node? := by
  rw [Node.nodes, h.children, List.filterMap_append]
  rfl

/-- The nodes of the later templates have other numbers. -/
theorem apart {m w : Node} (hm : m ∈ Node.preorderAll n.children) (hw : w ∈ Node.preorderAll ds) :
    w.id ≠ m.id := by
  have distinct := h.numbered'
  rw [Node.Numbered, Node.preorder_eq, h.children, Node.preorderAll_append, List.map_cons,
    List.map_append, List.nodup_cons, List.nodup_append] at distinct
  exact (distinct.2.2.2 _ (List.mem_map_of_mem hm) _ (List.mem_map_of_mem hw)).symm

/-- The nodes of the first file are shared. -/
theorem shared : Shared { m | m ∈ Node.preorderAll n.children } n n' store store' := by
  refine ⟨fun m hm c hc => mem_preorderAll_of_mem_nodes hm hc, h.learned.lookup, h.learned.early,
    fun m hm => ?_, fun m hm => ?_⟩
  · obtain ⟨t, ht, ht', hm⟩ := h.exists_template hm
    exact ⟨find_of_numbered h.numbered (Node.preorder_subset ht hm),
      find_of_numbered h.numbered' (Node.preorder_subset ht' hm)⟩
  · obtain ⟨t, ht, ht', hm⟩ := h.exists_template hm
    obtain ⟨steps, hs⟩ := (h.numbered.child ht).exists_above hm
    refine ⟨steps, (n, t), (n', t), ?_, ?_, fun step hstep => ?_, h.file, h.file'⟩
    · rw [h.numbered.above_child ht hm, hs]
      rfl
    · rw [h.numbered'.above_child ht' hm, hs]
      rfl
    · exact (Node.mem_preorderAll _).2
        ⟨t, Node.mem_nodes.1 ht, Node.mem_preorder_of_mem_above hs hstep⟩

/-- The templates of the first file are visited alike: each local that becomes pending is declared
by a node, so both files allow for looking ahead often enough. -/
theorem visit_eq {t : Node} (ht : t ∈ n.nodes) :
    visit n' store' env n'.size (.free []) t = visit n store env n.size (.free []) t := by
  let locals := (Node.preorderAll n.children).filterMap store.declared?
  have few : locals.length < n.size := by
    rw [← Node.length_preorder, Node.preorder_eq, List.length_cons]
    exact Nat.lt_succ_of_le (List.length_filterMap_le ..)
  have size : n.size ≤ n'.size := by
    rw [← Node.length_preorder, ← Node.length_preorder, Node.preorder_eq, Node.preorder_eq,
      h.children, Node.preorderAll_append, List.length_cons, List.length_cons, List.length_append]
    omega
  have declared : ∀ m ∈ { m | m ∈ Node.preorderAll n.children }, ∀ v,
      store.declared? m = some v → v ∈ locals :=
    fun m hm v hv => List.mem_filterMap.2 ⟨m, hm, hv⟩
  refine h.shared.visit declared ?_ .nil (List.nil_subset _) ?_ ?_
  · exact (Node.mem_preorderAll _).2 ⟨t, Node.mem_nodes.1 ht, t.mem_preorder_self⟩
  · exact Nat.le_of_lt few
  · exact Nat.le_trans (Nat.le_of_lt few) size

/-- What is looked at for the locals of the later templates stands there. -/
theorem mem_of_lookedAt {m : Node} (hm : m ∈ Node.preorderAll ds) {v : Symbol}
    (hv : store'.declared? m = some v) {w : Node} (hw : LookedAt n' store' v w) :
    w ∈ Node.preorderAll ds := by
  obtain ⟨id, hid, site, hfound, hw⟩ := hw
  obtain ⟨own, hown, rfl⟩ := h.learned.late m hm v hv id hid
  obtain ⟨t, ht, hown⟩ := (Node.mem_preorderAll _).1 hown
  have ht' : t ∈ n'.nodes := Node.mem_nodes.2 (h.children ▸ List.mem_append_right _ ht)
  have found := find_of_numbered h.numbered' (Node.preorder_subset ht' hown)
  obtain rfl : own = site := Option.some.inj (found.symm.trans hfound)
  have inside {p x : Node} (hp : p ∈ t.preorder) (hx : x ∈ p.nodes) : x ∈ Node.preorderAll ds :=
    (Node.mem_preorderAll _).2 ⟨t, ht, Node.mem_preorder_of_mem_nodes hp hx⟩
  rcases hw with hw | ⟨steps, parent, child, habove, hstep, hkind, hw⟩
  · exact inside hown (Node.mem_of_node? hw)
  · rw [h.numbered'.above_child ht' hown] at habove
    obtain ⟨inner, hi, rfl⟩ := Option.map_eq_some_iff.1 habove
    rcases List.mem_append.1 hstep with hstep | hstep
    · exact inside (Node.mem_preorder_of_mem_above hi hstep) (Node.mem_of_node? hw)
    · -- the root is no statement
      cases List.mem_singleton.1 hstep
      simp [h.file'] at hkind

/-- Visiting the later templates changes nothing at the nodes of the first file. -/
theorem sameAt (runs : Runs n' store' (.parts [] (ds.filterMap Child.node?)) st st') {m : Node}
    (hm : m ∈ Node.preorderAll n.children) :
    SameAt m.id (st.put n.id .either) (st'.put n'.id .either) := by
  obtain ⟨t, ht, ht', hmt⟩ := h.exists_template hm
  have confined : SameAt m.id st st' := by
    refine runs.confined (S := { w | w ∈ Node.preorderAll ds })
      (fun w hw c hc => mem_preorderAll_of_mem_nodes hw hc)
      (fun w hw v hv x hx => h.mem_of_lookedAt hw hv hx) (fun w hw => h.apart hm hw)
      fun w hw => ?_
    have hw : w ∈ (⟨0, .compilationUnit, n.span, [], ds⟩ : Node).nodes := hw
    exact (Node.mem_preorderAll _).2 ⟨w, Node.mem_nodes.1 hw, w.mem_preorder_self⟩
  refine ⟨?_, confined.splice⟩
  rw [State.put, State.put, lookup_cons_of_ne (h.numbered.id_ne ht hmt),
    lookup_cons_of_ne (h.numbered'.id_ne ht' hmt)]
  exact confined.stage

/-- Where the longer file is classified without a report, the trees of the first file begin it. -/
theorem classified {c c' : Classification} (hc : classify store env n = .ok c)
    (hc' : classify store' env n' = .ok c') (silent : c'.diagnostics = []) :
    c.tree.children <+: c'.tree.children := by
  obtain ⟨ss, st, run, rfl⟩ := classify_file h.file h.unstaged hc
  obtain ⟨ss', st', run', rfl⟩ := classify_file h.file' (h.rules n' n'.mem_preorder_self).1 hc'
  rw [h.nodes, List.mapM_append] at run'
  obtain ⟨first, mid, hfirst, run'⟩ := Pass.exists_of_bind run'
  obtain ⟨later, last, hlater, hlast⟩ := Pass.exists_of_bind run'
  cases hlast
  have visits (t : Node) (ht : t ∈ n.nodes ++ ds.filterMap Child.node?) :
      VisitsCleanly n' store' [] t (visit n' store' env n'.size (.free []) t) :=
    .visit h.rules n'.size (.free []) t
      (Node.mem_preorder_of_mem_nodes n'.mem_preorder_self (h.nodes ▸ ht))
  obtain ⟨consistent, -⟩ := Cleanly.mapM (f := id) n.nodes
    (fun t ht => visits t (List.mem_append_left _ ht)) .initial first mid hfirst
  obtain ⟨consistent', clean⟩ := Cleanly.mapM (f := id) (ds.filterMap Child.node?)
    (fun t ht => visits t (List.mem_append_right _ ht)) mid later st' hlater
  obtain ⟨-, runs⟩ := clean ⟨silent, consistent' (consistent fun _ => rfl) silent⟩
  rw [mapM_congr fun t ht => h.visit_eq ht] at hfirst
  cases run.symm.trans hfirst
  rw [List.map_id] at runs
  rw [children_stamp_file, children_stamp_file, h.children, stampAll_append,
    stampAll_congr .either n.children fun m hm => h.sameAt runs hm]
  exact List.prefix_append _ _

/-- The stores know the same of the classified nodes of the first file. -/
theorem lookup_eq {c : Classification} (hc : classify store env n = .ok c) {m : Node}
    (hm : m ∈ Node.preorderAll c.tree.children) : store'.lookup m = store.lookup m := by
  obtain ⟨st, stamped⟩ := stamped_of_classify hc
  have all := stamped_preorder stamped
  rw [Node.preorder_eq, Node.preorder_eq, List.forall₂_cons] at all
  obtain ⟨x, hx, same⟩ := (mem_of_forall₂ all.2).2 m hm
  rw [same.lookup, same.lookup]
  exact h.learned.lookup x hx

end GoesOn

end Stencil.Staging
