import Stencil.Proofs.Session.Evaluating
import Stencil.Proofs.Staging.Stamped
import Stencil.Proofs.Staging.Statements

/-!
# Jumps and the loops they leave

A jump gets the stage of the loop it leaves. If that loop is run at generation time, no condition
that only the generated program knows may stand between the two, and the classifier reports just
the jumps for which one does.

Results:

* `setting_of_stamped` – what the stages on the way up from a jump tell;
* `jumps_reported_exactly` – the stages of the jumps of a text, and which of them are reported.
-/
namespace Stencil

open Staging

/-- A `break` or `continue`. -/
def Node.IsJump (n : Node) : Prop := n.kind = .breakStatement ∨ n.kind = .continueStatement

instance : DecidablePred Node.IsJump := fun _ => instDecidableOr

/-- The nearest loop on a way up. -/
def nearestLoop? (steps : List (Node × Node)) : Option Node :=
  (steps.find? (·.1.kind = .forEachStatement)).map Prod.fst

/-- The part of a way up that stands inside the nearest loop. -/
def insideLoop (steps : List (Node × Node)) : List (Node × Node) :=
  steps.takeWhile (·.1.kind ≠ .forEachStatement)

/-- The stage of the nearest loop on a way up. -/
def loopStage? (steps : List (Node × Node)) : Option Stage := (nearestLoop? steps).bind Node.stage?

/-- On its way up to a generation-time loop the jump stands in a branch of a generated `if`. -/
def CrossesCondition (steps : List (Node × Node)) : Prop :=
  loopStage? steps = some .generationTime ∧ ∃ step ∈ insideLoop steps,
    step.1.kind = .ifStatement ∧ step.1.stage? = some .generated ∧ step.2 ∈ step.1.nodes.tail

namespace Staging

/-- What the stages of the nodes on a way up from a jump tell about its setting. -/
theorem setting_of_stamped {st : State} {steps steps' : List (Node × Node)}
    (h : List.Forall₂ (fun step step' => Stamped st step.1 step'.1 ∧ Stamped st step.2 step'.2)
      steps steps')
    (known : ∀ step ∈ steps, step.1.kind = .forEachStatement ∨ step.1.kind = .ifStatement →
      st.Knows step.1.id) :
    (settingAt st ⟨none, false⟩ steps).loop = loopStage? steps' ∧
      ((settingAt st ⟨none, false⟩ steps).crossed = true ↔
        loopStage? steps' = some .generationTime ∧ ∃ step ∈ insideLoop steps',
          step.1.kind = .ifStatement ∧ step.1.stage? = some .generated) := by
  induction h with
  | nil => exact ⟨rfl, by simp [settingAt, loopStage?, nearestLoop?]⟩
  | @cons step step' rest rest' hs _ ih =>
    obtain ⟨here, there⟩ := List.forall_mem_cons.1 known
    obtain ⟨loop, crossed⟩ := ih there
    have kind := hs.1.kind
    rw [settingAt_cons]
    generalize settingAt st ⟨none, false⟩ rest = cx at loop crossed
    by_cases hf : step.1.kind = .forEachStatement
    · obtain ⟨s, hlook⟩ := Option.isSome_iff_exists.1 (here (.inl hf))
      have stage := hs.1.stage hlook
      simp [enter, hf, hlook, loopStage?, nearestLoop?, insideLoop, kind, stage]
    · have outer : loopStage? (step' :: rest') = loopStage? rest' := by
        simp [loopStage?, nearestLoop?, kind, hf]
      have inner : insideLoop (step' :: rest') = step' :: insideLoop rest' := by
        simp [insideLoop, kind, hf]
      rw [outer, inner]
      by_cases hi : step.1.kind = .ifStatement
      · obtain ⟨s, hlook⟩ := Option.isSome_iff_exists.1 (here (.inr hi))
        have stage := hs.1.stage hlook
        by_cases hg : s = .generated
        · have crossing : enter (st.stages.lookup step.1.id) cx step.1 = cx.cross := by
            simp [enter, hi, hlook, hg]
          rw [crossing]
          refine ⟨loop, ?_⟩
          rw [Setting.cross, loop, Bool.or_eq_true, beq_iff_eq, crossed]
          refine ⟨?_, fun h => .inr h.1⟩
          rintro (⟨hl, x, hx, h⟩ | hl)
          · exact ⟨hl, x, List.mem_cons_of_mem _ hx, h⟩
          · exact ⟨hl, step', List.mem_cons_self, kind.trans hi, hg ▸ stage⟩
        · have same : enter (st.stages.lookup step.1.id) cx step.1 = cx := by
            simp [enter, hi, hlook, hg]
          rw [same, crossed]
          exact ⟨loop, by simp [stage, hg]⟩
      · rw [enter_of_kind ⟨hf, hi⟩, crossed]
        exact ⟨loop, by simp [kind, hi]⟩

/-- Where there is a counterpart for every member of a list, there is a list of counterparts. -/
theorem exists_forall₂ {α β : Type} {R : α → β → Prop} {xs : List α} {ys : List β}
    (h : ∀ x ∈ xs, ∃ y ∈ ys, R x y) : ∃ zs, List.Forall₂ R xs zs ∧ zs ⊆ ys := by
  induction xs with
  | nil => exact ⟨[], .nil, List.nil_subset _⟩
  | cons x xs ih =>
    obtain ⟨here, there⟩ := List.forall_mem_cons.1 h
    obtain ⟨y, hy, hr⟩ := here
    obtain ⟨zs, hzs, hsub⟩ := ih there
    exact ⟨y :: zs, .cons hr hzs, List.cons_subset.2 ⟨hy, hsub⟩⟩

theorem construct?_of_outline {n n' : Node} (hk : n'.kind = n.kind) (ho : n'.outline = n.outline) :
    construct? n' = construct? n := by
  have tokens : n'.tokens = n.tokens := by rw [Node.tokens_outline, Node.tokens_outline, ho]
  rw [construct?, construct?, Node.hasAwait, Node.hasAwait, Node.tokenOfKind?, Node.tokenOfKind?,
    tokens, hk]

end Staging

/-- The jumps of a classified tree have the stages of the loops they leave, and just those that
cross a generated condition are reported, each once. -/
structure JudgesJumps (c : Classification) (told : List Node) : Prop where
  stages : ∀ j ∈ c.tree.preorder, j.IsJump → ∃ steps, c.tree.above j.id = some steps ∧
    j.stage? = some ((loopStage? steps).getD .either)
  reports : (c.diagnostics.filter (·.complaint = .jumpInGeneratedBranch)).map Diagnostic.span =
    told.map Node.span
  once : told.Nodup
  exactly : ∀ j, j ∈ told ↔ j ∈ c.tree.preorder ∧ j.IsJump ∧
    ∃ steps, c.tree.above j.id = some steps ∧ CrossesCondition steps

section

variable {root j : Node} {st : State} {steps steps' : List (Node × Node)}

/-- A way up from a statement enters an `if` by one of its branches. -/
theorem Staging.Meaningful.mem_branches (hr : Meaningful root) (hj : j ∈ root.preorder)
    (hk : isInert j.kind = false) (hs : root.above j.id = some steps) {p d p' d' : Node}
    (hm : (p, d) ∈ steps) (hp : Stamped st p p') (hd : Stamped st d d')
    (hif : p.kind = .ifStatement) (hd' : d' ∈ p'.nodes) : d' ∈ p'.nodes.tail := by
  obtain ⟨inside, hdp, hjd⟩ := hr.numbered.mem_of_mem_above hj hs hm
  have children := hp.forall₂_nodes (R := Stamped st) fun _ _ _ h => h
  cases children' : p'.nodes with
  | nil => rw [children'] at hd'; cases hd'
  | cons condition' branches' =>
    rw [children'] at children hd'
    obtain ⟨condition, branches, hc, -, hn⟩ := List.forall₂_cons_right_iff.1 children
    rcases List.mem_cons.1 hd' with rfl | hd'
    · -- the condition is an expression, and those hold no statements
      have hmem : condition ∈ root.preorder :=
        Node.mem_preorder_of_mem_nodes inside (by simp [hn])
      have same : d = condition := hr.numbered.eq_of_id (Node.mem_preorder_of_mem_nodes inside hdp)
        hmem (hd.id.symm.trans hc.id)
      have expression := (hr.rules p inside).first_isExpression (.inr (.inr hif)) (c := condition)
        (by simp [Node.node?, hn])
      have inert := hr.inert_below hmem (by simp [isInert, expression]) (same ▸ hjd)
      rw [hk] at inert
      cases inert
    · exact hd'

/-- What the records of a whole tree tell of a jump and of the way up from it. -/
theorem Staging.Records.jump {root' j' : Node} {store : FactStore}
    (h : Records store st ⟨none, false⟩ root) (hr : Meaningful root)
    (stamped : Stamped st root root') (hj : j ∈ root.preorder) (hj' : j' ∈ root'.preorder)
    (hs : Stamped st j j') (hk : j.IsJump) :
    ∃ steps', root'.above j'.id = some steps' ∧
      j'.stage? = some ((loopStage? steps').getD .either) ∧
      ((j.id, .jumpInGeneratedBranch) ∈ st.reported ↔ CrossesCondition steps') := by
  have statement : isInert j.kind = false := by rcases hk with hk | hk <;> rw [hk] <;> rfl
  obtain ⟨steps, habove⟩ := hr.numbered.exists_above hj
  obtain ⟨steps', habove', ways⟩ := stamped.exists_above habove
  obtain ⟨-, jump, -⟩ := h j hj statement steps habove
  obtain ⟨stage, reported⟩ := jump hk
  obtain ⟨loop, crossed⟩ := setting_of_stamped ways fun step hstep hkind => by
    have hp := Node.mem_preorder_of_mem_above habove hstep
    obtain ⟨up, hup⟩ := hr.numbered.exists_above hp
    exact (h step.1 hp (isInert_of_kind hkind) up hup).known
  refine ⟨steps', hs.id ▸ habove', loop ▸ hs.stage stage, reported.trans (crossed.trans ?_)⟩
  refine and_congr_right fun _ => exists_congr fun step' => and_congr_right fun hstep' => ?_
  refine and_congr_right fun hif => (and_iff_left_of_imp fun _ => ?_).symm
  -- on the way up from a jump an `if` is entered by a branch
  have hstep' : step' ∈ steps' := (List.takeWhile_sublist _).subset hstep'
  obtain ⟨step, hstep, hp, hd⟩ := (mem_of_forall₂ ways).2 step' hstep'
  have inside := ((stamped.numbered hr.numbered).mem_of_mem_above hj' (hs.id ▸ habove') hstep').2.1
  exact hr.mem_branches hj statement habove hstep hp hd (hp.kind ▸ hif) inside

end

/-- What the classification of a tree does about its jumps. -/
theorem Staging.Meaningful.judges {root : Node} (hr : Meaningful root) {store : FactStore}
    {env : Environment} {c : Classification} (hc : classify store env root = .ok c) :
    ∃ told, JudgesJumps c told := by
  obtain ⟨st, htree, hreports, steps, records⟩ := hr.exists_records hc
  obtain ⟨log, logs⟩ := steps.exists_log
  have stamped : Stamped st root c.tree := ⟨.either, htree⟩
  have nodes := stamped_preorder stamped
  obtain ⟨forth, back⟩ := mem_of_forall₂ nodes
  have numbered := stamped.numbered hr.numbered
  have inside {e : Node × Diagnostic} (he : e ∈ entries .jumpInGeneratedBranch log) :
      e.1 ∈ root.preorder ∧ Fits e.1 e.2 ∧ e.1.IsJump := by
    obtain ⟨he, hk⟩ := List.mem_filter.1 he
    obtain ⟨hw, fits⟩ := logs.fits e he
    exact ⟨mem_preorder_of_within root.mem_preorder_self hw, fits, fits.jump (by simpa using hk)⟩
  -- what is known of a jump and of the way up from it
  have known {j j' : Node} (hj : j ∈ root.preorder)
      (hj' : j' ∈ c.tree.preorder) (hs : Stamped st j j') (hk : j.IsJump) :
      ∃ steps', c.tree.above j'.id = some steps' ∧
        j'.stage? = some ((loopStage? steps').getD .either) ∧
        ((∃ e ∈ entries .jumpInGeneratedBranch log, e.1.id = j.id) ↔
          CrossesCondition steps') := by
    obtain ⟨steps', habove, stage, reported⟩ := records.jump hr stamped hj hj' hs hk
    exact ⟨steps', habove, stage, logs.mem_reported.symm.trans reported⟩
  have reported : ∀ j ∈ (entries .jumpInGeneratedBranch log).map Prod.fst,
      ∃ j' ∈ c.tree.preorder, Stamped st j j' := fun j hj => by
    obtain ⟨e, he, rfl⟩ := List.mem_map.1 hj
    exact forth e.1 (inside he).1
  obtain ⟨told, counterparts, sub⟩ := exists_forall₂ reported
  obtain ⟨forth', back'⟩ := mem_of_forall₂ counterparts
  refine ⟨told, fun j' hj' hk => ?_, ?_, ?_, fun j' => ⟨fun hj' => ?_, ?_⟩⟩
  · obtain ⟨j, hj, hs⟩ := back j' hj'
    obtain ⟨steps', habove, hstage, -⟩ := known hj hj' hs (by rwa [Node.IsJump, ← hs.kind])
    exact ⟨steps', habove, hstage⟩
  · rw [hreports, logs.reports, map_of_stamped counterparts fun _ _ h => h.span, List.map_map,
      List.map_map]
    exact List.map_congr_left fun e he => (inside he).2.1.span
  · refine List.Nodup.of_map Node.id ?_
    rw [map_of_stamped counterparts fun _ _ h => h.id]
    exact logs.nodup _
  · obtain ⟨j, hj, hs⟩ := back' j' hj'
    obtain ⟨e, he, rfl⟩ := List.mem_map.1 hj
    obtain ⟨hmem, -, hk⟩ := inside he
    obtain ⟨steps', habove, -, hcross⟩ := known hmem (sub hj') hs hk
    exact ⟨sub hj', by rwa [Node.IsJump, hs.kind], steps', habove, hcross.1 ⟨e, he, rfl⟩⟩
  · rintro ⟨hj', hk, steps', habove, hcross⟩
    obtain ⟨j, hj, hs⟩ := back j' hj'
    obtain ⟨steps'', habove', -, reported⟩ := known hj hj' hs (by rwa [Node.IsJump, ← hs.kind])
    cases habove.symm.trans habove'
    obtain ⟨e, he, hid⟩ := reported.2 hcross
    obtain ⟨m, hm, hs'⟩ := forth' e.1 (List.mem_map_of_mem he)
    have same := numbered.eq_of_id (sub hm) hj' (by rw [hs'.id, hid, hs.id])
    exact same ▸ hm

/-- In a text that was read and whose constructs all have a staged meaning, each jump gets the stage
of the nearest loop around it, and is reported exactly if that loop is run at generation time and
the jump stands in a branch of a generated `if` inside it; in whatever environments the text is
annotated and classified. -/
theorem jumps_reported_exactly {text : String} {read : Node}
    (hread : Source.parseUnit text = .ok read)
    (supported : ∀ m ∈ read.preorder, construct? m = none) (store : FactStore) (next : Nat)
    (env env' : Environment) :
    ∃ annotated store' c, store.learn env (read.number next).1 = .ok (annotated, store') ∧
      classify store' env' annotated = .ok c ∧ ∃ told, JudgesJumps c told := by
  obtain ⟨annotated, store', c, hlearn, pristine, hc⟩ :=
    exists_classification hread store next env env'
  have meaningful : Meaningful annotated := by
    refine ⟨pristine, fun m hm => ?_⟩
    obtain ⟨resolve, rfl⟩ := annotated_of_learn hlearn
    obtain ⟨b, hb, hk, ho, -⟩ := (recast_annotate resolve store _).source hm
    obtain ⟨r, hr, hk', ho', -⟩ := (recast_number next read).source hb
    rw [construct?_of_outline hk ho, construct?_of_outline hk' ho']
    exact supported r hr
  exact ⟨annotated, store', c, hlearn, hc, meaningful.judges hc⟩

/-- A template that leaves and continues loops under conditions of both stages. -/
def leaving : String :=
  "template Leaving() \x7b foreach (var p in meta.Target.Parameters) \x7b " ++
  "if (this.F) \x7b break; \x7d if (true) \x7b continue; \x7d " ++
  "foreach (var q in this.Items) \x7b if (this.G) break; \x7d \x7d break; \x7d"

/-- The first jump crosses a generated condition on its way to its loop, and only it is reported. -/
theorem jumps_reported_exactly_leaving : ∃ read annotated store c,
    Source.parseUnit leaving = .ok read ∧ (∀ m ∈ read.preorder, construct? m = none) ∧
    FactStore.empty.learn .standard (read.number 0).1 = .ok (annotated, store) ∧
    classify store .standard annotated = .ok c ∧
    (c.tree.preorder.filter fun m => m.kind = .breakStatement ∨ m.kind = .continueStatement).map
      (fun m => (m.span, m.stage?)) =
        [(⟨79, 85⟩, some .generationTime), (⟨100, 109⟩, some .generationTime),
          (⟨156, 162⟩, some .generated), (⟨167, 173⟩, some .either)] ∧
    c.diagnostics.map (fun d => (d.complaint, d.span)) = [(.jumpInGeneratedBranch, ⟨79, 85⟩)] ∧
    ∃ told, JudgesJumps c told := by
  have characters : leaving.toList = _ :=
    toList_append (toList_append String.toList_ofList String.toList_ofList) String.toList_ofList
  obtain ⟨read, annotated, store, c, hread, hlearn, hclass, checked⟩ := exists_of_classifies
    (p := fun read _ c => read.preorder.all (fun m => (construct? m).isNone) &&
      (c.tree.preorder.filter fun m => m.kind = .breakStatement ∨ m.kind = .continueStatement).map
        (fun m => (m.span, m.stage?)) ==
          [(⟨79, 85⟩, some .generationTime), (⟨100, 109⟩, some .generationTime),
            (⟨156, 162⟩, some .generated), (⟨167, 173⟩, some .either)] &&
      c.diagnostics.map (fun d => (d.complaint, d.span)) ==
        [(.jumpInGeneratedBranch, ⟨79, 85⟩)])
    Environment.standard_eq characters (by decide +kernel)
  simp only [Bool.and_eq_true, beq_iff_eq] at checked
  obtain ⟨⟨meaning, stages⟩, reports⟩ := checked
  have supported : ∀ m ∈ read.preorder, construct? m = none := by simpa using meaning
  obtain ⟨annotated', store', c', hlearn', hclass', judges⟩ :=
    jumps_reported_exactly hread supported .empty 0 .standard .standard
  cases hlearn.symm.trans hlearn'
  cases hclass.symm.trans hclass'
  exact ⟨read, annotated, store, c, hread, supported, hlearn, hclass, stages, reports, judges⟩

end Stencil
