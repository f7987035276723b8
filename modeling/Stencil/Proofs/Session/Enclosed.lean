import Stencil.Proofs.Facts.Annotated
import Stencil.Proofs.Facts.Entities
import Stencil.Proofs.Quotation.Careful
import Stencil.Proofs.Session.Layout
import Stencil.Proofs.Session.WrappedCalls
import Stencil.Proofs.Staging.Jumps

/-!
# Where the names and jumps of an accepted text stand

A tree that is quoted has the numbers of the tree that was read, node by node, and the facts that
were found for them. So what was found out about scopes while names were resolved, and about loops
while stages were decided, holds of it.

Results:

* `Accepted.counterparts` – the nodes that were read and those that are quoted;
* `Accepted.enclosed` – a reference stands in all the scopes around its declaration;
* `Accepted.jumpsStay` – where jumps of generation time stand.
-/
namespace Stencil

open Resolution Lexical Quotation Staging

variable {env : Environment} {text : String} {store : FactStore} {c : Classification}

/-- A node that was read as `m` is quoted as `m'`, and this was found out about it. -/
structure Counterpart (store : FactStore) (f : Findings) (m m' : Node) : Prop where
  kind : m'.kind = m.kind
  ids : m'.preorder.map Node.id = m.preorder.map Node.id
  facts : store.lookup m' = f.of m.id

theorem Counterpart.id {f : Findings} {m m' : Node} (h : Counterpart store f m m') :
    m'.id = m.id := by
  have ids := h.ids
  rw [m.preorder_eq, m'.preorder_eq] at ids
  exact (List.cons.inj ids).1

/-- The nodes that were read and those that are quoted. -/
theorem Accepted.counterparts (h : Accepted env text store c) :
    ∃ read f, Source.parseUnit text = .ok read ∧ env.resolve (read.number 0).1 = .ok f ∧
      ∀ m' ∈ c.tree.preorder, ∃ m ∈ (read.number 0).1.preorder, Counterpart store f m m' := by
  obtain ⟨read, annotated, hread, -, hlearn, hstage⟩ := h.stages
  obtain ⟨f, hf, hannotate⟩ := FactStore.exists_of_learn hlearn
  refine ⟨read, f, hread, hf, fun m' hm' => ?_⟩
  have unkeyed : ∀ m ∈ (read.number 0).1.preorder, m.factKey? = none := by
    intro m hm
    obtain ⟨r, hr, -, -, hmarks⟩ := (recast_number 0 read).source hm
    rw [Node.factKey?, hmarks, ((Source.isRead_parseUnit hread).1 r hr).1]
    rfl
  have keyed := (FactStore.annotates_annotate f.of .empty (read.number 0).1 unkeyed).keyed
  have subtrees := FactStore.annotated_preorder (f.of ·.id) .empty (read.number 0).1
  rw [hannotate] at keyed subtrees
  obtain ⟨st, stamped⟩ := stamped_of_classify hstage
  obtain ⟨a, ha, hs⟩ := (mem_of_forall₂ (stamped_preorder stamped)).2 m' hm'
  obtain ⟨m, hm, s₀, rfl⟩ := (mem_of_forall₂ subtrees).2 a ha
  have recast := recast_annotate (f.of ·.id) s₀ m
  have ids := recast.ids fun _ _ h => h.1
  have same : (s₀.annotate (f.of ·.id) m).1.id = m.id := by
    rw [m.preorder_eq, Node.preorder_eq] at ids
    exact (List.cons.inj ids).1
  refine ⟨m, hm, hs.kind.trans recast.kind, ?_, ?_⟩
  · rw [map_of_stamped (stamped_preorder hs) fun _ _ h => h.id, ids]
  · rw [hs.lookup, (keyed _ ha).lookup, same]

/-- Classified trees have distinct numbers. -/
theorem Accepted.numbered (h : Accepted env text store c) : c.tree.Numbered := by
  obtain ⟨read, annotated, hread, -, hlearn, hstage⟩ := h.stages
  exact ((pristine_of_learn hread 0 hlearn).classified hstage).1

/-- A reference stands in all the scopes around its declaration. -/
theorem Accepted.enclosed (h : Accepted env text store c)
    {x d p : Node} (hx : x ∈ c.tree.preorder) (hxk : x.kind = .identifier)
    (hd : d ∈ c.tree.preorder) (hdk : d.kind = .declarator ∨ d.kind = .forEachStatement)
    {v : Symbol} (hxv : store.symbol? x = some v) (hdv : store.declared? d = some v)
    (hp : p ∈ c.tree.preorder) (hpk : p.kind = .block ∨ p.kind = .forEachStatement)
    (hdp : d ∈ p.preorder) : x ∈ p.preorder := by
  obtain ⟨read, f, hread, hf, counterparts⟩ := h.counterparts
  obtain ⟨x₀, hx₀, cx⟩ := counterparts x hx
  obtain ⟨d₀, hd₀, cd⟩ := counterparts d hd
  obtain ⟨p₀, hp₀, cp⟩ := counterparts p hp
  have numbered : (read.number 0).1.Numbered := (nodup_number 0 read).2.1
  have inside : d₀ ∈ p₀.preorder := by
    have hid : d.id ∈ p₀.preorder.map Node.id := cp.ids ▸ List.mem_map_of_mem hdp
    obtain ⟨e, he, hid⟩ := List.mem_map.1 hid
    exact numbered.eq_of_id (Node.preorder_trans hp₀ he) hd₀ (hid.trans cd.id) ▸ he
  have noted : d₀.kind.isNoted := by rw [← cd.kind]; rcases hdk with hk | hk <;> rw [hk] <;> rfl
  have scope : p₀.kind.isScope := by rw [← cp.kind]; rcases hpk with hk | hk <;> rw [hk] <;> rfl
  have own : d₀ = p₀ → d₀.kind.declaresWithin := by
    intro same
    have kinds : d.kind = p.kind := by rw [cd.kind, cp.kind, same]
    rw [← cd.kind]
    rcases hdk with hk | hk
    · rcases hpk with hk' | hk' <;> cases hk.symm.trans (kinds.trans hk')
    · rw [hk]
      rfl
  have found := mem_scope_of_resolve hread 0 hf hx₀ (cx.kind.symm.trans hxk) hd₀ noted
    (by rw [← cx.facts]; exact hxv) (by rw [← cd.facts]; exact hdv) hp₀ scope inside own
  have hid : x.id ∈ p.preorder.map Node.id := by
    rw [cp.ids, cx.id]
    exact List.mem_map_of_mem found
  obtain ⟨e, he, hid⟩ := List.mem_map.1 hid
  exact h.numbered.eq_of_id (Node.preorder_trans hp he) hx hid ▸ he

/-! ## Jumps -/

/-- On its way up to a generation-time loop the jump leaves a block that stands in a block. -/
def LeavesBlock (steps : List (Node × Node)) : Prop :=
  loopStage? steps = some .generationTime ∧
    ∃ step ∈ insideLoop steps, step.1.kind = .block ∧ step.2.kind = .block

instance : DecidablePred LeavesBlock := fun _ => instDecidableAnd

section

variable {inner outer : List (Node × Node)} (h : ∀ step ∈ inner, step.1.kind ≠ .forEachStatement)

include h

theorem loopStage?_append : loopStage? (inner ++ outer) = loopStage? outer := by
  have none : inner.find? (·.1.kind = .forEachStatement) = none :=
    List.find?_eq_none.2 fun step hs => by simp [h step hs]
  rw [loopStage?, loopStage?, nearestLoop?, nearestLoop?, List.find?_append, none, Option.none_or]

theorem insideLoop_append : insideLoop (inner ++ outer) = inner ++ insideLoop outer :=
  List.takeWhile_append_of_pos fun step hs => by simp [h step hs]

theorem mem_insideLoop {step : Node × Node} (hk : step.1.kind ≠ .forEachStatement) :
    step ∈ insideLoop (inner ++ step :: outer) := by
  rw [insideLoop_append h]
  exact List.mem_append_right _ (by simp [insideLoop, hk])

end

/-- A way up that leads over no loop leads from such a jump to the node. -/
theorem Quotation.Loose.exists_way {root n : Node} (numbered : root.Numbered)
    (hn : n ∈ root.preorder) {outer : List (Node × Node)} (ho : root.above n.id = some outer)
    (h : Loose n) : ∃ j ∈ n.preorder, j.IsJump ∧ j.stage? = some .generationTime ∧
      ∃ inner, root.above j.id = some (inner ++ outer) ∧
        ∀ step ∈ inner, step.1.kind ≠ .forEachStatement := by
  induction h generalizing outer with
  | @jump n hk stage => exact ⟨n, n.mem_preorder_self, hk, stage, [], ho, by simp⟩
  | @inside n m hm _ hk ih =>
    have up : root.above m.id = some ((n, m) :: outer) := by
      rw [numbered.above_of_mem_nodes hn hm, ho]
      rfl
    obtain ⟨j, hj, jump, stage, inner, way, free⟩ :=
      ih (Node.mem_preorder_of_mem_nodes hn hm) up
    refine ⟨j, Node.preorder_subset hm hj, jump, stage, inner ++ [(n, m)], by simpa using way, ?_⟩
    rintro step hs
    rcases List.mem_append.1 hs with hs | hs
    · exact free step hs
    · rw [List.mem_singleton.1 hs]
      exact hk

/-- In an accepted text no jump crosses a generated condition. -/
theorem Accepted.judges (h : Accepted env text store c) : JudgesJumps c [] := by
  obtain ⟨read, annotated, hread, -, hlearn, hstage⟩ := h.stages
  have meaningful := (pristine_of_learn hread 0 hlearn).meaningful hstage h.silent
  obtain ⟨told, judges⟩ := meaningful.judges hstage
  have none : told = [] := by simpa [h.silent] using judges.reports.symm
  exact none ▸ judges

/-- What is known of a jump of generation time with no loop between it and a node. -/
theorem Accepted.exists_jump (h : Accepted env text store c) {n : Node} (hn : n ∈ c.tree.preorder)
    {outer : List (Node × Node)} (ho : c.tree.above n.id = some outer) (loose : Loose n) :
    loopStage? outer = some .generationTime ∧ ∃ j ∈ n.preorder, j.IsJump ∧
      ∃ inner, c.tree.above j.id = some (inner ++ outer) ∧ ¬CrossesCondition (inner ++ outer) ∧
        (∀ step ∈ inner, step.1.kind ≠ .forEachStatement) := by
  obtain ⟨j, hj, jump, stage, inner, way, free⟩ := loose.exists_way h.numbered hn ho
  have hjt := Node.preorder_trans hn hj
  obtain ⟨steps, way', known⟩ := h.judges.stages j hjt jump
  cases way.symm.trans way'
  rw [loopStage?_append free, stage] at known
  refine ⟨?_, j, hj, jump, inner, way, fun crosses => ?_, free⟩
  · cases hl : loopStage? outer with
    | none => rw [hl] at known; cases known
    | some s => rw [hl] at known; exact known.symm
  · cases (h.judges.exactly j).2 ⟨hjt, jump, _, way, crosses⟩

/-- Where no jump leaves a block in a block, the jumps of generation time stay in code that the
generator runs without calling a closure. -/
theorem Accepted.jumpsStay (h : Accepted env text store c)
    {t : Node} (ht : t ∈ c.tree.nodes) (direct : ∀ j ∈ t.preorder, j.IsJump →
      ∀ steps, c.tree.above j.id = some steps → ¬LeavesBlock steps) : JumpsStay t := by
  have htt := Node.mem_preorder_of_mem_nodes c.tree.mem_preorder_self ht
  have inside {n : Node} (hn : n ∈ t.preorder) := Node.preorder_trans htt hn
  -- the way up from a child, one step at a time
  have up {n m : Node} (hn : n ∈ c.tree.preorder) (hm : m ∈ n.nodes) : ∃ outer,
      c.tree.above n.id = some outer ∧ c.tree.above m.id = some ((n, m) :: outer) := by
    obtain ⟨outer, ho⟩ := h.numbered.exists_above hn
    exact ⟨outer, ho, by rw [h.numbered.above_of_mem_nodes hn hm, ho]; rfl⟩
  constructor
  · intro n hn loose
    obtain ⟨outer, ho, hway⟩ := up htt hn
    obtain ⟨loop, -⟩ :=
      h.exists_jump (inside (Node.mem_preorder_of_mem_nodes t.mem_preorder_self hn)) hway loose
    have top : outer = [(c.tree, t)] := by
      have top := h.numbered.above_of_mem_nodes c.tree.mem_preorder_self ht
      rw [c.tree.above_self, ho] at top
      exact Option.some.inj top
    have file := h.templates.1
    have template := h.templates.2 t ht
    simp [loopStage?, nearestLoop?, top, file, template] at loop
  · intro n hn hk m hm hmk loose
    obtain ⟨outer, ho, hway⟩ := up (inside hn) hm
    obtain ⟨loop, j, hj, jump, inner, way, -, free⟩ :=
      h.exists_jump (Node.mem_preorder_of_mem_nodes (inside hn) hm) hway loose
    have hj := Node.preorder_trans (Node.mem_preorder_of_mem_nodes hn hm) hj
    exact direct j hj jump _ way
      ⟨(loopStage?_append free).trans loop, (n, m), mem_insideLoop free (by simp [hk]), hk, hmk⟩
  · intro n hn hk hs loose
    have generated : n.stage? = some .generated := by
      obtain ⟨-, -, s, known, allowed⟩ := h.staged (inside hn)
      rw [hk] at allowed
      rw [known] at hs ⊢
      revert hs allowed
      cases s <;> decide
    cases loose with
    | jump hj => rcases hj with hj | hj <;> cases hj.symm.trans hk
    | @inside _ m hm loose =>
      obtain ⟨outer, ho, hway⟩ := up (inside hn) hm
      obtain ⟨loop, j, hj, jump, inner, way, straight, free⟩ :=
        h.exists_jump (Node.mem_preorder_of_mem_nodes (inside hn) hm) hway loose
      refine straight ⟨(loopStage?_append free).trans loop, (n, m),
        mem_insideLoop free (by simp [hk]), hk, generated, ?_⟩
      -- conditions are expressions, and no jump stands in those
      obtain ⟨condition, body, rest, hnodes, expression, -⟩ :=
        (h.lawful (inside hn)).1.1.nodes_ifStatement hk
      rw [hnodes] at hm ⊢
      refine (List.mem_cons.1 hm).resolve_left ?_
      rintro rfl
      have hm := Node.mem_preorder_of_mem_nodes (inside hn) (hnodes ▸ List.mem_cons_self)
      exact not_loose_of_isInert (h.laid hm)
        (fun x hx => (h.lawful (Node.preorder_trans hm hx)).2) (by simp [isInert, expression]) loose
  · intro n hn hk hs m hm loose
    obtain ⟨outer, ho, hway⟩ := up (inside hn) hm
    obtain ⟨loop, -⟩ := h.exists_jump (Node.mem_preorder_of_mem_nodes (inside hn) hm) hway loose
    simp [loopStage?, nearestLoop?, hk, hs] at loop

end Stencil
