import Stencil.Proofs.Session.Evaluating
import Stencil.Proofs.Source.Nesting
import Stencil.Proofs.Staging.Painting
import Stencil.Proofs.Staging.Stamped

/-!
# Stages over the text of a classified tree

The passes between reading and painting leave every span where it was: they number nodes, and put
keys and stages on them. So the tree that is painted is nested like the tree that was read, and the
partition of a text shows the stage of the innermost node at every byte.

Results:

* `SameSpans` – what a pass leaves of spans, with a rule for each pass;
* `nests_of_wellNested` – a tree that was read is nested;
* `stages_painted` – what the partition of a text shows.
-/
namespace Stencil

/-! ## Spans that passes leave -/

/-- The spans of a node and of its child nodes. -/
def Node.extent (n : Node) : Span × List Span := (n.span, n.nodes.map Node.span)

/-- The nodes of two trees correspond and have the same spans. -/
def SameSpans (n n' : Node) : Prop := n'.preorder.map Node.extent = n.preorder.map Node.extent

/-- The same for the children of a node. -/
def SameSpansAll (cs cs' : List (Child Node)) : Prop :=
  (cs'.filterMap Child.node?).map Node.span = (cs.filterMap Child.node?).map Node.span ∧
    (Node.preorderAll cs').map Node.extent = (Node.preorderAll cs).map Node.extent

theorem SameSpans.of_children {n n' : Node} (hs : n'.span = n.span)
    (h : SameSpansAll n.children n'.children) : SameSpans n n' := by
  unfold SameSpans
  rw [Node.preorder_eq, Node.preorder_eq, List.map_cons, List.map_cons, h.2, Node.extent,
    Node.extent, Node.nodes, Node.nodes, hs, h.1]

theorem SameSpans.span {n n' : Node} (h : SameSpans n n') : n'.span = n.span := by
  unfold SameSpans at h
  rw [Node.preorder_eq, Node.preorder_eq, List.map_cons, List.map_cons] at h
  exact congrArg Prod.fst (List.cons.inj h).1

theorem SameSpans.trans {n m x : Node} (h : SameSpans n m) (h' : SameSpans m x) : SameSpans n x :=
  Eq.trans h' h

theorem SameSpansAll.nil : SameSpansAll [] [] := ⟨rfl, rfl⟩

theorem SameSpansAll.token {t : Token} {cs cs' : List (Child Node)} (h : SameSpansAll cs cs') :
    SameSpansAll (.token t :: cs) (.token t :: cs') := by
  refine ⟨h.1, ?_⟩
  rw [Node.preorderAll, Node.preorderAll]
  exact h.2

theorem SameSpansAll.node {n n' : Node} {cs cs' : List (Child Node)} (hn : SameSpans n n')
    (h : SameSpansAll cs cs') : SameSpansAll (.node n :: cs) (.node n' :: cs') := by
  refine ⟨?_, ?_⟩
  · show n'.span :: (cs'.filterMap Child.node?).map Node.span =
      n.span :: (cs.filterMap Child.node?).map Node.span
    rw [hn.span, h.1]
  · rw [Node.preorderAll, Node.preorderAll, List.map_append, List.map_append, h.2]
    exact congrArg (· ++ _) hn

mutual

theorem sameSpans_number (next : Nat) : (n : Node) → SameSpans n (n.number next).1
  | ⟨id, kind, span, marks, children⟩ => by
    rw [Node.number]
    exact .of_children rfl (sameSpansAll_numberAll next children)

theorem sameSpansAll_numberAll (next : Nat) :
    (cs : List (Child Node)) → SameSpansAll cs (Node.numberAll next cs).1
  | [] => by
    rw [Node.numberAll]
    exact .nil
  | .token t :: rest => by
    rw [Node.numberAll]
    exact .token (sameSpansAll_numberAll next rest)
  | .node n :: rest => by
    rw [Node.numberAll]
    exact .node (sameSpans_number next n) (sameSpansAll_numberAll (n.number next).2 rest)

end

theorem span_keyed (resolve : Node → Facts) (s : FactStore) (n : Node) :
    (FactStore.stamp resolve s n).1.span = n.span := by
  unfold FactStore.stamp
  split
  · rfl
  · exact Staging.span_mark n _

mutual

theorem sameSpans_annotate (resolve : Node → Facts) (s : FactStore) :
    (n : Node) → SameSpans n (s.annotate resolve n).1
  | ⟨id, kind, span, marks, children⟩ => by
    rw [FactStore.annotate]
    refine .of_children (span_keyed ..) ?_
    rw [(stamp_keeps ..).2.1]
    exact sameSpansAll_annotateAll resolve s children

theorem sameSpansAll_annotateAll (resolve : Node → Facts) (s : FactStore) :
    (cs : List (Child Node)) → SameSpansAll cs (s.annotateAll resolve cs).1
  | [] => by
    rw [FactStore.annotateAll]
    exact .nil
  | .token t :: rest => by
    rw [FactStore.annotateAll]
    exact .token (sameSpansAll_annotateAll resolve s rest)
  | .node n :: rest => by
    rw [FactStore.annotateAll]
    exact .node (sameSpans_annotate resolve s n)
      (sameSpansAll_annotateAll resolve (s.annotate resolve n).2 rest)

end

namespace Staging

theorem sameSpans_stamped {st : State} {n n' : Node} (h : Stamped st n n') : SameSpans n n' := by
  refine map_of_stamped (stamped_preorder h) fun m m' hm => ?_
  obtain ⟨inherited, rfl⟩ := hm
  rw [Node.extent, Node.extent, span_stamp, nodes_stamp, List.map_map]
  exact congrArg (m.span, ·) (List.map_congr_left fun c _ => span_stamp ..)

/-- A stamped node has a stage. -/
theorem Stamped.exists_stage {st : State} {m m' : Node} (h : Stamped st m m') :
    ∃ s, m'.stage? = some s := by
  obtain ⟨inherited, rfl⟩ := h
  rw [stamp_eq, restamp]
  split
  · rw [Node.stage?_mark rfl, Node.stage?_setStage]
    exact ⟨_, rfl⟩
  · rw [Node.stage?_setStage]
    exact ⟨_, rfl⟩

theorem Encloses.of_extent {n n' : Node} (h : Encloses n) (he : n'.extent = n.extent) :
    Encloses n' := by
  obtain ⟨hspan, hnodes⟩ := Prod.mk.inj he
  obtain ⟨ordered, inside, apart⟩ := h
  have inside' : ∀ s ∈ n.nodes.map Node.span,
      n.span.start ≤ s.start ∧ s.stop ≤ n.span.stop := List.forall_mem_map.2 inside
  have apart' : (n.nodes.map Node.span).Pairwise fun s t => s.stop ≤ t.start :=
    List.pairwise_map.2 apart
  rw [← hnodes] at inside' apart'
  rw [← hspan] at ordered inside'
  exact ⟨ordered, List.forall_mem_map.1 inside', List.pairwise_map.1 apart'⟩

theorem Nests.of_sameSpans {n n' : Node} (h : Nests n) (hs : SameSpans n n') : Nests n' := by
  intro m' hm'
  have found := List.mem_map_of_mem (f := Node.extent) hm'
  rw [hs] at found
  obtain ⟨m, hm, he⟩ := List.mem_map.1 found
  exact (h m hm).of_extent he.symm

end Staging

/-! ## The partition of a text -/

theorem nests_of_wellNested {text : String} {n : Node} (h : Source.WellNested text n) :
    Staging.Nests n := by
  intro m hm
  obtain ⟨-, -, row⟩ := h m hm
  refine ⟨row.le, fun c hc => ?_, ?_⟩
  · obtain ⟨hlo, -, hhi, -⟩ := row.of_mem (List.mem_map_of_mem (Node.mem_nodes.1 hc))
    exact ⟨hlo, hhi⟩
  · refine (List.pairwise_map.1 row.pairwise).filterMap _ fun a b hab c hc d hd => ?_
    cases a <;> cases hc
    cases b <;> cases hd
    exact hab

/-- At every byte of a text that was read, the partition shows the stage of the innermost node if
that is decided, and `either` if it is not; beyond the text it shows `either`. So it is in whatever
environments the text is annotated and classified. -/
theorem stages_painted {text : String} {read : Node} (hread : Source.parseUnit text = .ok read)
    (store : FactStore) (next : Nat) (env env' : Environment) :
    ∃ annotated store' c, store.learn env (read.number next).1 = .ok (annotated, store') ∧
      classify store' env' annotated = .ok c ∧ ∀ offset < Partition.limit,
        (offset < text.utf8ByteSize → (∃! m, Staging.IsInnermost c.tree offset m) ∧
          ∀ m, Staging.IsInnermost c.tree offset m → ∃ s, m.stage? = some s ∧
            (Staging.project c.tree).classify offset (offset + 1) =
              if s.isDeterminate then s else .either) ∧
        (text.utf8ByteSize ≤ offset →
          (Staging.project c.tree).classify offset (offset + 1) = .either) := by
  obtain ⟨annotated, store', c, hlearn, -, hc⟩ :=
    exists_classification hread store next env env'
  refine ⟨annotated, store', c, hlearn, hc, ?_⟩
  obtain ⟨resolve, rfl⟩ := annotated_of_learn hlearn
  obtain ⟨st, stamped⟩ := Staging.stamped_of_classify hc
  have same : SameSpans read c.tree :=
    ((sameSpans_number next read).trans (sameSpans_annotate resolve store _)).trans
      (Staging.sameSpans_stamped stamped)
  have nests := (nests_of_wellNested (Source.wellNested_parseUnit hread)).of_sameSpans same
  have span : c.tree.span = ⟨0, text.utf8ByteSize⟩ := by
    obtain ⟨ls, ns, last, -, -, rfl⟩ := Source.exists_templates hread
    exact same.span
  intro offset hlimit
  refine ⟨fun hin => ⟨?_, fun m hm => ?_⟩, fun hout => ?_⟩
  · have covers : c.tree.span.Covers offset := by
      rw [span]
      exact ⟨Nat.zero_le _, hin⟩
    obtain ⟨m, hm, -⟩ := Staging.exists_innermost nests covers
    exact ⟨m, hm, fun m' hm' => hm'.unique hm⟩
  · obtain ⟨b, -, hb⟩ := (mem_of_forall₂ (Staging.stamped_preorder stamped)).2 m hm.1
    obtain ⟨s, hs⟩ := hb.exists_stage
    refine ⟨s, hs, ?_⟩
    rw [Staging.classify_project nests hm hlimit, Staging.shade, hs]
  · refine Staging.classify_project_outside nests (fun hcov => ?_) hlimit
    rw [span] at hcov
    exact absurd hcov.2 (Nat.not_lt.2 hout)

/-- A template that writes its parameter. -/
def writing : String := "template T(int n) \x7b Console.WriteLine(n); \x7d"

/-- The call is generated code, its argument and the parameter are generation-time code, and the
rest is neither; so the partition shows the argument at its byte. -/
theorem stages_painted_writing : ∃ read annotated store c,
    Source.parseUnit writing = .ok read ∧
    FactStore.empty.learn .standard (read.number 0).1 = .ok (annotated, store) ∧
    classify store .standard annotated = .ok c ∧
    c.tree.preorder.map (fun m => (m.span, m.stage?)) =
      [(⟨0, 43⟩, some .either), (⟨0, 43⟩, some .either), (⟨11, 16⟩, some .generationTime),
        (⟨11, 14⟩, some .generationTime), (⟨18, 43⟩, some .either), (⟨20, 41⟩, some .generated),
        (⟨20, 40⟩, some .generated), (⟨20, 37⟩, some .generated), (⟨20, 27⟩, some .generated),
        (⟨38, 39⟩, some .generationTime)] ∧
    (Staging.project c.tree).classify 60 61 = .either ∧
    (∃! m, Staging.IsInnermost c.tree 38 m) ∧
    (Staging.project c.tree).classify 38 39 = .generationTime := by
  obtain ⟨read, annotated, store, c, hread, hlearn, hclass, checked⟩ := exists_of_classifies
    (p := fun _ _ c => c.tree.preorder.map (fun m => (m.span, m.stage?)) ==
        [(⟨0, 43⟩, some .either), (⟨0, 43⟩, some .either), (⟨11, 16⟩, some .generationTime),
          (⟨11, 14⟩, some .generationTime), (⟨18, 43⟩, some .either), (⟨20, 41⟩, some .generated),
          (⟨20, 40⟩, some .generated), (⟨20, 37⟩, some .generated), (⟨20, 27⟩, some .generated),
          (⟨38, 39⟩, some .generationTime)] &&
      c.tree.preorder.any fun m => m.nodes.isEmpty && m.span == ⟨38, 39⟩ &&
        m.stage? == some .generationTime)
    Environment.standard_eq (show writing.toList = _ from String.toList_ofList) (by decide +kernel)
  simp only [Bool.and_eq_true, beq_iff_eq, List.any_eq_true, List.isEmpty_iff] at checked
  obtain ⟨stages, argument, hargument, ⟨leaf, span⟩, stage⟩ := checked
  obtain ⟨annotated', store', c', hlearn', hclass', painted⟩ :=
    stages_painted hread .empty 0 .standard .standard
  cases hlearn.symm.trans hlearn'
  cases hclass.symm.trans hclass'
  have size : writing.utf8ByteSize = 43 := by decide +kernel
  rw [size] at painted
  obtain ⟨unique, shown⟩ := (painted 38 (by decide)).1 (by decide)
  have innermost : Staging.IsInnermost c.tree 38 argument := by
    obtain ⟨m, hm, -⟩ := unique
    have below := hm.2.2 argument hargument (by rw [span]; exact ⟨by decide, by decide⟩)
    rcases Node.mem_preorder.1 below with rfl | ⟨x, hx, -⟩
    · exact hm
    · rw [leaf] at hx
      cases hx
  obtain ⟨s, hs, here⟩ := shown argument innermost
  cases stage.symm.trans hs
  exact ⟨read, annotated, store, c, hread, hlearn, hclass, stages,
    (painted 60 (by decide)).2 (by decide), unique, here⟩

end Stencil
