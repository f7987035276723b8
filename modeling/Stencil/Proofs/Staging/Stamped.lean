import Mathlib.Data.List.Forall2
import Stencil.Proofs.Staging.Restamping
import Stencil.Proofs.Tree.Paths

/-!
# Nodes of a stamped tree

Stamping puts stages and splices on the nodes of a tree and changes nothing else, so the nodes of
the stamped tree are the stamped nodes of the tree, and the ways up lead over stamped nodes.

Results:

* `nodes_stamp` – the children of a stamped node;
* `stamped_preorder`, `stamped_above` – the nodes of a stamped tree, and the ways up from them.
-/
namespace Stencil

namespace Staging

open Node

/-- The second node is the first one, stamped. -/
def Stamped (st : State) (m m' : Node) : Prop := ∃ inherited, m' = stamp st inherited m

section

variable (st : State) (inherited : Stage) (n : Node)

theorem id_stamp : (stamp st inherited n).id = n.id := by
  rw [stamp_eq, restamp]
  split <;> simp [withChildren]

theorem kind_stamp : (stamp st inherited n).kind = n.kind := by
  rw [stamp_eq, restamp]
  split <;> simp [withChildren]

theorem span_setStage (s : Stage) : (n.setStage s).span = n.span := by
  unfold setStage
  split <;> rfl

theorem span_mark (m : Mark) : (n.mark m).span = n.span := by
  unfold mark
  split <;> rfl

theorem span_stamp : (stamp st inherited n).span = n.span := by
  rw [stamp_eq, restamp]
  split
  · rw [span_mark, span_setStage]
    rfl
  · rw [span_setStage]
    rfl

theorem stage?_stamp {s : Stage} (h : st.stages.lookup n.id = some s) :
    (stamp st inherited n).stage? = some s := by
  rw [stamp_eq, restamp, h]
  split
  · rw [stage?_mark rfl, stage?_setStage]
    rfl
  · rw [stage?_setStage]
    rfl

/-- Stages and splices are no keys of facts. -/
theorem factKey?_stamp : (stamp st inherited n).factKey? = n.factKey? := by
  have dropped (n : Node) : n.dropStage.factKey? = n.factKey? := by
    rw [factKey?, factKey?, dropStage]
    induction n.marks with
    | nil => rfl
    | cons m ms ih =>
      cases m <;> simp_all [isStageMark]
  have spliced (n : Node) : (n.spliceAt st.splices).factKey? = n.factKey? := by
    unfold spliceAt mark
    split
    · split
      · rfl
      · simp [factKey?, List.findSome?_append]
    · rfl
  rw [← dropped, stamp_eq, dropStage_restamp, spliced, dropped]
  rfl

theorem filterMap_stampAll (s : Stage) (cs : List (Child Node)) :
    (stampAll st s cs).filterMap Child.node? =
      (cs.filterMap Child.node?).map (stamp st s) := by
  induction cs with
  | nil => rw [stampAll]; rfl
  | cons c rest ih =>
    cases c with
    | token t => rw [stampAll]; exact ih
    | node n => rw [stampAll]; exact congrArg (stamp st s n :: ·) ih

/-- The children of a stamped node. -/
theorem nodes_stamp : (stamp st inherited n).nodes =
    n.nodes.map (stamp st (((st.stages.lookup n.id).or n.stage?).getD inherited)) := by
  rw [stamp_eq, nodes, children_restamp]
  exact filterMap_stampAll st _ n.children

end

namespace Stamped

variable {st : State} {m m' : Node} (h : Stamped st m m')

include h

theorem id : m'.id = m.id := by
  obtain ⟨_, rfl⟩ := h
  exact id_stamp ..

theorem kind : m'.kind = m.kind := by
  obtain ⟨_, rfl⟩ := h
  exact kind_stamp ..

theorem span : m'.span = m.span := by
  obtain ⟨_, rfl⟩ := h
  exact span_stamp ..

theorem stage {s : Stage} (hs : st.stages.lookup m.id = some s) : m'.stage? = some s := by
  obtain ⟨_, rfl⟩ := h
  exact stage?_stamp st _ m hs

theorem lookup (store : FactStore) : store.lookup m' = store.lookup m := by
  obtain ⟨_, rfl⟩ := h
  rw [FactStore.lookup, factKey?_stamp]
  rfl

theorem symbol? (store : FactStore) : store.symbol? m' = store.symbol? m := by
  rw [FactStore.symbol?, h.lookup]
  rfl

end Stamped

/-- What holds of all children and their stamped counterparts. -/
theorem Stamped.forall₂_nodes {st : State} {n n' : Node} (h : Stamped st n n')
    {R : Node → Node → Prop} (hR : ∀ c ∈ n.nodes, ∀ c', Stamped st c c' → R c c') :
    List.Forall₂ R n.nodes n'.nodes := by
  obtain ⟨inherited, rfl⟩ := h
  rw [nodes_stamp, List.forall₂_map_right_iff, List.forall₂_same]
  exact fun c hc => hR c hc _ ⟨_, rfl⟩

/-- The nodes of a stamped tree are stamped. -/
theorem stamped_preorder {st : State} {n n' : Node} (h : Stamped st n n') :
    List.Forall₂ (Stamped st) n.preorder n'.preorder := by
  have parts : List.Forall₂ (fun c c' => List.Forall₂ (Stamped st) c.preorder c'.preorder)
      n.nodes n'.nodes := h.forall₂_nodes fun c hc c' hs => by
    have := size_lt_of_mem hc
    exact stamped_preorder hs
  rw [preorder_eq, preorder_eq, preorderAll_eq, preorderAll_eq]
  exact .cons h (List.rel_flatMap parts fun _ _ hc => hc)
termination_by n.size

/-- The ways up from the nodes of a stamped tree lead over stamped nodes. -/
theorem stamped_above {st : State} (id : Nat) {n n' : Node} (h : Stamped st n n') :
    Option.Rel (List.Forall₂ fun step step' =>
        Stamped st step.1 step'.1 ∧ Stamped st step.2 step'.2)
      (n.above id) (n'.above id) := by
  have parts := h.forall₂_nodes fun c hc c' hs => by
    have := size_lt_of_mem hc
    exact And.intro hs (stamped_above id hs)
  rw [above_eq, above_eq, h.id]
  split
  · exact .some .nil
  · generalize n.nodes = cs at parts
    generalize n'.nodes = cs' at parts
    induction parts with
    | nil => exact .none
    | @cons c c' _ _ hc _ ih =>
      rw [List.findSome?_cons, List.findSome?_cons]
      obtain ⟨hc, above⟩ := hc
      generalize c.above id = inner at above
      generalize c'.above id = inner' at above
      cases above with
      | none => exact ih
      | some steps => exact .some (List.rel_append steps (.cons ⟨h, hc⟩ .nil))
termination_by n.size

/-- The way up from a stamped node leads over the stamped nodes of the way up from the node. -/
theorem Stamped.exists_above {st : State} {id : Nat} {n n' : Node} (h : Stamped st n n')
    {steps : List (Node × Node)} (hs : n.above id = some steps) :
    ∃ steps', n'.above id = some steps' ∧ List.Forall₂
      (fun step step' => Stamped st step.1 step'.1 ∧ Stamped st step.2 step'.2) steps steps' := by
  have rel := stamped_above id h
  rw [hs] at rel
  generalize n'.above id = found at rel
  cases rel with
  | some ways => exact ⟨_, rfl, ways⟩

theorem map_of_stamped {st : State} {ms ms' : List Node} (h : List.Forall₂ (Stamped st) ms ms')
    {β : Type} {f : Node → β} (hf : ∀ m m', Stamped st m m' → f m' = f m) :
    ms'.map f = ms.map f := by
  induction h with
  | nil => rfl
  | cons hs _ ih => rw [List.map_cons, List.map_cons, hf _ _ hs, ih]

theorem Stamped.numbered {st : State} {n n' : Node} (h : Stamped st n n') (hn : n.Numbered) :
    n'.Numbered := by
  rw [Numbered, map_of_stamped (stamped_preorder h) fun _ _ h => h.id]
  exact hn

/-- Classifying a tree stamps it. -/
theorem stamped_of_classify {store : FactStore} {env : Environment} {n : Node} {c : Classification}
    (hc : classify store env n = .ok c) : ∃ st, Stamped st n c.tree := by
  unfold classify at hc
  cases hv : (visit n store env n.size (.free []) n).run .initial with
  | error e => rw [hv] at hc; cases hc
  | ok r =>
    rw [hv] at hc
    cases hc
    exact ⟨r.2, .either, rfl⟩

end Staging

end Stencil
