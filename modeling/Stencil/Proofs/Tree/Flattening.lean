import Stencil.Proofs.Tree.Shadowing

/-!
# What flattening does to a tree

A block that dissolves into the block around it takes nothing with it: the tokens and nodes of the
tree stand in the same order as before, and only marked blocks that stood in blocks are missing.
What a block inherits from a block that dissolves can keep it from dissolving itself, but never make
a further block dissolve, so one pass leaves nothing to be done.

Results:

* `settled_flatten` – afterwards no block has a child that dissolves;
* `drops_flatten` – nothing but marked blocks in blocks goes missing;
* `rewrite?_eq_none_iff`, `map_eq_rewrite?` – a tree is shared exactly if no node changes, and
  shared or not, the result is the same;
* `flatten_lossless` – all of it.
-/
namespace Stencil.Node

/-! ## Blocks that dissolve -/

/-- A block that may not stand directly in a block: one marked for it, or one that is merely
synthetic and declares no variable. -/
def Dissolves (n : Node) : Prop :=
  n.kind = .block ∧
    (.flatten ∈ n.marks ∨ .synthetic ∈ n.marks ∧ ∀ s ∈ n.nodes, s.kind ≠ .localDeclaration)

/-- No block has a direct child that dissolves. -/
def Settled (t : Node) : Prop :=
  ∀ b ∈ t.preorder, b.kind = .block → ∀ c ∈ b.nodes, ¬c.Dissolves

theorem isInlined_iff {n : Node} : n.isInlined = true ↔ n.Dissolves := by
  simp [isInlined, Dissolves, hasMark]

theorem settled_iff {t : Node} :
    t.Settled ↔ (t.kind = .block → ∀ c ∈ t.nodes, ¬c.Dissolves) ∧ ∀ c ∈ t.nodes, c.Settled := by
  constructor
  · intro h
    exact ⟨h t t.mem_preorder_self, fun c hc b hb => h b (preorder_subset hc hb)⟩
  · rintro ⟨here, below⟩ b hb
    rcases mem_preorder.1 hb with rfl | ⟨c, hc, hb⟩
    · exact here
    · exact below c hc b hb

/-- After flattening no block has a child that dissolves. -/
theorem settled_flatten (t : Node) : t.flatten.Settled := by
  have below (c : Node) (hc : c ∈ t.nodes) : c.flatten.Settled := by
    have := size_lt_of_mem hc
    exact settled_flatten c
  refine settled_iff.2 ?_
  by_cases hb : t.kind = .block
  · -- the children are what the statements of the block became
    have each : ∀ d ∈ t.flatten.nodes, ¬d.Dissolves ∧ d.Settled := by
      rw [nodes_flatten_block hb]
      intro d hd
      obtain ⟨c, hc, hd⟩ := List.mem_flatMap.1 hd
      have settled := below c hc
      unfold contents at hd
      split at hd
      · next inlined =>
        have block : c.flatten.kind = .block := (isInlined_iff.1 inlined).1
        obtain ⟨here, deeper⟩ := settled_iff.1 settled
        exact ⟨here block d hd, deeper d hd⟩
      · next stays =>
        obtain rfl := List.mem_singleton.1 hd
        exact ⟨fun h => stays (isInlined_iff.2 h), settled⟩
    exact ⟨fun _ d hd => (each d hd).1, fun d hd => (each d hd).2⟩
  · refine ⟨fun h => absurd (t.kind_flatten ▸ h) hb, ?_⟩
    rw [nodes_flatten hb]
    simpa using below
termination_by t.size

/-! ## Tokens and nodes in order -/

/-- What a node is apart from its children. -/
structure Header where
  id : Nat
  kind : NodeKind
  span : Span
  marks : List Mark
deriving DecidableEq, Repr

/-- A token or node of a tree, and the kind of the node that it is a child of. -/
structure Entry where
  parent : Option NodeKind
  part : Child Header
deriving Repr

mutual

/-- The node and all tokens and nodes below it, parents before children, in source order. -/
def entries (parent : Option NodeKind) : Node → List Entry
  | ⟨id, kind, span, marks, children⟩ =>
    ⟨parent, .node ⟨id, kind, span, marks⟩⟩ :: entriesAll kind children

def entriesAll (parent : NodeKind) : List (Child Node) → List Entry
  | [] => []
  | .token t :: rest => ⟨some parent, .token t⟩ :: entriesAll parent rest
  | .node n :: rest => entries (some parent) n ++ entriesAll parent rest

end

/-- A marked block whose parent is a block. -/
def Entry.IsRemovable (e : Entry) : Prop :=
  e.parent = some .block ∧
    ∃ h, e.part = .node h ∧ h.kind = .block ∧ (.flatten ∈ h.marks ∨ .synthetic ∈ h.marks)

/-- The second list is the first one without some of its members with `P`. -/
inductive Drops {α : Type} (P : α → Prop) : List α → List α → Prop
  | nil : Drops P [] []
  | keep (x : α) {xs ys : List α} (h : Drops P xs ys) : Drops P (x :: xs) (x :: ys)
  | drop {x : α} (hx : P x) {xs ys : List α} (h : Drops P xs ys) : Drops P (x :: xs) ys

namespace Drops

variable {α : Type} {P : α → Prop} {xs ys zs us vs : List α}

theorem refl (xs : List α) : Drops P xs xs := by
  induction xs with
  | nil => exact .nil
  | cons x xs ih => exact .keep x ih

theorem trans (h : Drops P xs ys) (h' : Drops P ys zs) : Drops P xs zs := by
  induction h generalizing zs with
  | nil => exact h'
  | keep x _ ih =>
    cases h' with
    | keep _ h' => exact .keep x (ih h')
    | drop hx h' => exact .drop hx (ih h')
  | drop hx _ ih => exact .drop hx (ih h')

theorem append (h : Drops P xs ys) (h' : Drops P us vs) : Drops P (xs ++ us) (ys ++ vs) := by
  induction h with
  | nil => exact h'
  | keep x _ ih => exact .keep x ih
  | drop hx _ ih => exact .drop hx ih

end Drops

theorem entriesAll_append (parent : NodeKind) (cs ds : List (Child Node)) :
    entriesAll parent (cs ++ ds) = entriesAll parent cs ++ entriesAll parent ds := by
  induction cs with
  | nil => simp [entriesAll]
  | cons c cs ih => cases c <;> simp [entriesAll, ih]

/-- A block that dissolves leaves its contents. -/
theorem drops_inlined (c : Child Node) :
    Drops Entry.IsRemovable (entriesAll .block [c]) (entriesAll .block (inlined c)) := by
  unfold inlined
  split
  · exact .refl _
  · next n =>
    split
    · next h =>
      obtain ⟨block, marked⟩ := isInlined_iff.1 h
      obtain ⟨id, kind, span, marks, children⟩ := n
      obtain rfl : kind = .block := block
      simp only [entriesAll, entries, List.append_nil]
      exact .drop ⟨rfl, _, rfl, rfl, marked.imp_right And.left⟩ (.refl _)
    · exact .refl _

theorem drops_flatMap_inlined (cs : List (Child Node)) :
    Drops Entry.IsRemovable (entriesAll .block cs) (entriesAll .block (cs.flatMap inlined)) := by
  induction cs with
  | nil => exact .refl _
  | cons c cs ih =>
    rw [List.flatMap_cons, entriesAll_append, ← List.singleton_append, entriesAll_append]
    exact (drops_inlined c).append ih

theorem drops_flattenHere (parent : Option NodeKind) (n : Node) :
    Drops Entry.IsRemovable (n.entries parent) (n.flattenHere.entries parent) := by
  unfold flattenHere
  split
  · next block =>
    obtain ⟨id, kind, span, marks, children⟩ := n
    obtain rfl : kind = .block := block
    simp only [entries]
    exact .keep _ (drops_flatMap_inlined children)
  · exact .refl _

mutual

/-- Flattening drops marked blocks that stand in blocks, and nothing else. -/
theorem drops_flatten (parent : Option NodeKind) : (n : Node) →
    Drops Entry.IsRemovable (n.entries parent) (n.flatten.entries parent)
  | ⟨id, kind, span, marks, children⟩ => by
    have below := drops_mapAll kind children
    have rebuilt : Drops Entry.IsRemovable (entries parent ⟨id, kind, span, marks, children⟩)
        (entries parent ⟨id, kind, span, marks, mapAll flattenHere children⟩) := by
      simp only [entries]
      exact .keep _ below
    rw [flatten, map]
    exact rebuilt.trans (drops_flattenHere parent _)

theorem drops_mapAll (parent : NodeKind) : (cs : List (Child Node)) →
    Drops Entry.IsRemovable (entriesAll parent cs) (entriesAll parent (mapAll flattenHere cs))
  | [] => by
    rw [mapAll]
    exact .refl _
  | .token t :: rest => by
    rw [mapAll, entriesAll, entriesAll]
    exact .keep _ (drops_mapAll parent rest)
  | .node n :: rest => by
    rw [mapAll, entriesAll, entriesAll]
    exact (drops_flatten (some parent) n).append (drops_mapAll parent rest)

end

/-! ## Sharing -/

section

variable {f : Node → Option Node}

mutual

/-- A tree is shared exactly if none of its nodes changes. -/
theorem rewrite?_eq_none_iff : (n : Node) →
    (n.rewrite? f = none ↔ ∀ m ∈ n.preorder, f m = none)
  | ⟨id, kind, span, marks, children⟩ => by
    have below := rewriteAll?_eq_none_iff children
    rw [rewrite?, preorder, List.forall_mem_cons]
    cases hc : rewriteAll? f children with
    | none => simpa using fun _ => below.1 hc
    | some cs =>
      have changed : ¬∀ m ∈ preorderAll children, f m = none := by simp [← below, hc]
      simp [changed]

theorem rewriteAll?_eq_none_iff : (cs : List (Child Node)) →
    (rewriteAll? f cs = none ↔ ∀ m ∈ preorderAll cs, f m = none)
  | [] => by simp [rewriteAll?, preorderAll]
  | .token t :: rest => by simpa [rewriteAll?, preorderAll] using rewriteAll?_eq_none_iff rest
  | .node n :: rest => by
    have first := rewrite?_eq_none_iff n
    have later := rewriteAll?_eq_none_iff rest
    rw [rewriteAll?, preorderAll, List.forall_mem_append, ← first, ← later]
    cases n.rewrite? f <;> cases rewriteAll? f rest <;> simp

end

mutual

/-- Shared or not, the result is the tree that is rebuilt. -/
theorem map_eq_rewrite? : (n : Node) →
    n.map (fun m => (f m).getD m) = (n.rewrite? f).getD n
  | ⟨id, kind, span, marks, children⟩ => by
    have below := mapAll_eq_rewriteAll? children
    rw [map, rewrite?, below]
    cases rewriteAll? f children <;> rfl

theorem mapAll_eq_rewriteAll? : (cs : List (Child Node)) →
    mapAll (fun m => (f m).getD m) cs = (rewriteAll? f cs).getD cs
  | [] => by simp [mapAll, rewriteAll?]
  | .token t :: rest => by
    rw [mapAll, rewriteAll?, mapAll_eq_rewriteAll? rest]
    cases rewriteAll? f rest <;> rfl
  | .node n :: rest => by
    rw [mapAll, rewriteAll?, map_eq_rewrite? n, mapAll_eq_rewriteAll? rest]
    cases n.rewrite? f <;> cases rewriteAll? f rest <;> rfl

end

end

/-- A block of which no child dissolves stays as it is. -/
theorem flattenHere_eq (n : Node) : n.flattenHere = (n.flattenHere?).getD n := by
  unfold flattenHere?
  split
  · rfl
  · next h =>
    unfold flattenHere
    split
    · next block =>
      have stays : ∀ c ∈ n.children, inlined c = [c] := by
        intro c hc
        cases c with
        | token t => rfl
        | node m =>
          have : m.isInlined = false := by
            by_contra inlined
            exact h (by simpa [block] using ⟨m, mem_nodes.2 hc, by simpa using inlined⟩)
          simp [inlined, this]
      have same : n.children.flatMap inlined = n.children := by
        rw [List.flatMap_congr stays, List.flatMap_singleton']
      rw [same, Option.getD_none]
      cases n
      rfl
    · rfl

theorem flatten_eq_flatten? (t : Node) : t.flatten = t.flatten?.getD t := by
  have same : flattenHere = fun m => (m.flattenHere?).getD m := funext flattenHere_eq
  rw [flatten, same, map_eq_rewrite?]
  rfl

theorem flatten?_eq_none_iff {t : Node} : t.flatten? = none ↔ t.Settled := by
  rw [flatten?, rewrite?_eq_none_iff, Settled]
  refine forall₂_congr fun b _ => ?_
  simp [flattenHere?, ← isInlined_iff]

theorem flatten_of_settled {t : Node} (h : t.Settled) : t.flatten = t := by
  rw [flatten_eq_flatten?, flatten?_eq_none_iff.2 h]
  rfl

/-- Flattening leaves no block with a child that dissolves, drops marked blocks that stand in blocks
and nothing else, has nothing left to do when it is done again, and gives the tree itself back
exactly if no block has a child that dissolves. -/
theorem flatten_lossless (t : Node) :
    t.flatten.Settled ∧
    Drops Entry.IsRemovable (t.entries none) (t.flatten.entries none) ∧
    t.flatten.flatten = t.flatten ∧
    (t.flatten? = none ↔ t.Settled) ∧ (t.flatten = t ↔ t.Settled) ∧
    t.flatten = t.flatten?.getD t := by
  have settled := settled_flatten t
  refine ⟨settled, drops_flatten none t, flatten_of_settled settled, flatten?_eq_none_iff,
    ⟨fun same => ?_, flatten_of_settled⟩, flatten_eq_flatten? t⟩
  rw [← same]
  exact settled

/-- A synthetic block that inherits a declaration stays, and one without any goes. -/
example :
    let declaring := (Node.build .block [.node (.build .localDeclaration [])]).mark .flatten
    let inheriting := (Node.build .block [.node declaring]).mark .synthetic
    let empty := (Node.build .block []).mark .synthetic
    ((Node.build .block [.node inheriting, .node empty]).flatten.entries none).map (·.parent) =
      [none, some .block, some .block] := by
  decide

end Stencil.Node
