import Mathlib.Data.List.Nodup
import Mathlib.Data.List.Pairwise
import Stencil.Proofs.Tree.Shadowing
import Stencil.Tree.Ancestors

/-!
# Ways through numbered trees

In a tree whose nodes have distinct numbers a node is found by its number, stands below one child of
each of its ancestors, and the way up from it is the way up within that child, and one step more.

Results:

* `Numbered.siblings` – the subtrees of two children share no number;
* `Numbered.above_child`, `Numbered.above_of_mem_nodes` – the way up from a node, step by step, from
  its top and from its bottom;
* `Numbered.parent_unique` – a node has one parent.
-/
namespace Stencil.Node

/-- No two nodes of the tree have one number. -/
def Numbered (n : Node) : Prop := (n.preorder.map id).Nodup

/-- No number of the one tree is one of the other. -/
def Disjoint (n m : Node) : Prop := ∀ x ∈ n.preorder, ∀ y ∈ m.preorder, x.id ≠ y.id

theorem numbered_iff {n : Node} : n.Numbered ↔
    (∀ c ∈ n.nodes, ∀ x ∈ c.preorder, x.id ≠ n.id) ∧ (∀ c ∈ n.nodes, c.Numbered) ∧
      n.nodes.Pairwise Disjoint := by
  have ids : n.preorder.map id = n.id :: n.nodes.flatMap fun c => c.preorder.map id := by
    rw [preorder_eq, preorderAll_eq, List.map_cons, List.map_flatMap]
    rfl
  rw [Numbered, ids, List.nodup_cons, List.nodup_flatMap]
  refine and_congr ?_ (and_congr .rfl ?_)
  · simp only [List.mem_flatMap, List.mem_map, not_exists, not_and]
  · rw [iff_iff_eq]
    congr 1
    funext c c'
    simp only [Function.onFun, List.disjoint_left, List.mem_map, forall_exists_index, and_imp,
      forall_apply_eq_imp_iff₂, not_exists, not_and, eq_iff_iff]
    exact ⟨fun h x hx y hy he => h x hx y hy he.symm, fun h x hx y hy he => h x hx y hy he.symm⟩

namespace Numbered

variable {n c x : Node} (h : n.Numbered)

include h

theorem child (hc : c ∈ n.nodes) : c.Numbered := (numbered_iff.1 h).2.1 c hc

theorem id_ne (hc : c ∈ n.nodes) (hx : x ∈ c.preorder) : x.id ≠ n.id :=
  (numbered_iff.1 h).1 c hc x hx

/-- The subtrees of two children share no number. -/
theorem siblings : n.nodes.Pairwise Disjoint := (numbered_iff.1 h).2.2

theorem eq_of_id {m m' : Node} (hm : m ∈ n.preorder) (hm' : m' ∈ n.preorder)
    (he : m.id = m'.id) : m = m' :=
  List.inj_on_of_nodup_map h hm hm' he

/-- A node stands below one child only. -/
theorem child_unique {c' : Node} (hc : c ∈ n.nodes) (hc' : c' ∈ n.nodes) (hx : x ∈ c.preorder)
    (hx' : x ∈ c'.preorder) : c = c' := by
  by_contra hne
  have : Std.Symm Disjoint := ⟨fun _ _ hd y hy z hz he => hd z hz y hy he.symm⟩
  exact h.siblings.forall hc hc' hne x hx x hx' rfl

end Numbered

theorem Numbered.below {n x : Node} (h : n.Numbered) (hx : x ∈ n.preorder) : x.Numbered := by
  rcases mem_preorder.1 hx with rfl | ⟨c, hc, hx⟩
  · exact h
  · have := size_lt_of_mem hc
    exact (h.child hc).below hx
termination_by n.size

theorem exists_parent {n x : Node} (hx : x ∈ n.preorder) :
    x = n ∨ ∃ p ∈ n.preorder, x ∈ p.nodes := by
  rcases mem_preorder.1 hx with rfl | ⟨c, hc, hx⟩
  · exact .inl rfl
  · have := size_lt_of_mem hc
    rcases exists_parent hx with rfl | ⟨p, hp, hx⟩
    · exact .inr ⟨n, n.mem_preorder_self, hc⟩
    · exact .inr ⟨p, mem_preorder.2 (.inr ⟨c, hc, hp⟩), hx⟩
termination_by n.size

/-! ## The way up -/

theorem aboveAll_eq (id : Nat) (parent : Node) (cs : List (Child Node)) :
    aboveAll id parent cs =
      (cs.filterMap Child.node?).findSome? fun c => (c.above id).map (· ++ [(parent, c)]) := by
  induction cs with
  | nil => rw [aboveAll]; rfl
  | cons c rest ih =>
    cases c with
    | token t => rw [aboveAll, ih]; rfl
    | node n =>
      rw [aboveAll, ih, List.filterMap_cons]
      simp only [Child.node?_node, List.findSome?_cons]
      cases n.above id <;> rfl

theorem above_eq (n : Node) (id : Nat) : n.above id = if n.id = id then some [] else
    n.nodes.findSome? fun c => (c.above id).map (· ++ [(n, c)]) := by
  obtain ⟨own, kind, span, marks, children⟩ := n
  rw [above, aboveAll_eq]
  rfl

theorem above_self (n : Node) : n.above n.id = some [] := by
  rw [above_eq, if_pos rfl]

/-- There is no way up from a node that is not in the tree. -/
theorem above_eq_none {n : Node} {id : Nat} (h : ∀ x ∈ n.preorder, x.id ≠ id) :
    n.above id = none := by
  rw [above_eq, if_neg (h n n.mem_preorder_self), List.findSome?_eq_none_iff]
  intro c hc
  have := size_lt_of_mem hc
  have none : c.above id = none :=
    above_eq_none fun x hx => h x (mem_preorder.2 (.inr ⟨c, hc, hx⟩))
  rw [none]
  rfl
termination_by n.size

/-- Only one member of the list may have a result, so that is the first one. -/
theorem findSome?_eq_of_unique {α β : Type} {f : α → Option β} {xs : List α} {x : α}
    (hx : x ∈ xs) (h : ∀ y ∈ xs, y = x ∨ f y = none) : xs.findSome? f = f x := by
  cases hf : xs.findSome? f with
  | none => exact (List.findSome?_eq_none_iff.1 hf x hx).symm
  | some b =>
    obtain ⟨y, hy, hb⟩ := List.exists_of_findSome?_eq_some hf
    rcases h y hy with rfl | hn
    · exact hb.symm
    · cases hb.symm.trans hn

namespace Numbered

/-- The way up from a node is the way up within the child it stands below, and one step more. -/
theorem above_child {n c x : Node} (h : n.Numbered) (hc : c ∈ n.nodes) (hx : x ∈ c.preorder) :
    n.above x.id = (c.above x.id).map (· ++ [(n, c)]) := by
  rw [above_eq, if_neg (h.id_ne hc hx).symm]
  refine findSome?_eq_of_unique (f := fun c => (c.above x.id).map (· ++ [(n, c)])) hc fun d hd => ?_
  by_cases he : d = c
  · exact .inl he
  · have none : d.above x.id = none := by
      refine above_eq_none fun y hy hid => he ?_
      have same := h.eq_of_id (mem_preorder.2 (.inr ⟨d, hd, hy⟩))
        (mem_preorder.2 (.inr ⟨c, hc, hx⟩)) hid
      exact h.child_unique hd hc hy (same ▸ hx)
    exact .inr (by rw [none]; rfl)

/-- There is a way up from every node of the tree. -/
theorem exists_above {n x : Node} (h : n.Numbered) (hx : x ∈ n.preorder) :
    ∃ steps, n.above x.id = some steps := by
  rcases mem_preorder.1 hx with rfl | ⟨c, hc, hx⟩
  · exact ⟨[], x.above_self⟩
  · have := size_lt_of_mem hc
    obtain ⟨steps, hs⟩ := (h.child hc).exists_above hx
    exact ⟨steps ++ [(n, c)], by rw [h.above_child hc hx, hs]; rfl⟩
termination_by n.size

/-- Every step of the way up leads from a child to its parent, and above the node. -/
theorem mem_of_mem_above {n x : Node} (h : n.Numbered) (hx : x ∈ n.preorder)
    {steps : List (Node × Node)} (hs : n.above x.id = some steps) {p d : Node} (hm : (p, d) ∈ steps) :
    p ∈ n.preorder ∧ d ∈ p.nodes ∧ x ∈ d.preorder := by
  rcases mem_preorder.1 hx with rfl | ⟨c, hc, hx⟩
  · rw [above_self] at hs
    cases hs
    cases hm
  · have := size_lt_of_mem hc
    rw [h.above_child hc hx] at hs
    obtain ⟨inner, hi, rfl⟩ := Option.map_eq_some_iff.1 hs
    rcases List.mem_append.1 hm with hm | hm
    · obtain ⟨hp, hd, hx⟩ := (h.child hc).mem_of_mem_above hx hi hm
      exact ⟨mem_preorder.2 (.inr ⟨c, hc, hp⟩), hd, hx⟩
    · cases List.mem_singleton.1 hm
      exact ⟨n.mem_preorder_self, hc, hx⟩
termination_by n.size

/-- The way up from a child of a node leads over that node. -/
theorem above_of_mem_nodes {n p x : Node} (h : n.Numbered) (hp : p ∈ n.preorder)
    (hx : x ∈ p.nodes) : n.above x.id = (n.above p.id).map ((p, x) :: ·) := by
  rcases mem_preorder.1 hp with rfl | ⟨c, hc, hp⟩
  · rw [h.above_child hx x.mem_preorder_self, above_self, above_self]
    rfl
  · have := size_lt_of_mem hc
    rw [h.above_child hc (mem_preorder_of_mem_nodes hp hx), h.above_child hc hp,
      (h.child hc).above_of_mem_nodes hp hx]
    cases c.above p.id <;> rfl
termination_by n.size

/-- A node has one parent. -/
theorem parent_unique {n p p' x : Node} (h : n.Numbered) (hp : p ∈ n.preorder)
    (hp' : p' ∈ n.preorder) (hx : x ∈ p.nodes) (hx' : x ∈ p'.nodes) : p = p' := by
  obtain ⟨steps, hs⟩ := h.exists_above hp
  obtain ⟨steps', hs'⟩ := h.exists_above hp'
  have two := (h.above_of_mem_nodes hp hx).symm.trans (h.above_of_mem_nodes hp' hx')
  rw [hs, hs'] at two
  exact congrArg Prod.fst (List.cons.inj (Option.some.inj two)).1

end Numbered

end Stencil.Node
