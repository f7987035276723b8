import Stencil.Tree.Basic

/-!
# Ancestors

`Node.above` lists the way from a node up to the root of its tree, as pairs of a parent and the
child the way goes through.
-/
namespace Stencil.Node

mutual

/-- The way from the node numbered `id` up to the root, innermost pair first; `none` if the tree
has no such node. -/
def above (id : Nat) : Node → Option (List (Node × Node))
  | ⟨own, kind, span, marks, children⟩ =>
    if own = id then some [] else aboveAll id ⟨own, kind, span, marks, children⟩ children

def aboveAll (id : Nat) (parent : Node) : List (Child Node) → Option (List (Node × Node))
  | [] => none
  | .token _ :: rest => aboveAll id parent rest
  | .node n :: rest =>
    match above id n with
    | some steps => some (steps ++ [(parent, n)])
    | none => aboveAll id parent rest

end

mutual

theorem size_le_of_mem_preorder {m : Node} : {n : Node} → m ∈ n.preorder → m.size ≤ n.size
  | ⟨id, kind, span, marks, children⟩, h => by
    rw [preorder] at h
    rcases List.mem_cons.1 h with rfl | h
    · exact Nat.le_refl _
    · have := size_le_of_mem_preorderAll h
      rw [size]; omega

theorem size_le_of_mem_preorderAll {m : Node} :
    {cs : List (Child Node)} → m ∈ preorderAll cs → m.size ≤ sizeAll cs
  | [], h => by simp [preorderAll] at h
  | .token _ :: rest, h => by
    rw [preorderAll] at h; rw [sizeAll]
    exact size_le_of_mem_preorderAll h
  | .node n :: rest, h => by
    rw [preorderAll] at h; rw [sizeAll]
    rcases List.mem_append.1 h with h | h
    · have := size_le_of_mem_preorder h; omega
    · have := size_le_of_mem_preorderAll h; omega

end

mutual

/-- No parent on the way up has more nodes than the tree. -/
theorem size_le_of_mem_above {id : Nat} {p c : Node} :
    {n : Node} → {steps : List (Node × Node)} → n.above id = some steps → (p, c) ∈ steps →
      p.size ≤ n.size
  | ⟨own, kind, span, marks, children⟩, steps, h, hm => by
    rw [above] at h
    split at h
    · cases h; simp at hm
    · exact size_le_of_mem_aboveAll h (Nat.le_refl _) (by rw [size]; omega) hm

theorem size_le_of_mem_aboveAll {id bound : Nat} {p c parent : Node} :
    {cs : List (Child Node)} → {steps : List (Node × Node)} →
      aboveAll id parent cs = some steps → parent.size ≤ bound → sizeAll cs ≤ bound →
      (p, c) ∈ steps → p.size ≤ bound
  | [], steps, h, _, _, _ => by simp [aboveAll] at h
  | .token _ :: rest, steps, h, hp, hs, hm => by
    rw [aboveAll] at h; rw [sizeAll] at hs
    exact size_le_of_mem_aboveAll h hp hs hm
  | .node n :: rest, steps, h, hp, hs, hm => by
    rw [aboveAll] at h; rw [sizeAll] at hs
    split at h
    · next inner hi =>
      cases h
      rcases List.mem_append.1 hm with hm | hm
      · have := size_le_of_mem_above hi hm; omega
      · simp only [List.mem_singleton, Prod.mk.injEq] at hm
        rw [hm.1]; exact hp
    · exact size_le_of_mem_aboveAll h hp (by omega) hm

end

mutual

/-- The parents on the way up stand in the tree. -/
theorem mem_preorder_of_mem_above {id : Nat} {p c : Node} :
    {n : Node} → {steps : List (Node × Node)} → n.above id = some steps → (p, c) ∈ steps →
      p ∈ n.preorder
  | ⟨own, kind, span, marks, children⟩, steps, h, hm => by
    rw [above] at h
    split at h
    · cases h; simp at hm
    · rw [preorder]
      exact mem_preorder_of_mem_aboveAll h hm

theorem mem_preorder_of_mem_aboveAll {id : Nat} {p c parent : Node} :
    {cs : List (Child Node)} → {steps : List (Node × Node)} →
      aboveAll id parent cs = some steps → (p, c) ∈ steps → p ∈ parent :: preorderAll cs
  | [], steps, h, _ => by simp [aboveAll] at h
  | .token _ :: rest, steps, h, hm => by
    rw [aboveAll] at h; rw [preorderAll]
    exact mem_preorder_of_mem_aboveAll h hm
  | .node n :: rest, steps, h, hm => by
    rw [aboveAll] at h; rw [preorderAll]
    split at h
    · next inner hi =>
      cases h
      rcases List.mem_append.1 hm with hm | hm
      · exact List.mem_cons_of_mem _ (List.mem_append_left _ (mem_preorder_of_mem_above hi hm))
      · simp only [List.mem_singleton, Prod.mk.injEq] at hm
        rw [hm.1]; exact List.mem_cons_self
    · rcases List.mem_cons.1 (mem_preorder_of_mem_aboveAll h hm) with rfl | hm
      · exact List.mem_cons_self
      · exact List.mem_cons_of_mem _ (List.mem_append_right _ hm)

end

end Stencil.Node
