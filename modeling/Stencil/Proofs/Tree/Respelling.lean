import Mathlib.Data.List.Forall2
import Stencil.Proofs.Tree.Tidy

/-!
# Trees spelled again

A tree that is printed and read again has new numbers and places and no marks, and where its layout
writes parentheses there are parenthesized nodes. `Respells true n n'` says that `n'` is such a tree
for `n`; in `Respells false n n'` nothing but numbers, places and marks differs.

Results:

* `Node.height_lt_of_mem` – a child is less high than its parent;
* `Respells.nodes` – child nodes are spelled again one by one, operands perhaps in parentheses;
* `Respells.tokens` – tokens keep their kinds and texts.
-/
namespace Stencil

namespace Node

/-! ## Height -/

mutual

/-- How deep nodes nest in the tree. -/
def height : Node → Nat
  | ⟨_, _, _, _, children⟩ => heightAll children + 1

def heightAll : List (Child Node) → Nat
  | [] => 0
  | .token _ :: rest => heightAll rest
  | .node n :: rest => max (height n) (heightAll rest)

end

theorem height_le_heightAll {m : Node} :
    {cs : List (Child Node)} → .node m ∈ cs → m.height ≤ heightAll cs
  | .token t :: rest, h => by
    rw [heightAll]
    exact height_le_heightAll (by simpa using h)
  | .node n :: rest, h => by
    rw [heightAll]
    rcases List.mem_cons.1 h with h | h
    · cases h; omega
    · have := height_le_heightAll h; omega

/-- A child is less high than its parent. -/
theorem height_lt_of_mem {n m : Node} (h : m ∈ n.nodes) : m.height < n.height := by
  have hc := height_le_heightAll (mem_nodes.1 h)
  obtain ⟨id, kind, span, marks, children⟩ := n
  simpa [height] using Nat.lt_succ_of_le hc

theorem height_pos (n : Node) : 0 < n.height := by
  obtain ⟨id, kind, span, marks, children⟩ := n
  rw [height]
  exact Nat.succ_pos _

mutual

theorem height_le_size : (n : Node) → n.height ≤ n.size
  | ⟨_, _, _, _, children⟩ => by
    rw [height, size]
    exact Nat.succ_le_succ (heightAll_le_sizeAll children)

theorem heightAll_le_sizeAll : (cs : List (Child Node)) → heightAll cs ≤ sizeAll cs
  | [] => Nat.le_refl _
  | .token t :: rest => by
    rw [heightAll, sizeAll]
    exact heightAll_le_sizeAll rest
  | .node n :: rest => by
    rw [heightAll, sizeAll]
    have := height_le_size n
    have := heightAll_le_sizeAll rest
    omega

end

theorem tidy_bare_eq (fence : Bool) (n : Node) :
    n.bare.tidy fence = ⟨0, n.kind, .detached, [],
      fencedChildren fence n.kind (n.children.map (Child.mapped fun m => m.bare.tidy fence))⟩ := by
  have twice (c : Child Node) :
      (c.mapped bare).mapped (tidy fence) = c.mapped fun m => m.bare.tidy fence := by
    cases c <;> rfl
  rw [tidy_eq, bare_eq]
  simp only [List.map_map, Function.comp_def, twice]

/-- A tree without marks is tidied to its code alone. -/
theorem tidy_bare_of_unmarked (fence : Bool) (n : Node) (h : ∀ m ∈ n.preorder, m.marks = []) :
    n.bare.tidy fence = n.tidy fence := by
  have below (m : Node) (hm : .node m ∈ n.children) : m.bare.tidy fence = m.tidy fence := by
    have := size_lt_of_mem (mem_nodes.2 hm)
    exact tidy_bare_of_unmarked fence m fun x hx => h x (preorder_subset (mem_nodes.2 hm) hx)
  rw [tidy_bare_eq, tidy_eq, h n n.mem_preorder_self]
  congr 2
  refine List.map_congr_left fun c hc => ?_
  cases c with
  | token t => rfl
  | node m => exact congrArg Child.node (below m hc)
termination_by n.size

end Node

/-! ## Spelling again -/

/-- `n'` is `n` with other numbers, places and marks and, with `fence`, with parentheses where the
layout of `n` writes them. -/
def Respells (fence : Bool) (n n' : Node) : Prop := n'.bare.tidy false = n.bare.tidy fence

/-- A part of a node of kind `parent`, spelled again: an operand may be in parentheses. -/
inductive Respells.Part (fence : Bool) (parent : NodeKind) (n : Node) : Node → Prop
  | plain {n' : Node} (h : Respells fence n n') : Part fence parent n n'
  | fenced {n' inner : Node} (hf : fence = true) (hp : parent.hasOperand) (hk : n.kind.fencedOperand)
    (outer : n'.kind = .parenthesized) (inside : n'.nodes = [inner])
    (h : Respells fence n inner) : Part fence parent n n'

/-- What cannot be an operand in parentheses is spelled again as it is. -/
theorem Respells.Part.respells {fence : Bool} {parent : NodeKind} {n n' : Node}
    (h : Part fence parent n n')
    (hk : fence = true → parent.hasOperand → n.kind.fencedOperand = false) :
    Respells fence n n' := by
  cases h with
  | plain h => exact h
  | fenced hf hp hfenced =>
    rw [hk hf hp] at hfenced
    cases hfenced

/-- What the layout puts in parentheses is an operand that needs them. -/
theorem forall₂_fencedChildren (fence : Bool) (kind : NodeKind) (cs : List (Child Node)) :
    List.Forall₂ (fun c d => ∃ p : NodeKind → Bool, d = c.fenced p ∧
        ∀ k, p k → fence = true ∧ kind.hasOperand ∧ k.fencedOperand)
      cs (fencedChildren fence kind cs) := by
  have bare (c : Child Node) : ∃ p : NodeKind → Bool, c = c.fenced p ∧
      ∀ k, p k → fence = true ∧ kind.hasOperand ∧ k.fencedOperand :=
    ⟨fun _ => false, by cases c <;> rfl, by simp⟩
  have all (cs : List (Child Node)) : List.Forall₂ (fun c d => ∃ p : NodeKind → Bool,
      d = c.fenced p ∧ ∀ k, p k → fence = true ∧ kind.hasOperand ∧ k.fencedOperand) cs cs :=
    List.forall₂_same.2 fun c _ => bare c
  have operand (hk : kind.hasOperand) (c : Child Node) : ∃ p : NodeKind → Bool,
      (c.fenced fun k => fence && k.fencedOperand) = c.fenced p ∧
        ∀ k, p k → fence = true ∧ kind.hasOperand ∧ k.fencedOperand :=
    ⟨_, rfl, fun k h => by simp_all⟩
  have binaryOperand (hk : kind.hasOperand) (c : Child Node) : ∃ p : NodeKind → Bool,
      (c.fenced fun k => fence && k.fencedBinaryOperand) = c.fenced p ∧
        ∀ k, p k → fence = true ∧ kind.hasOperand ∧ k.fencedOperand :=
    ⟨_, rfl, fun k h => by simp_all [fencedOperand_of_fencedBinaryOperand]⟩
  unfold fencedChildren
  split
  · exact List.forall₂_map_right_iff.2 (List.forall₂_same.2 fun c _ => binaryOperand rfl c)
  · exact .cons (binaryOperand rfl _) (all _)
  · exact List.forall₂_map_right_iff.2 (List.forall₂_same.2 fun c _ => operand rfl c)
  · exact List.forall₂_map_right_iff.2 (List.forall₂_same.2 fun c _ => operand rfl c)
  · exact List.forall₂_map_right_iff.2 (List.forall₂_same.2 fun c _ => operand rfl c)
  · exact List.forall₂_map_right_iff.2 (List.forall₂_same.2 fun c _ => operand rfl c)
  · exact .cons (operand rfl _) (all _)
  · exact .cons (operand rfl _) (all _)
  · exact .cons (bare _) (List.forall₂_map_right_iff.2 (List.forall₂_same.2 fun c _ => operand rfl c))
  · exact all _

namespace Respells

variable {fence : Bool} {n n' : Node}

theorem refl (n : Node) : Respells false n n := rfl

theorem kind (h : Respells fence n n') : n'.kind = n.kind := by
  have := congrArg Node.kind h
  rwa [Node.tidy_bare_eq, Node.tidy_bare_eq] at this

/-- Children correspond one by one. -/
theorem children (h : Respells fence n n') :
    List.Forall₂ (fun c c' : Child Node => ∃ p : NodeKind → Bool,
        (c'.mapped fun m => m.bare.tidy false) = (c.mapped fun m => m.bare.tidy fence).fenced p ∧
          ∀ k, p k → fence = true ∧ n.kind.hasOperand ∧ k.fencedOperand)
      n.children n'.children := by
  have same := congrArg Node.children h
  rw [Node.tidy_bare_eq, Node.tidy_bare_eq] at same
  simp only [fencedChildren_false] at same
  have parts := forall₂_fencedChildren fence n.kind
    (n.children.map (Child.mapped fun m => m.bare.tidy fence))
  rw [← same, List.forall₂_map_left_iff, List.forall₂_map_right_iff] at parts
  exact parts

/-- Tokens keep their kinds and texts. -/
theorem tokens (h : Respells fence n n') :
    List.Forall₂ (fun t t' : Token => t'.unplaced = t.unplaced) n.tokens n'.tokens := by
  have parts := h.children
  unfold Node.tokens
  generalize n.children = cs, n'.children = cs' at parts
  induction parts with
  | nil => exact .nil
  | @cons c c' _ _ hc _ ih =>
    obtain ⟨p, hp, -⟩ := hc
    cases c with
    | token t =>
      cases c' with
      | token t' => exact .cons (Child.token.inj hp) ih
      | node m' => cases hp
    | node m =>
      cases c' with
      | token t' => cases hp
      | node m' => exact ih

/-- Child nodes are spelled again one by one. -/
theorem nodes (h : Respells fence n n') :
    List.Forall₂ (Part fence n.kind) n.nodes n'.nodes := by
  have parts := h.children
  unfold Node.nodes
  generalize n.children = cs, n'.children = cs' at parts
  induction parts with
  | nil => exact .nil
  | @cons c c' _ _ hc _ ih =>
    obtain ⟨p, hp, hfence⟩ := hc
    cases c with
    | token t =>
      cases c' with
      | token t' => exact ih
      | node m' => cases hp
    | node m =>
      cases c' with
      | token t' => cases hp
      | node m' =>
        refine .cons ?_ ih
        have hp : m'.bare.tidy false = (m.bare.tidy fence).fencedIf (p m.kind) := by
          have := Child.node.inj hp
          rwa [Node.kind_tidy, show m.bare.kind = m.kind by rw [Node.bare_eq]] at this
        cases hpk : p m.kind with
        | false =>
          rw [hpk] at hp
          exact .plain hp
        | true =>
          rw [hpk] at hp
          obtain ⟨hf, hop, hk⟩ := hfence _ hpk
          have hp : m'.bare.tidy false = (m.bare.tidy fence).parens := hp
          rw [Node.tidy_bare_eq, Node.parens, fencedChildren_false] at hp
          injection hp with _ outer _ _ inside
          obtain ⟨c, cs, hcs, hc, hnil⟩ := List.map_eq_cons_iff.1 inside
          cases List.map_eq_nil_iff.1 hnil
          cases c with
          | token t => cases hc
          | node inner =>
            exact .fenced hf hop hk outer (by simp [Node.nodes, hcs]) (Child.node.inj hc)

theorem forall₂_nodes (h : Respells fence n n') {R : Node → Node → Prop}
    (hR : ∀ m m', m ∈ n.nodes → m' ∈ n'.nodes → Part fence n.kind m m' → R m m') :
    List.Forall₂ R n.nodes n'.nodes := by
  obtain ⟨hlen, hparts⟩ := List.forall₂_iff_get.1 h.nodes
  exact List.forall₂_iff_get.2 ⟨hlen, fun i hi hi' =>
    hR _ _ (List.get_mem _ _) (List.get_mem _ _) (hparts i hi hi')⟩

/-- Children correspond by their places. -/
theorem node? (h : Respells fence n n') (i : Nat) :
    (n.node? i = none ∧ n'.node? i = none) ∨
      ∃ m m', n.node? i = some m ∧ n'.node? i = some m' ∧ Part fence n.kind m m' := by
  have parts := h.nodes
  unfold Node.node?
  generalize n.nodes = ns, n'.nodes = ns' at parts
  induction parts generalizing i with
  | nil => exact .inl ⟨rfl, rfl⟩
  | cons hm _ ih =>
    cases i with
    | zero => exact .inr ⟨_, _, rfl, rfl, hm⟩
    | succ i => exact ih i

/-! ### What an interpreter reads of a node -/

theorem tokenOfKind? (h : Respells fence n n') (kind : TokenKind) :
    (n'.tokenOfKind? kind).map Token.text = (n.tokenOfKind? kind).map Token.text := by
  have parts := h.tokens
  unfold Node.tokenOfKind?
  generalize n.tokens = ts, n'.tokens = ts' at parts
  induction parts with
  | nil => rfl
  | @cons t t' _ _ ht _ ih =>
    obtain ⟨hk, htext⟩ : t'.kind = t.kind ∧ t'.text = t.text := by
      simpa [Token.unplaced] using ht
    rw [List.find?_cons, List.find?_cons, hk]
    split
    · simp [htext]
    · exact ih

theorem nameOrEmpty (h : Respells fence n n') : n'.nameOrEmpty = n.nameOrEmpty :=
  congrArg (·.getD "") (h.tokenOfKind? .identifier)

theorem hasAwait (h : Respells fence n n') : n'.hasAwait = n.hasAwait := by
  have := congrArg Option.isSome (h.tokenOfKind? .awaitKeyword)
  simpa [Node.hasAwait] using this

theorem token? (h : Respells fence n n') :
    n'.token?.map Token.unplaced = n.token?.map Token.unplaced := by
  have parts := h.tokens
  unfold Node.token?
  generalize n.tokens = ts, n'.tokens = ts' at parts
  cases parts with
  | nil => rfl
  | cons ht _ => simp [ht]

theorem tokenText (h : Respells fence n n') : n'.tokenText = n.tokenText := by
  have := congrArg (fun o => (o.map Token.text).getD "") h.token?
  simpa [Node.tokenText, Option.map_map, Function.comp_def, Token.unplaced] using this

/-- The only child, where no operand is in parentheses. -/
theorem only (h : Respells fence n n') {m : Node} (hn : n.nodes = [m])
    (hk : n.kind.hasOperand → m.kind.fencedOperand = false) :
    ∃ m', n'.nodes = [m'] ∧ Respells fence m m' := by
  have parts := h.nodes
  rw [hn] at parts
  obtain ⟨m', _, hm, hrest, hn'⟩ := List.forall₂_cons_left_iff.1 parts
  cases hrest
  exact ⟨m', hn', hm.respells fun _ => hk⟩

/-- The first child of a kind, where that is never an operand in parentheses. -/
theorem nodeOfKind? (h : Respells fence n n') (kind : NodeKind) (hk : kind.fencedOperand = false)
    (hp : kind ≠ .parenthesized) :
    (n.nodeOfKind? kind = none ∧ n'.nodeOfKind? kind = none) ∨
      ∃ m m', n.nodeOfKind? kind = some m ∧ n'.nodeOfKind? kind = some m' ∧ Respells fence m m' := by
  have parts := h.nodes
  unfold Node.nodeOfKind?
  generalize n.nodes = ns, n'.nodes = ns' at parts
  induction parts with
  | nil => exact .inl ⟨rfl, rfl⟩
  | @cons m m' _ _ hm _ ih =>
    rw [List.find?_cons, List.find?_cons]
    cases hm with
    | plain hm =>
      rw [hm.kind]
      split
      · exact .inr ⟨m, m', rfl, rfl, hm⟩
      · exact ih
    | fenced _ _ hf outer _ _ =>
      have here : (m.kind == kind) = false := by
        rw [beq_eq_false_iff_ne]
        rintro rfl
        simp [hk] at hf
      have there : (m'.kind == kind) = false := by
        rw [beq_eq_false_iff_ne, outer]
        exact hp.symm
      rw [here, there]
      exact ih

end Respells

end Stencil
