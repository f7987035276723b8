import Mathlib.Data.List.Pairwise
import Mathlib.Data.List.Sort
import Stencil.Proofs.Staging.Queries
import Stencil.Staging.Projection
import Stencil.Tree.Ancestors

/-!
# Stages seen through a tree

A node marks the parts of its span that no child covers. In a tree whose spans are nested these
parts belong to one node only at each offset, the innermost node there, so the marks of different
nodes never meet and the stage that shows at an offset is that of its innermost node.

Results:

* `covers_gaps` – what is left between spans is what none of them covers;
* `exists_innermost` – each offset of a nested tree has an innermost node, which alone owns it;
* `classify_project` – the partition shows the stage of the innermost node, if it is decided.
-/
namespace Stencil

/-- The byte at `offset` lies in the span. -/
def Span.Covers (s : Span) (offset : Nat) : Prop := s.start ≤ offset ∧ offset < s.stop

namespace Staging

open Node

/-! ## Gaps between spans -/

/-- The gaps between sorted spans hold what no span covers. -/
theorem covers_gaps {ss : List Span} {cursor stop offset : Nat}
    (sorted : ss.Pairwise fun s t => s.start ≤ t.start)
    (fits : ∀ s ∈ ss, s.start ≤ s.stop ∧ s.stop ≤ stop) :
    (∃ t ∈ gaps cursor stop ss, t.Covers offset) ↔
      cursor ≤ offset ∧ offset < stop ∧ ∀ s ∈ ss, ¬s.Covers offset := by
  induction ss generalizing cursor with
  | nil =>
    unfold gaps
    split
    · simp [Span.Covers]
    · simp only [List.not_mem_nil, false_and, exists_false, false_iff]
      omega
  | cons s rest ih =>
    obtain ⟨first, sorted⟩ := List.pairwise_cons.1 sorted
    obtain ⟨⟨hs, hstop⟩, fits⟩ := List.forall_mem_cons.1 fits
    have before : (∃ t ∈ if cursor < s.start then [Span.mk cursor s.start] else [],
        t.Covers offset) ↔ cursor ≤ offset ∧ offset < s.start := by
      split
      · simp [Span.Covers]
      · simp only [List.not_mem_nil, false_and, exists_false, false_iff]
        omega
    simp only [gaps, List.mem_append, or_and_right, exists_or, before, ih sorted fits,
      List.forall_mem_cons]
    unfold Span.Covers
    constructor
    · rintro (⟨hlo, hhi⟩ | ⟨hlo, hhi, none⟩)
      · refine ⟨hlo, by omega, by omega, fun t ht => ?_⟩
        have := first t ht
        omega
      · exact ⟨by omega, hhi, by omega, none⟩
    · rintro ⟨hlo, hhi, here, none⟩
      by_cases hstart : offset < s.start
      · exact .inl ⟨hlo, hstart⟩
      · exact .inr ⟨by omega, hhi, none⟩

theorem sorted_mergeSort (ss : List Span) :
    (ss.mergeSort Span.before).Pairwise fun s t => s.start ≤ t.start := by
  refine (List.pairwise_mergeSort (fun a b c => ?_) (fun a b => ?_) ss).imp fun h => ?_
  · simp only [Span.before, Bool.or_eq_true, Bool.and_eq_true, decide_eq_true_eq, beq_iff_eq]
    omega
  · simp only [Span.before, Bool.or_eq_true, Bool.and_eq_true, decide_eq_true_eq, beq_iff_eq]
    omega
  · simp only [Span.before, Bool.or_eq_true, Bool.and_eq_true, decide_eq_true_eq, beq_iff_eq] at h
    omega

/-! ## Nested trees -/

/-- The spans of the child nodes lie inside the span of the node, one after the other. -/
structure Encloses (n : Node) : Prop where
  ordered : n.span.start ≤ n.span.stop
  inside : ∀ c ∈ n.nodes, n.span.start ≤ c.span.start ∧ c.span.stop ≤ n.span.stop
  apart : n.nodes.Pairwise fun c d => c.span.stop ≤ d.span.start

/-- Every node of the tree encloses its children. -/
def Nests (n : Node) : Prop := ∀ m ∈ n.preorder, Encloses m

/-- The byte belongs to the node, not to any of its children. -/
def Owns (n : Node) (offset : Nat) : Prop :=
  n.span.Covers offset ∧ ∀ c ∈ n.nodes, ¬c.span.Covers offset

/-- The deepest node of the tree whose span has the byte: it stands below all others that do. -/
def IsInnermost (n : Node) (offset : Nat) (m : Node) : Prop :=
  m ∈ n.preorder ∧ m.span.Covers offset ∧ ∀ x ∈ n.preorder, x.span.Covers offset → m ∈ x.preorder

section

variable {offset : Nat}

theorem Nests.child {n : Node} (h : Nests n) {c : Node} (hc : c ∈ n.nodes) : Nests c :=
  fun m hm => h m (mem_preorder.2 (.inr ⟨c, hc, hm⟩))

theorem Encloses.covers {n : Node} (h : Encloses n) {c : Node} (hc : c ∈ n.nodes)
    (hin : c.span.Covers offset) : n.span.Covers offset := by
  obtain ⟨hlo, hhi⟩ := h.inside c hc
  obtain ⟨hstart, hstop⟩ := hin
  exact ⟨by omega, by omega⟩

/-- A node lies inside every node above it. -/
theorem Nests.covers {n m : Node} (h : Nests n) (hm : m ∈ n.preorder) (hin : m.span.Covers offset) :
    n.span.Covers offset := by
  rcases mem_preorder.1 hm with rfl | ⟨c, hc, hm⟩
  · exact hin
  · have := size_lt_of_mem hc
    exact (h n n.mem_preorder_self).covers hc ((h.child hc).covers hm hin)
termination_by n.size

/-- No byte lies in two children. -/
theorem Encloses.eq_of_covers {n c d : Node} (h : Encloses n) (hc : c ∈ n.nodes)
    (hd : d ∈ n.nodes) (hin : c.span.Covers offset) (hin' : d.span.Covers offset) : c = d := by
  by_contra hne
  have symm : Std.Symm fun c d : Node => ¬(c.span.Covers offset ∧ d.span.Covers offset) :=
    ⟨fun _ _ hcd hdc => hcd ⟨hdc.2, hdc.1⟩⟩
  have apart : n.nodes.Pairwise fun c d => ¬(c.span.Covers offset ∧ d.span.Covers offset) := by
    refine h.apart.imp fun hle hboth => ?_
    obtain ⟨⟨-, hstop⟩, hstart, -⟩ := hboth
    omega
  exact apart.forall hc hd hne ⟨hin, hin'⟩

/-- Each byte of a nested tree has an innermost node, and that one alone owns it. -/
theorem exists_innermost {n : Node} (h : Nests n) (hin : n.span.Covers offset) :
    ∃ m, IsInnermost n offset m ∧ Owns m offset ∧ ∀ x ∈ n.preorder, Owns x offset → x = m := by
  have here := h n n.mem_preorder_self
  by_cases hchild : ∃ c ∈ n.nodes, c.span.Covers offset
  · obtain ⟨c, hc, hcover⟩ := hchild
    have := size_lt_of_mem hc
    obtain ⟨m, ⟨hm, hcovers, deepest⟩, owns, only⟩ := exists_innermost (h.child hc) hcover
    have below {x : Node} (hx : x ∈ n.preorder) (hcov : x.span.Covers offset) :
        x = n ∨ x ∈ c.preorder := by
      rcases mem_preorder.1 hx with rfl | ⟨d, hd, hx⟩
      · exact .inl rfl
      · obtain rfl := here.eq_of_covers hc hd hcover ((h.child hd).covers hx hcov)
        exact .inr hx
    have hm' := mem_preorder.2 (.inr ⟨c, hc, hm⟩)
    refine ⟨m, ⟨hm', hcovers, fun x hx hcov => ?_⟩, owns, fun x hx hown => ?_⟩
    · rcases below hx hcov with rfl | hx
      · exact hm'
      · exact deepest x hx hcov
    · rcases below hx hown.1 with rfl | hx
      · exact absurd hcover (hown.2 c hc)
      · exact only x hx hown
  · have none : ∀ c ∈ n.nodes, ¬c.span.Covers offset := fun c hc hcov => hchild ⟨c, hc, hcov⟩
    have root {x : Node} (hx : x ∈ n.preorder) (hcov : x.span.Covers offset) : x = n := by
      rcases mem_preorder.1 hx with rfl | ⟨d, hd, hx⟩
      · rfl
      · exact absurd ((h.child hd).covers hx hcov) (none d hd)
    refine ⟨n, ⟨n.mem_preorder_self, hin, fun x hx hcov => ?_⟩, ⟨hin, none⟩, fun x hx hown => ?_⟩
    · rw [root hx hcov]
      exact n.mem_preorder_self
    · exact root hx hown.1
termination_by n.size

/-- No byte has two innermost nodes. -/
theorem IsInnermost.unique {n m m' : Node} (h : IsInnermost n offset m)
    (h' : IsInnermost n offset m') : m = m' := by
  have hle := size_le_of_mem_preorder (h'.2.2 m h.1 h.2.1)
  rcases mem_preorder.1 (h.2.2 m' h'.1 h'.2.1) with he | ⟨c, hc, hm⟩
  · exact he
  · have := size_le_of_mem_preorder hm
    have := size_lt_of_mem hc
    omega

/-- A node's own parts hold the bytes that it owns. -/
theorem covers_ownSpans {n : Node} (h : Encloses n) :
    (∃ t ∈ ownSpans n, t.Covers offset) ↔ Owns n offset := by
  unfold ownSpans
  split
  · next he =>
    simp only [Span.isEmpty, decide_eq_true_eq] at he
    simp only [List.not_mem_nil, false_and, exists_false, Owns, Span.Covers, false_iff]
    omega
  · have inner (s : Span) :
        s ∈ ((n.nodes.map Node.span).filter (!·.isEmpty)).mergeSort Span.before ↔
          (∃ c ∈ n.nodes, c.span = s) ∧ s.start < s.stop := by
      simp [Span.isEmpty]
    rw [covers_gaps (sorted_mergeSort _)]
    · simp only [inner]
      constructor
      · rintro ⟨hlo, hhi, none⟩
        refine ⟨⟨hlo, hhi⟩, fun c hc hcov => none c.span ⟨⟨c, hc, rfl⟩, ?_⟩ hcov⟩
        exact Nat.lt_of_le_of_lt hcov.1 hcov.2
      · rintro ⟨⟨hlo, hhi⟩, none⟩
        refine ⟨hlo, hhi, fun s hs => ?_⟩
        obtain ⟨⟨c, hc, rfl⟩, -⟩ := hs
        exact none c hc
    · intro s hs
      obtain ⟨⟨c, hc, rfl⟩, hlt⟩ := (inner s).1 hs
      exact ⟨Nat.le_of_lt hlt, (h.inside c hc).2⟩

/-! ## Marks of a tree -/

/-- The marks that a node makes. -/
def paints (n : Node) : List Partition.Mark :=
  match n.stage? with
  | some s => if s.isDeterminate then (ownSpans n).map fun t => ⟨t.start, t.stop, s⟩ else []
  | none => []

theorem paint_eq (p : Partition) (n : Node) :
    paint p n = (paints n).foldl (fun p m => p.mark m.lo m.hi m.stage) p := by
  unfold paint paints
  cases n.stage? with
  | none => rfl
  | some s =>
    cases hd : s.isDeterminate with
    | false => simp [hd]
    | true => simp [hd, List.foldl_map]

theorem project_eq (n : Node) : project n = Partition.markAll (n.preorder.flatMap paints) := by
  rw [project, Partition.markAll, List.foldl_flatMap]
  exact congrArg (n.preorder.foldl · .fresh) (funext₂ paint_eq)

/-- A decided node marks what it owns with its stage. -/
theorem exists_paints {n : Node} (h : Encloses n) (s : Stage) :
    (∃ k ∈ paints n, k.lo ≤ offset ∧ offset < k.hi ∧ k.stage = s) ↔
      n.stage? = some s ∧ s.isDeterminate = true ∧ Owns n offset := by
  rw [← covers_ownSpans h]
  unfold paints
  split
  · next t ht =>
    rw [ht, Option.some.injEq]
    split
    · next hd =>
      simp only [List.mem_map, exists_exists_and_eq_and, Span.Covers]
      constructor
      · rintro ⟨r, hr, hlo, hhi, rfl⟩
        exact ⟨rfl, hd, r, hr, hlo, hhi⟩
      · rintro ⟨rfl, -, r, hr, hlo, hhi⟩
        exact ⟨r, hr, hlo, hhi, rfl⟩
    · next hd =>
      simp only [List.not_mem_nil, false_and, exists_false, false_iff]
      rintro ⟨rfl, hd', -⟩
      exact hd hd'
  · next ht => simp [ht]

/-- The stage that shows of a node: its own one, if that is decided. -/
def shade (n : Node) : Stage :=
  match n.stage? with
  | some s => if s.isDeterminate then s else .either
  | none => .either

/-- Where a node alone owns a byte, its shade is the highest mark there. -/
theorem isHighest_shade {n m : Node} (h : Nests n) (hm : m ∈ n.preorder) (hown : Owns m offset)
    (only : ∀ x ∈ n.preorder, Owns x offset → x = m) :
    Partition.IsHighest (n.preorder.flatMap paints) offset (shade m) := by
  have marked {k : Partition.Mark} (hk : k ∈ n.preorder.flatMap paints) (hlo : k.lo ≤ offset)
      (hhi : offset < k.hi) : shade m = k.stage := by
    obtain ⟨x, hx, hk⟩ := List.mem_flatMap.1 hk
    obtain ⟨hs, hd, hown⟩ := (exists_paints (h x hx) k.stage).1 ⟨k, hk, hlo, hhi, rfl⟩
    rw [only x hx hown] at hs
    simp [shade, hs, hd]
  refine ⟨?_, fun k hk hlo hhi => (marked hk hlo hhi) ▸ Nat.le_refl _⟩
  unfold shade
  split
  · next s hs =>
    split
    · next hd =>
      obtain ⟨k, hk, here⟩ := (exists_paints (h m hm) s).2 ⟨hs, hd, hown⟩
      exact .inr ⟨k, List.mem_flatMap.2 ⟨m, hm, hk⟩, here⟩
    · exact .inl rfl
  · exact .inl rfl

/-- Where no node has a byte, nothing is marked. -/
theorem isHighest_outside {n : Node} (h : Nests n) (hout : ¬n.span.Covers offset) :
    Partition.IsHighest (n.preorder.flatMap paints) offset .either := by
  refine ⟨.inl rfl, fun k hk hlo hhi => ?_⟩
  obtain ⟨x, hx, hk⟩ := List.mem_flatMap.1 hk
  obtain ⟨-, -, hown⟩ := (exists_paints (h x hx) k.stage).1 ⟨k, hk, hlo, hhi, rfl⟩
  exact absurd (h.covers hx hown.1) hout

theorem classify_markAll {marks : List Partition.Mark} {s : Stage}
    (h : Partition.IsHighest marks offset s) (hlimit : offset < Partition.limit) :
    (Partition.markAll marks).classify offset (offset + 1) = s := by
  refine (Partition.isNormal_markAll marks).classify_eq (Nat.lt_succ_self _) hlimit ?_
  intro o hlo hhi
  obtain rfl : o = offset := by omega
  exact (Partition.shows_markAll marks o s).2 ⟨hlimit, h⟩

/-- The partition shows at each byte of a nested tree the shade of the innermost node there. -/
theorem classify_project {n m : Node} (h : Nests n) (hm : IsInnermost n offset m)
    (hlimit : offset < Partition.limit) :
    (project n).classify offset (offset + 1) = shade m := by
  obtain ⟨m', hm', hown, only⟩ := exists_innermost h (h.covers hm.1 hm.2.1)
  obtain rfl := hm.unique hm'
  rw [project_eq]
  exact classify_markAll (isHighest_shade h hm.1 hown only) hlimit

theorem classify_project_outside {n : Node} (h : Nests n) (hout : ¬n.span.Covers offset)
    (hlimit : offset < Partition.limit) :
    (project n).classify offset (offset + 1) = .either := by
  rw [project_eq]
  exact classify_markAll (isHighest_outside h hout) hlimit

end

end Staging

end Stencil
