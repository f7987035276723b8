import Stencil.Facts.Annotation
import Stencil.Proofs.Facts.Annotated
import Stencil.Proofs.Facts.Declaring
import Stencil.Proofs.Tree.Shadowing

/-!
# What is learned of a file that goes on

Further templates of a file are numbered, resolved and annotated after the earlier ones. So these
keep their numbers, keys and facts, and as no two templates speak of the same local of either, the
sites of a local stand in the templates of which it is one.

Results:

* `Node.numberAll_append`, `FactStore.annotateAll_append` – both passes go on where they stopped;
* `learn_append` – what is learned of two files of which the second one begins as the first.
-/
namespace Stencil

namespace Node

/-- Numbering goes on where it stopped. -/
theorem numberAll_append (next : Nat) (cs ds : List (Child Node)) :
    numberAll next (cs ++ ds) =
      ((numberAll next cs).1 ++ (numberAll (numberAll next cs).2 ds).1,
        (numberAll (numberAll next cs).2 ds).2) := by
  induction cs generalizing next with
  | nil => rw [numberAll]; rfl
  | cons c cs ih =>
    cases c with
    | token t => simp only [List.cons_append, numberAll, ih]
    | node n => simp only [List.cons_append, numberAll, ih]

theorem preorderAll_append (cs ds : List (Child Node)) :
    preorderAll (cs ++ ds) = preorderAll cs ++ preorderAll ds := by
  rw [preorderAll_eq, preorderAll_eq, preorderAll_eq, List.filterMap_append, List.flatMap_append]

end Node

namespace FactStore

variable {resolve resolve' : Nat → Facts} {s : FactStore}

/-- Annotating goes on where it stopped. -/
theorem annotateAll_append {resolve : Node → Facts} (s : FactStore) (cs ds : List (Child Node)) :
    s.annotateAll resolve (cs ++ ds) =
      ((s.annotateAll resolve cs).1 ++ ((s.annotateAll resolve cs).2.annotateAll resolve ds).1,
        ((s.annotateAll resolve cs).2.annotateAll resolve ds).2) := by
  induction cs generalizing s with
  | nil => rw [annotateAll]; rfl
  | cons c cs ih =>
    cases c with
    | token t => simp only [List.cons_append, annotateAll, ih]
    | node n => simp only [List.cons_append, annotateAll, ih]

mutual

/-- Annotating a tree asks for the facts of its nodes only. -/
theorem annotate_congr (s : FactStore) : (n : Node) →
    (∀ m ∈ n.preorder, resolve' m.id = resolve m.id) →
    s.annotate (resolve' ·.id) n = s.annotate (resolve ·.id) n
  | ⟨id, kind, span, marks, children⟩, h => by
    rw [Node.preorder_eq] at h
    obtain ⟨here, below⟩ := List.forall_mem_cons.1 h
    rw [annotate, annotate, annotateAll_congr s children below]
    simp only [stamp, here]

theorem annotateAll_congr (s : FactStore) : (cs : List (Child Node)) →
    (∀ m ∈ Node.preorderAll cs, resolve' m.id = resolve m.id) →
    s.annotateAll (resolve' ·.id) cs = s.annotateAll (resolve ·.id) cs
  | [], _ => by rw [annotateAll, annotateAll]
  | .token t :: rest, h => by
    rw [Node.preorderAll] at h
    rw [annotateAll, annotateAll, annotateAll_congr s rest h]
  | .node n :: rest, h => by
    rw [Node.preorderAll, List.forall_mem_append] at h
    rw [annotateAll, annotateAll, annotate_congr s n h.1]
    simp only [annotateAll_congr (s.annotate (resolve ·.id) n).2 rest h.2]

end

/-- The root of a file assigns nothing. -/
theorem annotate_file (resolve : Nat → Facts) (s : FactStore) (id : Nat) (span : Span)
    (cs : List (Child Node)) :
    s.annotate (resolve ·.id) ⟨id, .compilationUnit, span, [], cs⟩ =
      (⟨id, .compilationUnit, span, [.semantic (s.annotateAll (resolve ·.id) cs).2.size],
          (s.annotateAll (resolve ·.id) cs).1⟩,
        { (s.annotateAll (resolve ·.id) cs).2 with
          facts := (s.annotateAll (resolve ·.id) cs).2.facts.push (resolve id) }) := by
  rw [annotate]
  rfl

/-- A node assigns what one of its children refers to. -/
theorem exists_of_assigned? {m : Node} {v : Symbol} (h : s.assigned? m = some v) :
    v.isLocal ∧ ∃ c ∈ m.nodes, s.symbol? c = some v := by
  unfold assigned? at h
  have assigns (h : ((m.node? 0).bind s.symbol?).filter Symbol.isLocal = some v) :
      v.isLocal ∧ ∃ c ∈ m.nodes, s.symbol? c = some v := by
    obtain ⟨h, isLocal⟩ := Option.filter_eq_some_iff.1 h
    obtain ⟨c, hc, hv⟩ := Option.bind_eq_some_iff.1 h
    exact ⟨isLocal, c, Node.mem_of_node? hc, hv⟩
  split at h
  · exact assigns h
  · exact assigns h
  · cases h

end FactStore

namespace Resolution

variable {e : Environment} {lo mid hi : Nat} {f : Facts} {v : Symbol}

theorem Speaks.none : Speaks e lo hi .none := ⟨by simp [Facts.none], by simp [Facts.none]⟩

/-- Facts never speak of locals that are declared later. -/
theorem Speaks.not_later (h : Speaks e lo mid f) (hv : f.symbol = some v) (isLocal : v.isLocal)
    (low : e.firstFreeId ≤ mid) : ¬Declared mid hi v := by
  intro own
  have := own.low
  rcases h.symbol v hv isLocal with other | bound | global
  · exact absurd other.high (by omega)
  · exact bound own.container
  · omega

/-- Facts found in later templates never speak of the locals of earlier ones. -/
theorem Speaks.not_earlier (h : Speaks e mid hi f) (hv : f.symbol = some v) (isLocal : v.isLocal)
    (low : e.firstFreeId ≤ lo) : ¬Declared lo mid v := by
  intro own
  have := own.low
  have := own.high
  rcases h.symbol v hv isLocal with other | bound | global
  · exact absurd other.low (by omega)
  · exact bound own.container
  · omega

end Resolution

namespace Findings

variable {f added : Findings} {id : Nat}

theorem of_append_of_ne (h : ∀ entry ∈ added, entry.1 ≠ id) : of (added ++ f) id = f.of id := by
  have none : added.lookup id = none :=
    List.lookup_eq_none_iff.2 fun entry he => by simpa using (h entry he).symm
  rw [of, List.lookup_append, none]
  rfl

theorem of_append_of_ne' (h : ∀ entry ∈ f, entry.1 ≠ id) : of (added ++ f) id = added.of id := by
  have none : f.lookup id = none :=
    List.lookup_eq_none_iff.2 fun entry he => by simpa using (h entry he).symm
  rw [of, List.lookup_append, none, Option.or_none]
  rfl

/-- What is known of any node is nothing, or was found. -/
theorem speaks {e : Environment} {lo hi : Nat}
    (h : ∀ entry ∈ f, Resolution.Speaks e lo hi entry.2) (id : Nat) :
    Resolution.Speaks e lo hi (f.of id) := by
  unfold of
  cases hf : f.lookup id with
  | none => exact .none
  | some facts =>
    obtain ⟨before, after, rfl, -⟩ := List.lookup_eq_some_iff.1 hf
    exact h (id, facts) (by simp)

end Findings

namespace FactStore

open Resolution

/-- A file and one that goes on after it: the stores know the same of the nodes `cs` of the first
one, and no local is assigned both there and in `ds`. -/
structure Continues (store store' : FactStore) (cs ds : List (Child Node)) : Prop where
  lookup : ∀ n ∈ Node.preorderAll cs, store'.lookup n = store.lookup n
  early : ∀ n ∈ Node.preorderAll cs, ∀ v, store.declared? n = some v →
    store'.sitesOf v = store.sitesOf v ∧
      ∀ id ∈ store.sitesOf v, ∃ site ∈ Node.preorderAll cs, site.id = id
  late : ∀ n ∈ Node.preorderAll ds, ∀ v, store'.declared? n = some v →
    ∀ id ∈ store'.sitesOf v, ∃ site ∈ Node.preorderAll ds, site.id = id

section

variable {e : Environment} {lo mid hi : Nat} {resolve resolve' : Nat → Facts} {s s' : FactStore}
  {ns : List Node} {cs ds : List (Child Node)}

/-- What is known of an annotated node was found. -/
theorem Annotates.speaks (h : Annotates resolve s s' ns)
    (found : ∀ n ∈ ns, Speaks e lo hi (resolve n.id)) {n : Node} (hn : n ∈ ns) :
    Speaks e lo hi (s'.lookup n) := (h.keyed n hn).lookup ▸ found n hn

/-- A local that an annotated node assigns is spoken of. -/
theorem Annotates.exists_speaks (h : Annotates resolve s s' ns)
    (found : ∀ n ∈ ns, Speaks e lo hi (resolve n.id)) {v : Symbol} {n : Node} (hn : n ∈ ns)
    (ha : s'.assigned? n = some v) : v.isLocal ∧ ∃ f, Speaks e lo hi f ∧ f.symbol = some v := by
  obtain ⟨isLocal, c, hc, hv⟩ := exists_of_assigned? ha
  exact ⟨isLocal, s'.lookup c, h.speaks found (h.closed n hn c hc), hv⟩

theorem grows_push (s : FactStore) (f : Facts) : Grows s { s with facts := s.facts.push f } := by
  intro key g hg
  obtain ⟨hkey, -⟩ := Array.getElem?_eq_some_iff.1 hg
  rw [Array.getElem?_push, if_neg (Nat.ne_of_lt hkey)]
  exact hg

/-- Nodes that speak of later locals only leave the sites of earlier ones alone. -/
theorem Annotates.continues (first : Annotates resolve .empty s (Node.preorderAll cs))
    (second : Annotates resolve' s s' (Node.preorderAll ds)) (low : e.firstFreeId ≤ mid)
    (early : ∀ m ∈ Node.preorderAll cs, Speaks e e.firstFreeId mid (resolve m.id))
    (late : ∀ m ∈ Node.preorderAll ds, Speaks e mid hi (resolve' m.id)) (f f' : Facts) :
    Continues { s with facts := s.facts.push f } { s' with facts := s'.facts.push f' } cs ds := by
  have known (n : Node) (hn : n ∈ Node.preorderAll cs) :
      ({ s with facts := s.facts.push f } : FactStore).lookup n = resolve n.id :=
    ((first.keyed n hn).mono (grows_push s f)).lookup
  have known' (n : Node) (hn : n ∈ Node.preorderAll ds) :
      ({ s' with facts := s'.facts.push f' } : FactStore).lookup n = resolve' n.id :=
    ((second.keyed n hn).mono (grows_push s' f')).lookup
  -- the sites in the first nodes, and those that are added
  have sites (v : Symbol) (id : Nat) (hid : id ∈ s.sitesOf v) :
      ∃ n ∈ Node.preorderAll cs, n.id = id ∧ s.assigned? n = some v := by
    obtain ⟨added, hadded, each⟩ := first.sites v
    rw [hadded] at hid
    exact each id hid
  refine ⟨fun n hn => ?_, fun n hn v hv => ?_, fun n hn v hv id hid => ?_⟩
  · rw [known n hn]
    exact ((first.keyed n hn).mono (second.grows.trans (grows_push s' f'))).lookup
  · have own : Declared e.firstFreeId mid v := by
      rw [FactStore.declared?, known n hn] at hv
      exact (early n hn).declared v hv
    obtain ⟨added, hadded, each⟩ := second.sites v
    have none : added = [] := by
      refine List.eq_nil_iff_forall_not_mem.2 fun id hid => ?_
      obtain ⟨m, hm, -, ha⟩ := each id hid
      obtain ⟨isLocal, f, speaks, hf⟩ := second.exists_speaks late hm ha
      exact speaks.not_earlier hf isLocal (Nat.le_refl _) own
    rw [none, List.append_nil] at hadded
    refine ⟨hadded, fun id hid => ?_⟩
    obtain ⟨m, hm, hid, -⟩ := sites v id hid
    exact ⟨m, hm, hid⟩
  · have own : Declared mid hi v := by
      rw [FactStore.declared?, known' n hn] at hv
      exact (late n hn).declared v hv
    obtain ⟨added, hadded, each⟩ := second.sites v
    have hid : id ∈ s.sitesOf v ++ added := hadded ▸ hid
    rcases List.mem_append.1 hid with hid | hid
    · obtain ⟨m, hm, -, ha⟩ := sites v id hid
      obtain ⟨isLocal, f, speaks, hf⟩ := first.exists_speaks early hm ha
      exact absurd own (speaks.not_later hf isLocal low)
    · obtain ⟨m, hm, hid, -⟩ := each id hid
      exact ⟨m, hm, hid⟩

end

end FactStore

open FactStore Resolution

/-- A file and one that begins with the same templates are annotated alike as far as they are the
same, and the stores know of both what they should. -/
theorem learn_append {e : Environment} {k k' : Nat} {span span' : Span}
    {cs ds : List (Child Node)}
    (templates : ∀ t, .node t ∈ cs ++ ds → t.kind = .template)
    (bare : ∀ m ∈ Node.preorderAll (cs ++ ds), m.factKey? = none)
    (names : ∀ m ∈ Node.preorderAll (cs ++ ds), ∀ name, m.name? = some name → '.' ∉ name.toList)
    (apart : ∀ m ∈ Node.preorderAll cs, ∀ m' ∈ Node.preorderAll ds, m.id ≠ m'.id)
    {annotated annotated' : Node} {store store' : FactStore}
    (h : FactStore.empty.learn e ⟨k, .compilationUnit, span, [], cs⟩ = .ok (annotated, store))
    (h' : FactStore.empty.learn e ⟨k', .compilationUnit, span', [], cs ++ ds⟩ =
      .ok (annotated', store')) :
    ∃ cs' ds' marks marks', annotated = ⟨k, .compilationUnit, span, marks, cs'⟩ ∧
      annotated' = ⟨k', .compilationUnit, span', marks', cs' ++ ds'⟩ ∧
      Continues store store' cs' ds' := by
  obtain ⟨f, hf, h⟩ := exists_of_learn h
  obtain ⟨f', hf', h'⟩ := exists_of_learn h'
  let ids (cs : List (Child Node)) : Set Nat := { id | ∃ m ∈ Node.preorderAll cs, m.id = id }
  have named (part : List (Child Node)) (hpart : part ⊆ cs ++ ds) (t : Node)
      (ht : t ∈ part.filterMap Child.node?) : t.kind = .template ∧ Named (ids part) t := by
    have ht : .node t ∈ part := Node.mem_nodes (n := ⟨0, .compilationUnit, span, [], part⟩).1 ht
    exact ⟨templates t (hpart ht), fun m hm => ⟨m, Node.preorder_subset_preorderAll ht hm, rfl⟩,
      fun m hm => names m (Node.preorder_subset_preorderAll (hpart ht) hm)⟩
  have nodes : (⟨k', .compilationUnit, span', [], cs ++ ds⟩ : Node).nodes =
      (⟨k, .compilationUnit, span, [], cs⟩ : Node).nodes ++ ds.filterMap Child.node? :=
    List.filterMap_append
  obtain ⟨mid, hi, added, rfl, low, early, late⟩ := found_append rfl rfl nodes
    (named cs (List.subset_append_left _ _)) (named ds (List.subset_append_right _ _)) hf hf'
  have same (m : Node) (hm : m ∈ Node.preorderAll cs) :
      Findings.of (added ++ f) m.id = f.of m.id := by
    refine Findings.of_append_of_ne fun entry he hid => ?_
    obtain ⟨m', hm', hid'⟩ := (late entry he).1
    exact apart m hm m' hm' (hid'.trans hid).symm
  have same' (m : Node) (hm : m ∈ Node.preorderAll ds) :
      Findings.of (added ++ f) m.id = added.of m.id := by
    refine Findings.of_append_of_ne' fun entry he hid => ?_
    obtain ⟨m', hm', hid'⟩ := (early entry he).1
    exact apart m' hm' m hm (hid'.trans hid)
  have first := annotates_annotateAll f.of .empty cs fun m hm =>
    bare m (by rw [Node.preorderAll_append]; exact List.mem_append_left _ hm)
  have second := annotates_annotateAll (Findings.of (added ++ f)) (empty.annotateAll (f.of ·.id) cs).2 ds
    fun m hm => bare m (by rw [Node.preorderAll_append]; exact List.mem_append_right _ hm)
  have speaks (m : Node) (_ : m ∈ Node.preorderAll (empty.annotateAll (f.of ·.id) cs).1) :
      Speaks e e.firstFreeId mid (f.of m.id) :=
    Findings.speaks (fun entry he => (early entry he).2) _
  have speaks' (m : Node) (hm : m ∈ Node.preorderAll
      ((empty.annotateAll (f.of ·.id) cs).2.annotateAll (Findings.of (added ++ f) ·.id) ds).1) :
      Speaks e mid hi (Findings.of (added ++ f) m.id) := by
    obtain ⟨r, hr, -, -, hid, -⟩ := (recastAll_annotateAll _ _ ds).source hm
    rw [hid, same' r hr]
    exact Findings.speaks (fun entry he => (late entry he).2) _
  rw [annotate_file] at h
  rw [annotate_file, annotateAll_append, annotateAll_congr _ cs same] at h'
  cases h
  cases h'
  exact ⟨_, _, _, _, rfl, rfl, first.continues second low speaks speaks' _ _⟩

end Stencil
