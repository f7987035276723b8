import Stencil.Proofs.Tree.Outline

/-!
# Stores after annotating

A tree whose nodes carry no key gets one for each of them, and the store then answers for every node
what resolution found. The store only grows, so it goes on answering so after further trees. It
lists a node among the sites of a local only if the node assigns that local.

Results:

* `annotated_preorder` – annotating a tree annotates each subtree;
* `Annotates.stamp` – a node gets its key after its children have theirs;
* `annotates_annotate` – annotating a tree gives each node the facts that were found, and adds only
  sites that assign the local.
-/
namespace Stencil

theorem lookup_cons_of_ne {α β : Type} [BEq α] [LawfulBEq α] {a k : α} {b : β} {es : List (α × β)}
    (h : k ≠ a) : ((a, b) :: es).lookup k = es.lookup k := by
  rw [List.lookup_cons, beq_false_of_ne h]

namespace FactStore

/-- All keys of `s` keep their facts. -/
def Grows (s s' : FactStore) : Prop :=
  ∀ (key : Nat) (f : Facts), s.facts[key]? = some f → s'.facts[key]? = some f

/-- The node has a key, and the facts under it are those found for its number. -/
def Keyed (resolve : Nat → Facts) (s : FactStore) (n : Node) : Prop :=
  ∃ key, n.factKey? = some key ∧ s.facts[key]? = some (resolve n.id)

/-- Annotating the nodes `ns`, closed under children, takes the store `s` to `s'`. -/
structure Annotates (resolve : Nat → Facts) (s s' : FactStore) (ns : List Node) : Prop where
  grows : Grows s s'
  keyed : ∀ n ∈ ns, Keyed resolve s' n
  closed : ∀ n ∈ ns, ∀ c ∈ n.nodes, c ∈ ns
  sites : ∀ v : Symbol, ∃ added, s'.sitesOf v = s.sitesOf v ++ added ∧
    ∀ id ∈ added, ∃ n ∈ ns, n.id = id ∧ s'.assigned? n = some v

variable {resolve : Nat → Facts} {s s' s'' : FactStore} {n : Node}

theorem Grows.refl (s : FactStore) : Grows s s := fun _ _ h => h

theorem Grows.trans (h : Grows s s') (h' : Grows s' s'') : Grows s s'' :=
  fun key f hf => h' key f (h key f hf)

theorem Keyed.mono (h : Keyed resolve s n) (hs : Grows s s') : Keyed resolve s' n := by
  obtain ⟨key, hkey, hf⟩ := h
  exact ⟨key, hkey, hs key _ hf⟩

theorem Keyed.lookup (h : Keyed resolve s n) : s.lookup n = resolve n.id := by
  obtain ⟨key, hkey, hf⟩ := h
  simp [FactStore.lookup, hkey, hf]

/-- What a node assigns depends on the facts of its first child only. -/
theorem assigned?_congr {m : Node} (hk : m.kind = n.kind) (hc : m.children = n.children)
    (h : ∀ c ∈ n.nodes, s'.lookup c = s.lookup c) : s'.assigned? m = s.assigned? n := by
  have hnode : m.node? 0 = n.node? 0 := by simp [Node.node?, Node.nodes, hc]
  have hsymbol : (n.node? 0).bind s'.symbol? = (n.node? 0).bind s.symbol? := by
    cases hn : n.node? 0 with
    | none => rfl
    | some c => simp [symbol?, h c (Node.mem_of_node? hn)]
  unfold assigned?
  rw [hk, hnode, hsymbol]

theorem Annotates.nil (s : FactStore) : Annotates resolve s s [] :=
  ⟨.refl s, by simp, by simp, fun _ =>
    ⟨[], (List.append_nil _).symm, fun _ h => absurd h List.not_mem_nil⟩⟩

theorem Annotates.append {ns ns' : List Node} (h : Annotates resolve s s' ns)
    (h' : Annotates resolve s' s'' ns') : Annotates resolve s s'' (ns ++ ns') := by
  have keyed : ∀ n ∈ ns ++ ns', Keyed resolve s'' n := by
    intro n hn
    rcases List.mem_append.1 hn with hn | hn
    · exact (h.keyed n hn).mono h'.grows
    · exact h'.keyed n hn
  refine ⟨h.grows.trans h'.grows, keyed, fun n hn c hc => ?_, fun v => ?_⟩
  · rcases List.mem_append.1 hn with hn | hn
    · exact List.mem_append_left _ (h.closed n hn c hc)
    · exact List.mem_append_right _ (h'.closed n hn c hc)
  · obtain ⟨added, hadded, first⟩ := h.sites v
    obtain ⟨added', hadded', second⟩ := h'.sites v
    refine ⟨added ++ added', by rw [hadded', hadded, List.append_assoc], fun id hid => ?_⟩
    rcases List.mem_append.1 hid with hid | hid
    · obtain ⟨n, hn, hnid, hv⟩ := first id hid
      refine ⟨n, List.mem_append_left _ hn, hnid, ?_⟩
      rw [← hv]
      refine assigned?_congr rfl rfl fun c hc => ?_
      have hc := h.closed n hn c hc
      rw [((h.keyed c hc).mono h'.grows).lookup, (h.keyed c hc).lookup]
    · obtain ⟨n, hn, hnid, hv⟩ := second id hid
      exact ⟨n, List.mem_append_right _ hn, hnid, hv⟩

/-! ## Annotating trees -/

mutual

/-- The nodes of an annotated tree are annotated. -/
theorem annotated_preorder (resolve : Node → Facts) (s : FactStore) : (n : Node) →
    List.Forall₂ (fun m m' => ∃ s₀ : FactStore, m' = (s₀.annotate resolve m).1) n.preorder
      (s.annotate resolve n).1.preorder
  | ⟨id, kind, span, marks, children⟩ => by
    have children_eq : (s.annotate resolve ⟨id, kind, span, marks, children⟩).1.children =
        (s.annotateAll resolve children).1 := by
      rw [annotate]
      exact (stamp_keeps resolve _ _).2.1
    rw [Node.preorder_eq, Node.preorder_eq, children_eq]
    exact .cons ⟨s, rfl⟩ (annotated_preorderAll resolve s children)

theorem annotated_preorderAll (resolve : Node → Facts) (s : FactStore) :
    (cs : List (Child Node)) →
    List.Forall₂ (fun m m' => ∃ s₀ : FactStore, m' = (s₀.annotate resolve m).1)
      (Node.preorderAll cs) (Node.preorderAll (s.annotateAll resolve cs).1)
  | [] => by
    rw [annotateAll]
    exact .nil
  | .token t :: rest => by
    rw [annotateAll, Node.preorderAll, Node.preorderAll]
    exact annotated_preorderAll resolve s rest
  | .node n :: rest => by
    rw [annotateAll, Node.preorderAll, Node.preorderAll]
    exact List.rel_append (annotated_preorder resolve s n)
      (annotated_preorderAll resolve (s.annotate resolve n).2 rest)

end

theorem sitesOf_addSite (s : FactStore) (v w : Symbol) (id : Nat) :
    (s.addSite v id).sitesOf w = if w = v then s.sitesOf v ++ [id] else s.sitesOf w := by
  unfold addSite sitesOf
  by_cases h : w = v
  · simp [h]
  · have others (sites : List (Symbol × List Nat)) :
        (sites.filter (·.1 ≠ v)).lookup w = sites.lookup w := by
      induction sites with
      | nil => rfl
      | cons e rest ih =>
        obtain ⟨u, ids⟩ := e
        by_cases hu : u = v
        · subst hu
          rw [List.filter_cons_of_neg (by simp), ih, lookup_cons_of_ne h]
        · rw [List.filter_cons_of_pos (by simpa using hu)]
          by_cases hw : w = u
          · simp [hw]
          · rw [lookup_cons_of_ne hw, lookup_cons_of_ne hw, ih]
    rw [if_neg h, lookup_cons_of_ne h, others]

/-- Sites change no fact. -/
theorem assigned?_addSite (s : FactStore) (v : Symbol) (id : Nat) (n : Node) :
    (s.addSite v id).assigned? n = s.assigned? n := assigned?_congr rfl rfl fun _ _ => rfl

/-- What a stamped node does to the store. -/
theorem stamp_cases (resolve : Node → Facts) (s : FactStore) {n : Node} (hn : n.factKey? = none) :
    (FactStore.stamp resolve s n).1 = n.mark (.semantic s.size) ∧
      (FactStore.stamp resolve s n).2.facts = s.facts.push (resolve n) ∧
      ∀ v : Symbol, (FactStore.stamp resolve s n).2.sitesOf v = s.sitesOf v ++
        if (FactStore.stamp resolve s n).2.assigned? n = some v then [n.id] else [] := by
  unfold FactStore.stamp
  simp only [hn]
  refine ⟨trivial, ?_, fun v => ?_⟩
  · split <;> rfl
  · split
    · next w hw =>
      rw [assigned?_addSite, hw, sitesOf_addSite]
      by_cases h : v = w
      · subst h
        rw [if_pos rfl, if_pos rfl]
        rfl
      · rw [if_neg h, if_neg (by simpa using Ne.symm h), List.append_nil]
        rfl
    · next hw =>
      rw [hw, if_neg (by simp), List.append_nil]
      rfl

/-- A node whose children have their keys gets its own. -/
theorem Annotates.stamp (h : Annotates resolve s s' (Node.preorderAll n.children))
    (hn : n.factKey? = none) :
    Annotates resolve s (FactStore.stamp (resolve ·.id) s' n).2
      (FactStore.stamp (resolve ·.id) s' n).1.preorder := by
  obtain ⟨hnode, hfacts, hsites⟩ := stamp_cases (resolve ·.id) s' hn
  generalize (FactStore.stamp (resolve ·.id) s' n).2 = s'' at hfacts hsites
  rw [hnode, Node.preorder_eq, Node.children_mark]
  have grows : Grows s' s'' := by
    intro key f hf
    obtain ⟨hkey, -⟩ := Array.getElem?_eq_some_iff.1 hf
    rw [hfacts, Array.getElem?_push, if_neg (Nat.ne_of_lt hkey)]
    exact hf
  have here : Keyed resolve s'' (n.mark (.semantic s'.size)) := by
    refine ⟨s'.size, Node.factKey?_mark hn _, ?_⟩
    rw [hfacts, Node.id_mark]
    exact Array.getElem?_push_size
  have below : ∀ c ∈ n.nodes, c ∈ Node.preorderAll n.children :=
    fun c hc => (Node.mem_preorderAll _).2 ⟨c, Node.mem_nodes.1 hc, c.mem_preorder_self⟩
  have nodes : (n.mark (.semantic s'.size)).nodes = n.nodes := by
    simp only [Node.nodes, Node.children_mark]
  have keyed : ∀ m ∈ Node.preorderAll n.children, Keyed resolve s'' m :=
    fun m hm => (h.keyed m hm).mono grows
  refine ⟨h.grows.trans grows, List.forall_mem_cons.2 ⟨here, keyed⟩, ?_, fun v => ?_⟩
  · refine List.forall_mem_cons.2 ⟨fun c hc => ?_, fun m hm c hc => ?_⟩
    · exact List.mem_cons_of_mem _ (below c (nodes ▸ hc))
    · exact List.mem_cons_of_mem _ (h.closed m hm c hc)
  · obtain ⟨added, hadded, first⟩ := h.sites v
    refine ⟨_, by rw [hsites v, hadded, List.append_assoc], fun id hid => ?_⟩
    rcases List.mem_append.1 hid with hid | hid
    · obtain ⟨m, hm, hmid, hv⟩ := first id hid
      refine ⟨m, List.mem_cons_of_mem _ hm, hmid, ?_⟩
      rw [← hv]
      refine assigned?_congr rfl rfl fun c hc => ?_
      have hc := h.closed m hm c hc
      rw [(keyed c hc).lookup, (h.keyed c hc).lookup]
    · split at hid
      · next hv =>
        refine ⟨_, List.mem_cons_self, (Node.id_mark ..).trans (List.mem_singleton.1 hid).symm, ?_⟩
        rw [← hv]
        exact assigned?_congr (Node.kind_mark ..) (Node.children_mark ..) fun _ _ => rfl
      · cases hid

mutual

theorem annotates_annotate (resolve : Nat → Facts) (s : FactStore) : (n : Node) →
    (∀ m ∈ n.preorder, m.factKey? = none) →
    Annotates resolve s (s.annotate (resolve ·.id) n).2 (s.annotate (resolve ·.id) n).1.preorder
  | ⟨id, kind, span, marks, children⟩, h => by
    rw [Node.preorder_eq] at h
    obtain ⟨here, below⟩ := List.forall_mem_cons.1 h
    rw [annotate]
    exact Annotates.stamp 
      (n := ⟨id, kind, span, marks, (s.annotateAll (resolve ·.id) children).1⟩)
      (annotates_annotateAll resolve s children below) here

theorem annotates_annotateAll (resolve : Nat → Facts) (s : FactStore) :
    (cs : List (Child Node)) → (∀ m ∈ Node.preorderAll cs, m.factKey? = none) →
    Annotates resolve s (s.annotateAll (resolve ·.id) cs).2
      (Node.preorderAll (s.annotateAll (resolve ·.id) cs).1)
  | [], _ => by
    rw [annotateAll]
    exact .nil s
  | .token t :: rest, h => by
    rw [Node.preorderAll] at h
    rw [annotateAll]
    exact annotates_annotateAll resolve s rest h
  | .node n :: rest, h => by
    rw [Node.preorderAll, List.forall_mem_append] at h
    rw [annotateAll]
    exact (annotates_annotate resolve s n h.1).append
      (annotates_annotateAll resolve (s.annotate (resolve ·.id) n).2 rest h.2)

end

end FactStore

end Stencil
