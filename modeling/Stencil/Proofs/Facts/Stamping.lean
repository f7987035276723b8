import Mathlib.Data.List.Forall2
import Stencil.Proofs.Facts.Annotated

/-!
# What annotating a tree records

A tree may come to a store with keys on some of its nodes, and the store with facts of other trees.
Annotating meets the nodes in post-order. It leaves those with a key alone and hands out the next
keys to the others, so a key finds its node among the stamped ones by counting. What a stamped node
assigns is decided while its key is handed out, when its children have theirs.

Results:

* `Records.append`, `records_stamp` – what is recorded of one node after others;
* `records_annotate` – what is recorded of a tree;
* `keyedBelow_annotate` – nodes get their keys after their children;
* `annotate_records` – keys, facts and sites after annotating any tree in any store, and that
  annotating it again does nothing.
-/
namespace Stencil

namespace Node

mutual

/-- All nodes of the tree, children before parents, in source order. -/
def postorder : Node → List Node
  | n@⟨_, _, _, _, children⟩ => postorderAll children ++ [n]

def postorderAll : List (Child Node) → List Node
  | [] => []
  | .token _ :: rest => postorderAll rest
  | .node n :: rest => postorder n ++ postorderAll rest

end

mutual

theorem postorder_perm : (n : Node) → n.postorder.Perm n.preorder
  | ⟨_, _, _, _, children⟩ => by
    rw [postorder, preorder]
    exact ((postorderAll_perm children).append_right _).trans List.perm_append_comm

theorem postorderAll_perm : (cs : List (Child Node)) → (postorderAll cs).Perm (preorderAll cs)
  | [] => by rw [postorderAll, preorderAll]
  | .token _ :: rest => by
    rw [postorderAll, preorderAll]
    exact postorderAll_perm rest
  | .node n :: rest => by
    rw [postorderAll, preorderAll]
    exact (postorder_perm n).append (postorderAll_perm rest)

end

theorem postorder_eq (n : Node) : n.postorder = postorderAll n.children ++ [n] := by
  obtain ⟨id, kind, span, marks, children⟩ := n
  rw [postorder]

theorem mem_postorderAll_of_mem {cs : List (Child Node)} {c : Node} (h : .node c ∈ cs) :
    c ∈ postorderAll cs :=
  (postorderAll_perm cs).mem_iff.2 (preorder_subset_preorderAll h c.mem_preorder_self)

/-- A key is added to the marks of a node that has none. -/
theorem mark_semantic {n : Node} (h : n.factKey? = none) (key : Nat) :
    n.mark (.semantic key) = { n with marks := n.marks ++ [.semantic key] } := by
  have unmarked : n.hasMark (.semantic key) = false := by
    by_contra held
    have held := List.contains_iff_mem.1 (Bool.of_not_eq_false held)
    cases List.findSome?_eq_none_iff.1 h _ held
  simp [mark, unmarked]

end Node

namespace FactStore

/-- The nodes without a key in `before`, each with what stands in its place in `after`. -/
def stamped (before after : List Node) : List (Node × Node) :=
  (before.zip after).filter (·.1.factKey?.isNone)

/-- What is asked about a stamped node: the node as it was, over children that have their keys. -/
def asked (p : Node × Node) : Node := { p.1 with children := p.2.children }

/-- The store when `key` had just been handed out, as far as its facts go. -/
def upTo (s : FactStore) (key : Nat) : FactStore := { s with facts := s.facts.extract 0 (key + 1) }

theorem getElem?_upTo (s : FactStore) {k key : Nat} (h : k ≤ key) :
    (s.upTo key).facts[k]? = s.facts[k]? := by
  rw [upTo, Array.getElem?_extract]
  split
  · simp
  · exact (Array.getElem?_eq_none (by omega)).symm

/-- The node is an assignment, `++` or `--` whose target refers to the local `v`. -/
def Assigns (s : FactStore) (v : Symbol) (n : Node) : Prop :=
  (n.kind = .assignment ∨ n.kind = .step) ∧ v.isLocal ∧
    ∃ target, n.node? 0 = some target ∧ s.symbol? target = some v

theorem assigned?_eq_some {s : FactStore} {v : Symbol} {n : Node} :
    s.assigned? n = some v ↔ s.Assigns v n := by
  have target : ((n.node? 0).bind s.symbol?).filter Symbol.isLocal = some v ↔
      v.isLocal ∧ ∃ target, n.node? 0 = some target ∧ s.symbol? target = some v := by
    rw [Option.filter_eq_some_iff, Option.bind_eq_some_iff, and_comm]
  unfold assigned? Assigns
  split
  · next h => simp [h, target]
  · next h => simp [h, target]
  · next h h' => exact iff_of_false nofun fun own => own.1.elim h h'

instance (s : FactStore) (v : Symbol) (n : Node) : Decidable (s.Assigns v n) :=
  decidable_of_iff _ assigned?_eq_some

/-- The node was found to assign `v` while its key was handed out. -/
def AssignedWhenKeyed (s : FactStore) (v : Symbol) (n : Node) : Prop :=
  ∃ key ∈ n.factKey?, (s.upTo key).Assigns v n

instance (s : FactStore) (v : Symbol) (n : Node) : Decidable (s.AssignedWhenKeyed v n) :=
  inferInstanceAs (Decidable (∃ key ∈ n.factKey?, (s.upTo key).Assigns v n))

/-- A node and what annotating makes of it: a key is added to its marks unless they have one. -/
structure Stamps (m m' : Node) : Prop where
  id : m'.id = m.id
  kind : m'.kind = m.kind
  span : m'.span = m.span
  outline : m'.outline = m.outline
  kept : m.factKey?.isSome → m'.marks = m.marks
  added : m.factKey? = none → ∃ key, m'.marks = m.marks ++ [.semantic key]

/-- Annotating the nodes `before`, listed in post-order, makes them `after` and takes the store `s`
to `s'`. -/
structure Records (resolve : Node → Facts) (s s' : FactStore) (before after : List Node) :
    Prop where
  nodes : List.Forall₂ Stamps before after
  keys : (stamped before after).map (·.2.factKey?) =
    (List.range' s.size (stamped before after).length).map some
  facts : s'.facts.toList = s.facts.toList ++ (stamped before after).map fun p => resolve (asked p)
  sites : ∀ v : Symbol, s'.sitesOf v = s.sitesOf v ++
    ((stamped before after).filter (s'.AssignedWhenKeyed v ·.2)).map (·.2.id)

variable {resolve : Node → Facts} {s s' s'' : FactStore} {before after before' after' : List Node}

theorem stamped_append (h : before.length = after.length) :
    stamped (before ++ before') (after ++ after') =
      stamped before after ++ stamped before' after' := by
  rw [stamped, List.zip_append h, List.filter_append]
  rfl

theorem Stamps.factKey? {m m' : Node} (h : Stamps m m') (hm : m.factKey?.isSome) :
    m'.factKey? = m.factKey? := by
  rw [Node.factKey?, Node.factKey?, h.kept hm]

namespace Records

theorem length_eq (h : Records resolve s s' before after) : before.length = after.length :=
  h.nodes.length_eq

theorem size (h : Records resolve s s' before after) :
    s'.size = s.size + (stamped before after).length := by
  have hlength := congrArg List.length h.facts
  simpa [FactStore.size] using hlength

theorem keeps (h : Records resolve s s' before after) : s.facts.toList <+: s'.facts.toList :=
  ⟨_, h.facts.symm⟩

/-- The key of a stamped node and what stands under it. -/
theorem exists_key (h : Records resolve s s' before after) {p : Node × Node}
    (hp : p ∈ stamped before after) : ∃ key, p.2.factKey? = some key ∧ s.size ≤ key ∧
      key < s'.size ∧ s'.facts[key]? = some (resolve (asked p)) := by
  obtain ⟨i, hi, rfl⟩ := List.mem_iff_getElem.1 hp
  have hkey := congrArg (·[i]?) h.keys
  simp only [List.getElem?_map, List.getElem?_eq_getElem hi, Option.map_some,
    List.getElem?_range' hi, Nat.one_mul, Option.some.injEq] at hkey
  refine ⟨s.size + i, hkey, Nat.le_add_right _ _, by rw [h.size]; omega, ?_⟩
  rw [← Array.getElem?_toList, h.facts, List.getElem?_append_right (by simp [FactStore.size]),
    List.getElem?_map, Array.length_toList, FactStore.size, Nat.add_sub_cancel_left,
    List.getElem?_eq_getElem hi]
  rfl

/-- A node of the annotated tree has the key that it came with or the one it was given. -/
theorem key_cases (h : Records resolve s s' before after) {c : Node} (hc : c ∈ after) :
    (∃ m ∈ before, m.factKey?.isSome ∧ c.factKey? = m.factKey?) ∨
      ∃ m, (m, c) ∈ stamped before after := by
  rw [← List.map_snd_zip (Nat.le_of_eq h.length_eq.symm)] at hc
  obtain ⟨⟨m, c⟩, hp, rfl⟩ := List.mem_map.1 hc
  have stamps := (List.forall₂_iff_zip.1 h.nodes).2 hp
  cases hm : m.factKey? with
  | none => exact .inr ⟨m, List.mem_filter.2 ⟨hp, by simp [hm]⟩⟩
  | some key =>
    have hsome : m.factKey?.isSome := by simp [hm]
    exact .inl ⟨m, (List.of_mem_zip hp).1, by simp [hm], stamps.factKey? hsome⟩

theorem isSome_factKey? (h : Records resolve s s' before after) {c : Node} (hc : c ∈ after) :
    c.factKey?.isSome := by
  rcases h.key_cases hc with ⟨m, -, hsome, hkey⟩ | ⟨m, hp⟩
  · rwa [hkey]
  · obtain ⟨key, hkey, -⟩ := h.exists_key hp
    rw [hkey]
    rfl

end Records

theorem assigns_congr {v : Symbol} {n m : Node} (hk : m.kind = n.kind)
    (hc : m.children = n.children) (h : ∀ c ∈ n.nodes, s'.lookup c = s.lookup c) :
    s'.Assigns v m ↔ s.Assigns v n := by
  rw [← assigned?_eq_some, ← assigned?_eq_some, assigned?_congr hk hc h]

/-- The facts that decided what a node assigns are those up to its key. -/
theorem assignedWhenKeyed_of_keeps {v : Symbol} {n : Node} {key : Nat}
    (h : s.facts.toList <+: s'.facts.toList) (hn : n.factKey? = some key) (hkey : key < s.size) :
    s'.AssignedWhenKeyed v n ↔ s.AssignedWhenKeyed v n := by
  have facts : (s'.upTo key).facts = (s.upTo key).facts := by
    apply Array.toList_inj.1
    obtain ⟨more, hmore⟩ := h
    simp only [upTo, Array.toList_extract, List.extract_eq_take_drop, List.drop_zero, ← hmore]
    exact List.take_append_of_le_length hkey
  have same : (s'.upTo key).Assigns v n ↔ (s.upTo key).Assigns v n :=
    assigns_congr rfl rfl fun c _ => by rw [FactStore.lookup, FactStore.lookup, facts]
  simpa [AssignedWhenKeyed, hn] using same

theorem Records.nil (s : FactStore) : Records resolve s s [] [] :=
  ⟨.nil, rfl, (List.append_nil _).symm, fun _ => (List.append_nil _).symm⟩

theorem Records.append (h : Records resolve s s' before after)
    (h' : Records resolve s' s'' before' after') :
    Records resolve s s'' (before ++ before') (after ++ after') := by
  have parts : stamped (before ++ before') (after ++ after') = _ := stamped_append h.length_eq
  refine ⟨List.rel_append h.nodes h'.nodes, ?_, ?_, fun v => ?_⟩
  · rw [parts, List.map_append, h.keys, h'.keys, h.size, List.length_append, ← List.map_append,
      List.range'_append_1]
  · rw [parts, List.map_append, h'.facts, h.facts, List.append_assoc]
  · have early : (stamped before after).filter (s''.AssignedWhenKeyed v ·.2) =
        (stamped before after).filter (s'.AssignedWhenKeyed v ·.2) := by
      refine List.filter_congr fun p hp => ?_
      obtain ⟨key, hkey, -, bound, -⟩ := h.exists_key hp
      exact decide_eq_decide.2 (assignedWhenKeyed_of_keeps h'.keeps hkey bound)
    rw [parts, List.filter_append, List.map_append, early, h'.sites, h.sites, List.append_assoc]

/-- What is recorded of a node whose children are annotated. -/
theorem records_stamp (resolve : Node → Facts) (s : FactStore) {n m : Node}
    (hm : m = { n with children := m.children }) (outline : m.outline = n.outline) :
    Records resolve s (s.stamp resolve m).2 [n] [(s.stamp resolve m).1] := by
  have id : m.id = n.id := by rw [hm]
  have kind : m.kind = n.kind := by rw [hm]
  have span : m.span = n.span := by rw [hm]
  have marks : m.marks = n.marks := by rw [hm]
  have same : m.factKey? = n.factKey? := by rw [Node.factKey?, Node.factKey?, marks]
  cases hn : n.factKey? with
  | some key =>
    have none : stamped [n] [m] = [] := by simp [stamped, hn]
    rw [stamp_of_factKey? (same.trans hn)]
    refine ⟨.cons ⟨id, kind, span, outline, fun _ => marks, fun h => ?_⟩ .nil, ?_, ?_, fun v => ?_⟩
    · rw [hn] at h
      cases h
    · rw [none]
      rfl
    · rw [none]
      exact (List.append_nil _).symm
    · rw [none]
      exact (List.append_nil _).symm
  | none =>
    have unkeyed : m.factKey? = none := same.trans hn
    obtain ⟨hnode, hfacts, hsites⟩ := stamp_cases resolve s unkeyed
    generalize (s.stamp resolve m).2 = s' at hfacts hsites
    rw [hnode]
    have one : stamped [n] [m.mark (.semantic s.size)] = [(n, m.mark (.semantic s.size))] := by
      simp [stamped, hn]
    have itself : asked (n, m.mark (.semantic s.size)) = m := by
      rw [asked, Node.children_mark]
      exact hm.symm
    -- the facts of this node are the last of the store
    have current : s'.upTo s.size = s' := by
      have all : s'.facts.extract 0 (s.size + 1) = s'.facts := by
        rw [hfacts, Array.extract_eq_self_iff]
        exact .inr ⟨rfl, by simp [FactStore.size]⟩
      rw [upTo, all]
    have assigns (v : Symbol) :
        s'.AssignedWhenKeyed v (m.mark (.semantic s.size)) ↔ s'.assigned? m = some v := by
      rw [assigned?_eq_some]
      simpa [AssignedWhenKeyed, Node.factKey?_mark unkeyed, current] using
        assigns_congr (Node.kind_mark ..) (Node.children_mark ..) fun _ _ => rfl
    refine ⟨.cons ?_ .nil, ?_, ?_, fun v => ?_⟩
    · rw [Node.mark_semantic unkeyed]
      exact ⟨id, kind, span, outline, fun h => by simp [hn] at h, fun _ => ⟨_, by rw [marks]⟩⟩
    · rw [one]
      exact congrArg (fun k => [k]) (Node.factKey?_mark unkeyed _)
    · rw [one, List.map_singleton, itself, hfacts, Array.toList_push]
    · rw [hsites v, one]
      by_cases hv : s'.assigned? m = some v
      · rw [if_pos hv, List.filter_cons_of_pos (by simpa using (assigns v).2 hv)]
        exact congrArg (fun k => s.sitesOf v ++ [k]) (Node.id_mark ..).symm
      · rw [if_neg hv, List.filter_cons_of_neg (by simpa using fun h => hv ((assigns v).1 h))]
        rfl

mutual

theorem records_annotate (resolve : Node → Facts) (s : FactStore) : (n : Node) →
    Records resolve s (s.annotate resolve n).2 n.postorder (s.annotate resolve n).1.postorder
  | ⟨id, kind, span, marks, children⟩ => by
    have below := records_annotateAll resolve s children
    have shape := (recastAll_annotateAll resolve s children).1
    rw [annotate]
    have here := records_stamp resolve (s.annotateAll resolve children).2
      (n := ⟨id, kind, span, marks, children⟩)
      (m := ⟨id, kind, span, marks, (s.annotateAll resolve children).1⟩) rfl shape
    have kept := (stamp_keeps resolve (s.annotateAll resolve children).2
      ⟨id, kind, span, marks, (s.annotateAll resolve children).1⟩).2.1
    rw [Node.postorder_eq, Node.postorder_eq _, kept]
    exact below.append here

theorem records_annotateAll (resolve : Node → Facts) (s : FactStore) : (cs : List (Child Node)) →
    Records resolve s (s.annotateAll resolve cs).2 (Node.postorderAll cs)
      (Node.postorderAll (s.annotateAll resolve cs).1)
  | [] => by
    rw [annotateAll]
    exact .nil s
  | .token t :: rest => by
    rw [annotateAll]
    exact records_annotateAll resolve s rest
  | .node n :: rest => by
    rw [annotateAll]
    exact (records_annotate resolve s n).append
      (records_annotateAll resolve (s.annotate resolve n).2 rest)

end

/-- A stamped node has a greater key than every child that was stamped too. -/
def KeyedBelow (before after : List Node) : Prop :=
  ∀ p ∈ stamped before after, ∀ key, p.2.factKey? = some key → ∀ c ∈ p.2.nodes,
    ∀ k, c.factKey? = some k → k < key ∨ ∃ m ∈ before, m.factKey? = some k

theorem KeyedBelow.append (length_eq : before.length = after.length) (h : KeyedBelow before after)
    (h' : KeyedBelow before' after') : KeyedBelow (before ++ before') (after ++ after') := by
  intro p hp key hkey c hc k hk
  rw [stamped_append length_eq] at hp
  rcases List.mem_append.1 hp with hp | hp
  · refine (h p hp key hkey c hc k hk).imp_right ?_
    rintro ⟨m, hm, own⟩
    exact ⟨m, List.mem_append_left _ hm, own⟩
  · refine (h' p hp key hkey c hc k hk).imp_right ?_
    rintro ⟨m, hm, own⟩
    exact ⟨m, List.mem_append_right _ hm, own⟩

mutual

/-- Nodes get their keys after their children. -/
theorem keyedBelow_annotate (resolve : Node → Facts) (s : FactStore) : (n : Node) →
    KeyedBelow n.postorder (s.annotate resolve n).1.postorder
  | ⟨id, kind, span, marks, children⟩ => by
    have below := records_annotateAll resolve s children
    have ordered := keyedBelow_annotateAll resolve s children
    rw [annotate]
    obtain ⟨-, kept, -⟩ := stamp_keeps resolve (s.annotateAll resolve children).2
      ⟨id, kind, span, marks, (s.annotateAll resolve children).1⟩
    rw [Node.postorder_eq, Node.postorder_eq _, kept]
    intro p hp key hkey c hc k hk
    rw [stamped_append below.length_eq] at hp
    rcases List.mem_append.1 hp with hp | hp
    · refine (ordered p hp key hkey c hc k hk).imp_right ?_
      rintro ⟨m, hm, own⟩
      exact ⟨m, List.mem_append_left _ hm, own⟩
    · obtain ⟨hp, unkeyed⟩ := List.mem_filter.1 hp
      cases List.mem_singleton.1 hp
      have unkeyed : (⟨id, kind, span, marks, (s.annotateAll resolve children).1⟩ : Node).factKey? =
        none := Option.isNone_iff_eq_none.1 unkeyed
      obtain ⟨hnode, -⟩ := stamp_cases resolve (s.annotateAll resolve children).2 unkeyed
      rw [hnode] at hkey hc
      obtain rfl : _ = key := Option.some.inj ((Node.factKey?_mark unkeyed _).symm.trans hkey)
      have hc := Node.mem_postorderAll_of_mem (Node.mem_nodes.1 hc)
      rw [Node.children_mark] at hc
      rcases below.key_cases hc with ⟨m, hm, -, own⟩ | ⟨m, hm⟩
      · exact .inr ⟨m, List.mem_append_left _ hm, own.symm.trans hk⟩
      · obtain ⟨key, hkey, -, bound, -⟩ := below.exists_key hm
        cases hkey.symm.trans hk
        exact .inl bound

theorem keyedBelow_annotateAll (resolve : Node → Facts) (s : FactStore) :
    (cs : List (Child Node)) →
    KeyedBelow (Node.postorderAll cs) (Node.postorderAll (s.annotateAll resolve cs).1)
  | [] => by
    rw [annotateAll]
    exact fun p hp => absurd hp (by simp [stamped, Node.postorderAll])
  | .token t :: rest => by
    rw [annotateAll]
    exact keyedBelow_annotateAll resolve s rest
  | .node n :: rest => by
    rw [annotateAll]
    exact (keyedBelow_annotate resolve s n).append (records_annotate resolve s n).length_eq
      (keyedBelow_annotateAll resolve (s.annotate resolve n).2 rest)

end

/-- If the keys that a tree came with are the store's own, the store goes on telling what its
stamped nodes were found to assign. -/
theorem Records.assigns_iff (h : Records resolve s s' before after)
    (order : KeyedBelow before after)
    (own : ∀ m ∈ before, ∀ key, m.factKey? = some key → key < s.size) {p : Node × Node}
    (hp : p ∈ stamped before after) (v : Symbol) :
    s'.AssignedWhenKeyed v p.2 ↔ s'.Assigns v p.2 := by
  obtain ⟨key, hkey, low, -⟩ := h.exists_key hp
  have same : (s'.upTo key).Assigns v p.2 ↔ s'.Assigns v p.2 := by
    refine assigns_congr rfl rfl fun c hc => ?_
    rw [FactStore.lookup, FactStore.lookup]
    cases hc' : c.factKey? with
    | none => rfl
    | some k =>
      have early : k < key + 1 := by
        rcases order p hp key hkey c hc k hc' with below | ⟨m, hm, hk⟩
        · omega
        · have := own m hm k hk
          omega
      rw [Option.bind_some, Option.bind_some, getElem?_upTo _ (Nat.le_of_lt_succ early)]
  simpa [AssignedWhenKeyed, hkey] using same

/-- Annotating any tree in any store hands out the next keys in post-order to the nodes without
one, keeps under each what was found for its node, and lists the stamped nodes that assign a local
among its sites. Nothing else changes, and annotating the tree again changes nothing at all. -/
theorem annotate_records (resolve : Node → Facts) (s : FactStore) (n : Node) :
    ∃ n' s', s.annotate resolve n = (n', s') ∧ Records resolve s s' n.postorder n'.postorder ∧
      (∀ p ∈ stamped n.postorder n'.postorder, s'.lookup p.2 = resolve (asked p)) ∧
      (∀ key < s.size, s'.facts[key]? = s.facts[key]?) ∧
      ((∀ m ∈ n.preorder, ∀ key ∈ m.factKey?, key < s.size) → ∀ v, s'.sitesOf v =
        s.sitesOf v ++ ((stamped n.postorder n'.postorder).filter (s'.Assigns v ·.2)).map (·.2.id)) ∧
      ∀ resolve', s'.annotate resolve' n' = (n', s') := by
  have records := records_annotate resolve s n
  have order := keyedBelow_annotate resolve s n
  generalize s.annotate resolve n = r at records order
  obtain ⟨n', s'⟩ := r
  refine ⟨n', s', rfl, records, fun p hp => ?_, fun key hkey => ?_, fun own v => ?_,
    fun resolve' => ?_⟩
  · obtain ⟨key, hkey, -, -, found⟩ := records.exists_key hp
    simp [FactStore.lookup, hkey, found]
  · have early : key < s.facts.toList.length := by simpa [FactStore.size] using hkey
    rw [← Array.getElem?_toList, records.facts, List.getElem?_append_left early,
      Array.getElem?_toList]
  · have own (m : Node) (hm : m ∈ n.postorder) := own m ((Node.postorder_perm n).mem_iff.1 hm)
    rw [records.sites v]
    refine congrArg (fun ps : List (Node × Node) => s.sitesOf v ++ ps.map (·.2.id)) ?_
    exact List.filter_congr fun p hp => decide_eq_decide.2 (records.assigns_iff order own hp v)
  · exact annotate_annotated resolve' s' n' fun m hm =>
      records.isSome_factKey? ((Node.postorder_perm n').mem_iff.2 hm)

/-- An assignment whose target was annotated before, as the second fact of its store. -/
theorem annotate_records_partly :
    let v : Symbol := ⟨4, "x", .localVar, none, none⟩
    let s : FactStore := ⟨#[.none, ⟨some v, none, none⟩], [(v, [1])]⟩
    let target : Node := ⟨2, .identifier, .detached, [.semantic 1], [.token (.ofName "x")]⟩
    let n : Node := ⟨3, .assignment, .detached, [], [.node target, .node target]⟩
    (∀ m ∈ n.preorder, ∀ key ∈ m.factKey?, key < s.size) ∧
      (s.annotate (fun _ => .none) n).2.sitesOf v = [1, 3] := by
  intro v s target n
  have own : ∀ m ∈ n.preorder, ∀ key ∈ m.factKey?, key < s.size := by decide
  obtain ⟨n', s', h, -, -, -, sites, -⟩ := annotate_records (fun _ => .none) s n
  refine ⟨own, ?_⟩
  rw [h, sites own v]
  cases h
  decide

end FactStore

end Stencil
