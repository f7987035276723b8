import Mathlib.Data.List.Basic
import Mathlib.Data.List.Flatten
import Stencil.Tree.Flatten

/-!
# Shadowing in trees

A variable is declared by a declaration, whose scope is the block or `using` statement around it, or
by a `foreach`, whose scope is the loop. A tree is *unshadowed* if no declaration takes a name that
is declared directly in the same block or belongs to a variable whose scope it stands in.

Results:

* `Node.variableNames_eq`, `Node.unshadowed_iff` – both are found out node by node;
* `Node.Unshadowed.of_not_scoping` – nodes that open no scope add nothing;
* `Node.nodes_flatten`, `Node.nodes_flatten_block` – what flattening makes of the children.
-/
namespace Stencil

/-- Kinds of nodes that open a scope or declare variables. -/
def NodeKind.isScoping : NodeKind → Bool
  | .block | .localDeclaration | .forEachStatement | .usingStatement => true
  | _ => false

namespace Node

/-! ## Declared variables -/

/-- The names that a node declares itself. -/
def introduced (n : Node) : List String :=
  match n.kind with
  | .localDeclaration => n.nodes.filterMap name?
  | .forEachStatement => n.name?.toList
  | _ => []

/-- The names of all variables that are declared in the tree. -/
def variableNames (n : Node) : List String := n.preorder.flatMap introduced

/-- The names of the variables whose scope is the node. -/
def binds (n : Node) : List String :=
  match n.kind with
  | .forEachStatement => n.introduced
  | .block | .usingStatement =>
    (n.nodes.filter (·.kind == .localDeclaration)).flatMap introduced
  | _ => []

/-- What a statement declares directly in the block that it stands in. -/
def declares (n : Node) : List String :=
  match n.kind with
  | .localDeclaration => n.introduced
  | .forEachStatement | .usingStatement => n.binds
  | _ => []

/-- The variables declared in a child of a scope, without those that have that scope. -/
def inner (n : Node) : List String :=
  if n.kind = .localDeclaration then n.nodes.flatMap variableNames else n.variableNames

/-- The declarations that concern the node have names of their own. -/
structure Separate (p : Node) : Prop where
  /-- every declaration has a scope -/
  placed : ∀ c ∈ p.nodes, c.kind = .localDeclaration →
    p.kind = .block ∨ p.kind = .usingStatement
  /-- no two variables are declared directly in one block under one name -/
  direct : p.kind = .block → (p.nodes.flatMap declares).Nodup
  distinct : p.binds.Nodup
  /-- nothing declared inside the scope of a variable takes its name -/
  apart : ∀ x ∈ p.binds, ∀ c ∈ p.nodes, x ∉ c.inner

/-- No declaration of the tree shadows another. -/
def Unshadowed (t : Node) : Prop := ∀ p ∈ t.preorder, p.Separate

theorem preorderAll_eq (cs : List (Child Node)) :
    preorderAll cs = (cs.filterMap Child.node?).flatMap preorder := by
  induction cs with
  | nil => simp [preorderAll]
  | cons c rest ih =>
    cases c with
    | token t => rw [preorderAll, ih]; rfl
    | node n => rw [preorderAll, ih]; rfl

theorem variableNames_eq (n : Node) :
    n.variableNames = n.introduced ++ n.nodes.flatMap variableNames := by
  rw [variableNames, preorder_eq, preorderAll_eq, List.flatMap_cons, List.flatMap_assoc]
  rfl

theorem unshadowed_iff {t : Node} :
    t.Unshadowed ↔ t.Separate ∧ ∀ c ∈ t.nodes, c.Unshadowed := by
  constructor
  · intro h
    exact ⟨h t t.mem_preorder_self, fun c hc p hp => h p (preorder_subset hc hp)⟩
  · rintro ⟨here, below⟩ p hp
    rcases mem_preorder.1 hp with rfl | ⟨c, hc, hp⟩
    · exact here
    · exact below c hc p hp

theorem inner_subset (n : Node) : n.inner ⊆ n.variableNames := by
  unfold inner
  split
  · rw [variableNames_eq]
    exact List.subset_append_right _ _
  · exact List.Subset.refl _

/-! ## Assembling trees -/

section

variable {t : Node}

theorem introduced_of_not_scoping (h : t.kind.isScoping = false) : t.introduced = [] := by
  unfold introduced
  split <;> simp_all [NodeKind.isScoping]

theorem binds_of_not_scoping (h : t.kind.isScoping = false) : t.binds = [] := by
  unfold binds
  split <;> simp_all [NodeKind.isScoping]

theorem declares_of_not_scoping (h : t.kind.isScoping = false) : t.declares = [] := by
  unfold declares
  split <;> simp_all [NodeKind.isScoping]

theorem variableNames_of_not_scoping (h : t.kind.isScoping = false) :
    t.variableNames = t.nodes.flatMap variableNames := by
  rw [variableNames_eq, introduced_of_not_scoping h, List.nil_append]

/-- A node that opens no scope and declares nothing. -/
theorem Unshadowed.of_not_scoping (h : t.kind.isScoping = false)
    (hc : ∀ c ∈ t.nodes, c.Unshadowed ∧ c.kind ≠ .localDeclaration) : t.Unshadowed := by
  refine unshadowed_iff.2 ⟨⟨?_, ?_, ?_, ?_⟩, fun c hm => (hc c hm).1⟩
  · exact fun c hm hk => absurd hk (hc c hm).2
  · intro hk
    simp [hk, NodeKind.isScoping] at h
  · simp [binds_of_not_scoping h]
  · simp [binds_of_not_scoping h]

/-- What a declaration in a block or `using` statement declares there. -/
theorem declares_of_localDeclaration (h : t.kind = .localDeclaration) :
    t.declares = t.introduced := by
  simp [declares, h]

/-- A declaration shadows nothing by itself. -/
theorem Unshadowed.of_localDeclaration (h : t.kind = .localDeclaration)
    (hc : ∀ c ∈ t.nodes, c.Unshadowed ∧ c.kind ≠ .localDeclaration) : t.Unshadowed := by
  have none : t.binds = [] := by simp [binds, h]
  refine unshadowed_iff.2 ⟨⟨?_, ?_, ?_, ?_⟩, fun c hm => (hc c hm).1⟩
  · exact fun c hm hk => absurd hk (hc c hm).2
  · intro hk
    simp [h] at hk
  · simp [none]
  · simp [none]

/-- What a block binds, its statements declare directly. -/
theorem binds_block (h : t.kind = .block) :
    t.binds = (t.nodes.filter (·.kind == .localDeclaration)).flatMap declares := by
  simp only [binds, h]
  refine List.flatMap_congr fun u hu => ?_
  rw [declares_of_localDeclaration (by simpa using (List.mem_filter.1 hu).2)]

/-- A block whose statements declare different names, none of which is declared again inside. -/
theorem Unshadowed.of_block (h : t.kind = .block) (hd : (t.nodes.flatMap declares).Nodup)
    (ha : ∀ u ∈ t.nodes, u.kind = .localDeclaration → ∀ x ∈ u.introduced, ∀ w ∈ t.nodes,
      x ∉ w.inner) (hc : ∀ u ∈ t.nodes, u.Unshadowed) : t.Unshadowed := by
  refine unshadowed_iff.2 ⟨⟨fun _ _ _ => .inl h, fun _ => hd, ?_, ?_⟩, hc⟩
  · rw [binds_block h]
    exact (List.filter_sublist.flatMap declares).nodup hd
  · intro x hx w hw
    rw [binds_block h] at hx
    obtain ⟨u, hu, hx⟩ := List.mem_flatMap.1 hx
    obtain ⟨hu, hk⟩ := List.mem_filter.1 hu
    have hk : u.kind = .localDeclaration := by simpa using hk
    exact ha u hu hk x (declares_of_localDeclaration hk ▸ hx) w hw

/-- A loop whose parts do not declare its variable again. -/
theorem Unshadowed.of_forEach (h : t.kind = .forEachStatement)
    (ha : ∀ x ∈ t.introduced, ∀ c ∈ t.nodes, x ∉ c.variableNames)
    (hc : ∀ c ∈ t.nodes, c.Unshadowed ∧ c.kind ≠ .localDeclaration) : t.Unshadowed := by
  have binds : t.binds = t.introduced := by simp [binds, h]
  refine unshadowed_iff.2 ⟨⟨?_, ?_, ?_, ?_⟩, fun c hm => (hc c hm).1⟩
  · exact fun c hm hk => absurd hk (hc c hm).2
  · intro hk
    simp [h] at hk
  · rw [binds, introduced, h]
    cases t.name? <;> simp
  · intro x hx c hm hi
    exact ha x (binds ▸ hx) c hm (inner_subset c hi)

end

/-! ## Flattened trees -/

section

/-- The statements that a statement of a block becomes when the block is flattened. -/
def contents (n : Node) : List Node := if n.flatten.isInlined then n.flatten.nodes else [n.flatten]

theorem nodes_mapAll (f : Node → Node) (cs : List (Child Node)) :
    (mapAll f cs).filterMap Child.node? = (cs.filterMap Child.node?).map (map f) := by
  induction cs with
  | nil => simp [mapAll]
  | cons c cs ih => cases c <;> simp [mapAll, List.filterMap_cons, ih]

theorem tokens_mapAll (f : Node → Node) (cs : List (Child Node)) :
    (mapAll f cs).filterMap Child.token? = cs.filterMap Child.token? := by
  induction cs with
  | nil => simp [mapAll]
  | cons c cs ih => cases c <;> simp [mapAll, List.filterMap_cons, ih]

theorem children_flatten {n : Node} (h : n.kind ≠ .block) :
    n.flatten.children = mapAll flattenHere n.children := by
  obtain ⟨id, kind, span, marks, children⟩ := n
  rw [flatten, map, flattenHere, if_neg h]

theorem nodes_flatten {n : Node} (h : n.kind ≠ .block) :
    n.flatten.nodes = n.nodes.map flatten := by
  rw [nodes, children_flatten h, nodes_mapAll]
  rfl

theorem forall_nodes_flatten {n : Node} {P : Node → Prop} (h : n.kind ≠ .block)
    (hc : ∀ c ∈ n.nodes, P c.flatten) : ∀ c ∈ n.flatten.nodes, P c := by
  rw [nodes_flatten h]
  simpa using hc

theorem tokens_flatten {n : Node} (h : n.kind ≠ .block) : n.flatten.tokens = n.tokens := by
  rw [tokens, children_flatten h, tokens_mapAll]
  rfl

theorem name?_flatten {n : Node} (h : n.kind ≠ .block) : n.flatten.name? = n.name? := by
  rw [name?, tokenOfKind?, tokens_flatten h]
  rfl

/-- Flattening keeps the names that a declaration declares. -/
theorem introduced_flatten {n : Node} (h : n.kind = .localDeclaration)
    (hc : ∀ c ∈ n.nodes, c.kind ≠ .block) : n.flatten.introduced = n.introduced := by
  have hb : n.kind ≠ .block := by simp [h]
  simp only [introduced, kind_flatten, h, nodes_flatten hb, List.filterMap_map]
  exact List.filterMap_congr fun c hm => name?_flatten (hc c hm)

theorem nodes_flatten_block {n : Node} (h : n.kind = .block) :
    n.flatten.nodes = n.nodes.flatMap contents := by
  obtain ⟨id, kind, span, marks, children⟩ := n
  obtain rfl : kind = .block := h
  have each : ∀ cs : List (Child Node), ((mapAll flattenHere cs).flatMap inlined).filterMap
      Child.node? = (cs.filterMap Child.node?).flatMap contents := by
    intro cs
    induction cs with
    | nil => simp [mapAll]
    | cons c cs ih =>
      cases c with
      | token t => simpa [mapAll, inlined, List.filterMap_cons] using ih
      | node m =>
        have one : (inlined (.node m.flatten)).filterMap Child.node? = contents m := by
          simp only [inlined, contents]
          split <;> rfl
        rw [mapAll, List.flatMap_cons, List.filterMap_append, ih]
        exact congrArg (· ++ _) one
  rw [flatten_block]
  exact each children

theorem contents_of_not_block {n : Node} (h : n.kind ≠ .block) : contents n = [n.flatten] := by
  have : n.flatten.isInlined = false := by simp [isInlined, h]
  rw [contents, this]
  rfl

end

mutual

/-- Where there is no block there is nothing to flatten. -/
theorem flatten_eq_self : (n : Node) → (∀ m ∈ n.preorder, m.kind ≠ .block) → n.flatten = n
  | ⟨id, kind, span, marks, children⟩, h => by
    have here := h _ (mem_preorder_self _)
    rw [preorder] at h
    rw [flatten, map, flattenHere, if_neg here,
      mapAll_eq_self children fun m hm => h m (List.mem_cons_of_mem _ hm)]

theorem mapAll_eq_self : (cs : List (Child Node)) → (∀ m ∈ preorderAll cs, m.kind ≠ .block) →
    mapAll flattenHere cs = cs
  | [], _ => by rw [mapAll]
  | .token _ :: rest, h => by
    rw [preorderAll] at h
    rw [mapAll, mapAll_eq_self rest h]
  | .node n :: rest, h => by
    rw [preorderAll] at h
    have first : map flattenHere n = n :=
      flatten_eq_self n fun m hm => h m (List.mem_append_left _ hm)
    rw [mapAll, first, mapAll_eq_self rest fun m hm => h m (List.mem_append_right _ hm)]

end

/-! ## Trees without scopes -/

/-- Nothing in the tree opens a scope or declares a variable. -/
def Scopeless (n : Node) : Prop := ∀ m ∈ n.preorder, m.kind.isScoping = false

namespace Scopeless

variable {n : Node}

theorem here (h : n.Scopeless) : n.kind.isScoping = false := h n n.mem_preorder_self

theorem child {m : Node} (h : n.Scopeless) (hm : m ∈ n.nodes) : m.Scopeless :=
  fun x hx => h x (preorder_subset hm hx)

theorem of_nodes (hk : n.kind.isScoping = false) (h : ∀ c ∈ n.nodes, c.Scopeless) :
    n.Scopeless := by
  intro m hm
  rcases mem_preorder.1 hm with rfl | ⟨c, hc, hm⟩
  · exact hk
  · exact h c hc m hm

theorem ne_localDeclaration (h : n.Scopeless) : n.kind ≠ .localDeclaration := by
  intro hk
  have := h.here
  simp [hk, NodeKind.isScoping] at this

theorem variableNames (h : n.Scopeless) : n.variableNames = [] :=
  List.flatMap_eq_nil_iff.2 fun m hm => introduced_of_not_scoping (h m hm)

theorem unshadowed {n : Node} (h : n.Scopeless) : n.Unshadowed :=
  .of_not_scoping h.here fun _ hc =>
    have := size_lt_of_mem hc
    ⟨(h.child hc).unshadowed, (h.child hc).ne_localDeclaration⟩
termination_by n.size

theorem flatten (h : n.Scopeless) : n.flatten = n := by
  refine flatten_eq_self n fun m hm hk => ?_
  have := h m hm
  simp [hk, NodeKind.isScoping] at this

theorem contents (h : n.Scopeless) : n.contents = [n] := by
  have hb : n.kind ≠ .block := by
    intro hk
    have := h.here
    simp [hk, NodeKind.isScoping] at this
  rw [contents_of_not_block hb, h.flatten]

end Scopeless

/-- `this`, or a name. -/
inductive IsAtom (n : Node) : Prop
  | this (hk : n.kind = .this) (hc : n.children = [])
  | name {name : String} (hk : n.kind = .identifier) (hc : n.children = [.token (.ofName name)])

theorem IsAtom.scopeless {n : Node} (h : n.IsAtom) : n.Scopeless := by
  obtain ⟨hk, hc⟩ | ⟨hk, hc⟩ := h
  all_goals exact .of_nodes (by rw [hk]; rfl) (by simp [nodes, hc])

end Node

end Stencil
