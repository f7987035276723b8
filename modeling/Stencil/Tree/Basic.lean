import Stencil.Span
import Stencil.Stage
import Stencil.Tree.Kind

/-!
# Syntax trees

A node has a kind, a span, marks left by the passes over it, and children that are nodes or
tokens in source order. Nodes read from a text also have a number that no other node of the same
session has; `Node.number` hands them out, and every pass keeps them, so facts recorded about a
node outlive any change of the tree around it. Nodes built by a program carry number zero
until they are numbered.

Results:

* `Node.size_lt_of_mem` – a child has fewer nodes than its parent, which is what every
  recursion over trees ends by;
* `Node.length_preorder` – the traversal meets every node once;
* `Node.map_id`, `Node.kind_number` – rebuilding with the identity changes nothing, and numbering
  changes nothing but numbers.
-/
namespace Stencil

/-- A leaf of a tree. For literals `text` is the value, not its quoted spelling. -/
structure Token where
  kind : TokenKind
  text : String
  span : Span
deriving DecidableEq, Repr, Inhabited

/-- What a pass leaves on a node. -/
inductive Mark where
  /-- the key of the facts recorded about the node -/
  | semantic (key : Nat)
  | stage (s : Stage)
  /-- a generation-time expression whose value is generated code -/
  | splice
  /-- a block that the compiler made, not the author -/
  | synthetic
  /-- a block to be merged into its parent even if it declares locals -/
  | flatten
deriving DecidableEq, Repr

inductive Child (α : Type) where
  | token (t : Token)
  | node (n : α)
deriving Repr

/-- A composite part of a program. -/
structure Node where
  id : Nat
  kind : NodeKind
  span : Span
  marks : List Mark
  children : List (Child Node)
deriving Repr, Inhabited

namespace Child

def node? {α : Type} : Child α → Option α
  | token _ => none
  | node n => some n

def token? {α : Type} : Child α → Option Token
  | token t => some t
  | node _ => none

@[simp] theorem node?_node {α : Type} (n : α) : (node n).node? = some n := rfl

@[simp] theorem node?_token {α : Type} (t : Token) : (token t : Child α).node? = none := rfl

@[simp] theorem token?_node {α : Type} (n : α) : (node n).token? = none := rfl

@[simp] theorem token?_token {α : Type} (t : Token) : (token t : Child α).token? = some t := rfl

def span : Child Node → Span
  | token t => t.span
  | node n => n.span

end Child

namespace Token

/-- A token of code that stands nowhere in a text. -/
def detached (kind : TokenKind) (text : String) : Token := ⟨kind, text, .detached⟩

def ofName (name : String) : Token := detached .identifier name

/-- Whether the text is the fixed spelling of the kind. -/
def isCanonical (t : Token) : Bool := t.kind.spelling == some t.text

end Token

namespace Node

/-! ## Looking at children -/

/-- The children that are nodes. -/
def nodes (n : Node) : List Node := n.children.filterMap Child.node?

/-- The children that are tokens. -/
def tokens (n : Node) : List Token := n.children.filterMap Child.token?

/-- The child node at `index`, tokens not counted. -/
def node? (n : Node) (index : Nat) : Option Node := n.nodes[index]?

def nodeOfKind? (n : Node) (kind : NodeKind) : Option Node := n.nodes.find? (·.kind == kind)

/-- The first token. -/
def token? (n : Node) : Option Token := n.tokens.head?

def tokenOfKind? (n : Node) (kind : TokenKind) : Option Token :=
  n.tokens.find? (·.kind == kind)

/-- The text of the first identifier token. -/
def name? (n : Node) : Option String := (n.tokenOfKind? .identifier).map Token.text

def nameOrEmpty (n : Node) : String := n.name?.getD ""

/-- The text of the first token, empty without one. -/
def tokenText (n : Node) : String := (n.token?.map Token.text).getD ""

def hasAwait (n : Node) : Bool := (n.tokenOfKind? .awaitKeyword).isSome

theorem mem_nodes {n m : Node} : m ∈ n.nodes ↔ Child.node m ∈ n.children := by
  simp only [nodes, List.mem_filterMap]
  constructor
  · rintro ⟨c, hc, h⟩
    cases c with
    | token t => simp [Child.node?] at h
    | node x => simp only [Child.node?, Option.some.injEq] at h; exact h ▸ hc
  · exact fun h => ⟨_, h, rfl⟩

mutual

/-- How many nodes the tree has. -/
def size : Node → Nat
  | ⟨_, _, _, _, children⟩ => sizeAll children + 1

def sizeAll : List (Child Node) → Nat
  | [] => 0
  | .token _ :: rest => sizeAll rest
  | .node n :: rest => size n + sizeAll rest

end

theorem size_pos (n : Node) : 0 < n.size := by
  obtain ⟨id, kind, span, marks, children⟩ := n
  rw [size]
  exact Nat.succ_pos _

theorem size_le_sizeAll {m : Node} : {cs : List (Child Node)} → .node m ∈ cs → m.size ≤ sizeAll cs
  | .token t :: rest, h => by
    rw [sizeAll]
    exact size_le_sizeAll (by simpa using h)
  | .node n :: rest, h => by
    rw [sizeAll]
    rcases List.mem_cons.1 h with h | h
    · cases h; omega
    · have := size_le_sizeAll h; omega

/-- A child has fewer nodes than its parent. -/
theorem size_lt_of_mem {n m : Node} (h : m ∈ n.nodes) : m.size < n.size := by
  have hc := size_le_sizeAll (mem_nodes.1 h)
  obtain ⟨id, kind, span, marks, children⟩ := n
  simpa [size] using Nat.lt_succ_of_le hc

theorem mem_of_node? {n m : Node} {i : Nat} (h : n.node? i = some m) : m ∈ n.nodes :=
  List.mem_of_getElem? h

theorem mem_of_nodeOfKind? {n m : Node} {k : NodeKind} (h : n.nodeOfKind? k = some m) :
    m ∈ n.nodes :=
  List.mem_of_find?_eq_some h

/-! ## Marks -/

def hasMark (n : Node) (m : Mark) : Bool := n.marks.contains m

/-- The stage a pass has decided, if any. -/
def stage? (n : Node) : Option Stage :=
  n.marks.findSome? fun | .stage s => some s | _ => none

/-- The key of the facts recorded about the node, if any. -/
def factKey? (n : Node) : Option Nat :=
  n.marks.findSome? fun | .semantic key => some key | _ => none

/-- Adds a mark once. -/
def mark (m : Mark) (n : Node) : Node :=
  if n.hasMark m then n else { n with marks := n.marks ++ [m] }

def isStageMark : Mark → Bool
  | .stage _ => true
  | _ => false

/-- Puts `s` in place of any stage the node has. -/
def setStage (s : Stage) (n : Node) : Node :=
  if n.stage? = some s then n
  else { n with marks := n.marks.filter (!isStageMark ·) ++ [.stage s] }

@[simp] theorem id_mark (m : Mark) (n : Node) : (n.mark m).id = n.id := by
  unfold mark; split <;> rfl

@[simp] theorem kind_mark (m : Mark) (n : Node) : (n.mark m).kind = n.kind := by
  unfold mark; split <;> rfl

@[simp] theorem children_mark (m : Mark) (n : Node) : (n.mark m).children = n.children := by
  unfold mark; split <;> rfl

theorem stage?_mark {m : Mark} (h : isStageMark m = false) (n : Node) :
    (n.mark m).stage? = n.stage? := by
  unfold mark; split
  · rfl
  · cases m <;> simp_all [stage?, isStageMark, List.findSome?_append]

theorem factKey?_mark {n : Node} (h : n.factKey? = none) (key : Nat) :
    (n.mark (.semantic key)).factKey? = some key := by
  unfold mark; split
  · next held =>
    have := List.findSome?_eq_none_iff.1 h _ (List.contains_iff_mem.1 held)
    cases this
  · unfold factKey? at h
    simp [factKey?, List.findSome?_append, h]

theorem hasMark_mark (m m' : Mark) (n : Node) :
    (n.mark m).hasMark m' = (n.hasMark m' || decide (m' = m)) := by
  unfold mark; split
  · next h => by_cases hm : m' = m <;> simp_all
  · simp [hasMark]

@[simp] theorem id_setStage (s : Stage) (n : Node) : (n.setStage s).id = n.id := by
  unfold setStage; split <;> rfl

@[simp] theorem kind_setStage (s : Stage) (n : Node) : (n.setStage s).kind = n.kind := by
  unfold setStage; split <;> rfl

@[simp] theorem children_setStage (s : Stage) (n : Node) :
    (n.setStage s).children = n.children := by
  unfold setStage; split <;> rfl

theorem stage?_setStage (s : Stage) (n : Node) : (n.setStage s).stage? = some s := by
  unfold setStage; split
  · assumption
  · have none : (n.marks.filter (!isStageMark ·)).findSome?
        (fun | .stage s => some s | _ => none) = none := by
      refine List.findSome?_eq_none_iff.2 fun m hm => ?_
      have := (List.mem_filter.1 hm).2
      cases m <;> simp_all [isStageMark]
    simp [stage?, List.findSome?_append, none]

/-! ## Building and traversing -/

/-- A node that stands nowhere by itself and spans what its children span. -/
def build (kind : NodeKind) (children : List (Child Node)) : Node :=
  let spans := (children.map Child.span).filter (!·.isEmpty)
  let span := match spans with
    | [] => Span.detached
    | s :: rest => rest.foldl Span.cover s
  ⟨0, kind, span, [], children⟩

@[simp] theorem kind_build (kind : NodeKind) (children : List (Child Node)) :
    (build kind children).kind = kind := rfl

@[simp] theorem children_build (kind : NodeKind) (children : List (Child Node)) :
    (build kind children).children = children := rfl

@[simp] theorem nodes_build (kind : NodeKind) (children : List (Child Node)) :
    (build kind children).nodes = children.filterMap Child.node? := rfl

@[simp] theorem filterMap_node?_node (ns : List Node) :
    ns.filterMap (Child.node? ∘ Child.node) = ns :=
  List.filterMap_some

mutual

/-- All nodes of the tree, parents before children, in source order. -/
def preorder : Node → List Node
  | n@⟨_, _, _, _, children⟩ => n :: preorderAll children

def preorderAll : List (Child Node) → List Node
  | [] => []
  | .token _ :: rest => preorderAll rest
  | .node n :: rest => preorder n ++ preorderAll rest

end

mutual

theorem length_preorder : (n : Node) → n.preorder.length = n.size
  | ⟨_, _, _, _, children⟩ => by simp [preorder, size, length_preorderAll children]

theorem length_preorderAll : (cs : List (Child Node)) → (preorderAll cs).length = sizeAll cs
  | [] => by simp [preorderAll, sizeAll]
  | .token _ :: rest => by simp [preorderAll, sizeAll, length_preorderAll rest]
  | .node n :: rest => by
    simp [preorderAll, sizeAll, length_preorder n, length_preorderAll rest]

end

theorem preorder_eq (n : Node) : n.preorder = n :: preorderAll n.children := by
  obtain ⟨id, kind, span, marks, children⟩ := n
  rw [preorder]

theorem mem_preorderAll {m : Node} :
    (cs : List (Child Node)) → (m ∈ preorderAll cs ↔ ∃ n, .node n ∈ cs ∧ m ∈ n.preorder)
  | [] => by simp [preorderAll]
  | .token t :: rest => by simp [preorderAll, mem_preorderAll rest]
  | .node n :: rest => by
    rw [preorderAll, List.mem_append, mem_preorderAll rest]
    constructor
    · rintro (h | ⟨x, hx, h⟩)
      · exact ⟨n, List.mem_cons_self, h⟩
      · exact ⟨x, List.mem_cons_of_mem _ hx, h⟩
    · rintro ⟨x, hx, h⟩
      rcases List.mem_cons.1 hx with hx | hx
      · cases hx; exact .inl h
      · exact .inr ⟨x, hx, h⟩

/-- A node below another is that node or stands below a child of it. -/
theorem mem_preorder {n m : Node} : m ∈ n.preorder ↔ m = n ∨ ∃ c ∈ n.nodes, m ∈ c.preorder := by
  simp only [preorder_eq n, List.mem_cons, mem_preorderAll, mem_nodes]

theorem mem_preorder_self (n : Node) : n ∈ n.preorder := by
  obtain ⟨id, kind, span, marks, children⟩ := n
  rw [preorder]
  exact List.mem_cons_self

/-- What stands below a node of a tree stands in the tree. -/
theorem preorder_trans {n m x : Node} (hm : m ∈ n.preorder) (hx : x ∈ m.preorder) :
    x ∈ n.preorder := by
  rcases mem_preorder.1 hm with rfl | ⟨c, hc, hm⟩
  · exact hx
  · have := size_lt_of_mem hc
    exact mem_preorder.2 (.inr ⟨c, hc, preorder_trans hm hx⟩)
termination_by n.size

theorem mem_preorder_of_mem_nodes {n m x : Node} (hm : m ∈ n.preorder) (hx : x ∈ m.nodes) :
    x ∈ n.preorder :=
  preorder_trans hm (mem_preorder.2 (.inr ⟨x, hx, x.mem_preorder_self⟩))

theorem preorder_subset_preorderAll {m : Node} :
    {cs : List (Child Node)} → .node m ∈ cs → m.preorder ⊆ preorderAll cs
  | .token t :: rest, h => by
    rw [preorderAll]
    exact preorder_subset_preorderAll (by simpa using h)
  | .node n :: rest, h => by
    rw [preorderAll]
    rcases List.mem_cons.1 h with h | h
    · cases h; exact List.subset_append_left _ _
    · exact List.Subset.trans (preorder_subset_preorderAll h) (List.subset_append_right _ _)

/-- What stands below a child stands below its parent. -/
theorem preorder_subset {n m : Node} (h : m ∈ n.nodes) : m.preorder ⊆ n.preorder := by
  have below := preorder_subset_preorderAll (mem_nodes.1 h)
  obtain ⟨id, kind, span, marks, children⟩ := n
  rw [preorder.eq_def ⟨id, kind, span, marks, children⟩]
  exact List.Subset.trans below (List.subset_cons_self _ _)

mutual

/-- Gives the nodes consecutive numbers from `next` on, children before parents, and returns the
first number not used. -/
def number (next : Nat) : Node → Node × Nat
  | ⟨_, kind, span, marks, children⟩ =>
    let (children, next) := numberAll next children
    (⟨next, kind, span, marks, children⟩, next + 1)

def numberAll (next : Nat) : List (Child Node) → List (Child Node) × Nat
  | [] => ([], next)
  | .token t :: rest =>
    let (rest, next) := numberAll next rest
    (.token t :: rest, next)
  | .node n :: rest =>
    let (n, next) := number next n
    let (rest, next) := numberAll next rest
    (.node n :: rest, next)

end

mutual

/-- Rebuilds the tree from its leaves: `f` sees every node after its children were rebuilt. -/
def map (f : Node → Node) : Node → Node
  | ⟨id, kind, span, marks, children⟩ => f ⟨id, kind, span, marks, mapAll f children⟩

def mapAll (f : Node → Node) : List (Child Node) → List (Child Node)
  | [] => []
  | .token t :: rest => .token t :: mapAll f rest
  | .node n :: rest => .node (map f n) :: mapAll f rest

end

mutual

/-- Equality of trees, numbers, spans and marks included. -/
def same : Node → Node → Bool
  | ⟨id, kind, span, marks, children⟩, ⟨id', kind', span', marks', children'⟩ =>
    id == id' && kind == kind' && span == span' && marks == marks' && sameAll children children'

def sameAll : List (Child Node) → List (Child Node) → Bool
  | [], [] => true
  | .token t :: rest, .token u :: rest' => t == u && sameAll rest rest'
  | .node n :: rest, .node m :: rest' => same n m && sameAll rest rest'
  | _, _ => false

end

instance : BEq Node := ⟨same⟩

@[simp] theorem kind_number (next : Nat) (n : Node) : (n.number next).1.kind = n.kind := by
  obtain ⟨id, kind, span, marks, children⟩ := n
  simp [number]

mutual

theorem map_id : (n : Node) → n.map (fun m => m) = n
  | ⟨_, _, _, _, children⟩ => by simp [map, mapAll_id children]

theorem mapAll_id : (cs : List (Child Node)) → mapAll (fun m => m) cs = cs
  | [] => by simp [mapAll]
  | .token _ :: rest => by simp [mapAll, mapAll_id rest]
  | .node n :: rest => by simp [mapAll, map_id n, mapAll_id rest]

end

end Node

end Stencil
