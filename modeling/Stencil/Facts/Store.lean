import Stencil.Facts.Basic
import Stencil.Tree.Basic

/-!
# Facts by key

A store keeps the facts of all nodes annotated so far, each under a key that the node then carries
as a mark. Keys are handed out in order and never reused, so facts stay reachable through every
later change of the tree. The store also lists, for each local variable, the nodes that assign it.

Results:

* `FactStore.annotate_annotated` – nodes that carry a key are left alone.
-/
namespace Stencil

structure FactStore where
  /-- the facts under key `k` stand at index `k` -/
  facts : Array Facts
  /-- the numbers of the nodes that assign a local, in the order they were annotated -/
  sites : List (Symbol × List Nat)
deriving Repr

namespace FactStore

def empty : FactStore := ⟨#[], []⟩

/-- How many keys were handed out. -/
def size (s : FactStore) : Nat := s.facts.size

def lookup (s : FactStore) (n : Node) : Facts :=
  ((n.factKey?.bind (s.facts[·]?)).getD .none)

/-- What the node refers to. -/
def symbol? (s : FactStore) (n : Node) : Option Symbol := (s.lookup n).symbol

/-- What the node declares. -/
def declared? (s : FactStore) (n : Node) : Option Symbol := (s.lookup n).declared

def type? (s : FactStore) (n : Node) : Option TypeExpr := (s.lookup n).type

/-- The nodes that assign a local. -/
def sitesOf (s : FactStore) (v : Symbol) : List Nat := (s.sites.lookup v).getD []

/-- Notes that the node numbered `id` assigns `v`. -/
def addSite (s : FactStore) (v : Symbol) (id : Nat) : FactStore :=
  { s with sites := (v, s.sitesOf v ++ [id]) :: s.sites.filter (·.1 ≠ v) }

/-- The local that a node assigns: the target of an assignment, `++` or `--`. -/
def assigned? (s : FactStore) (n : Node) : Option Symbol :=
  match n.kind with
  | .assignment | .step => ((n.node? 0).bind s.symbol?).filter Symbol.isLocal
  | _ => none

/-- Hands out a key for a node whose children have theirs. -/
def stamp (resolve : Node → Facts) (s : FactStore) (n : Node) : Node × FactStore :=
  match n.factKey? with
  | some _ => (n, s)
  | none =>
    let key := s.size
    let s := { s with facts := s.facts.push (resolve n) }
    let s := match s.assigned? n with
      | some v => s.addSite v n.id
      | none => s
    (n.mark (.semantic key), s)

mutual

/-- Gives every node without a key the next one, children before parents, and records under it
what `resolve` knows of the node, whose children have their keys by then. -/
def annotate (resolve : Node → Facts) (s : FactStore) : Node → Node × FactStore
  | ⟨id, kind, span, marks, children⟩ =>
    let (children, s) := annotateAll resolve s children
    stamp resolve s ⟨id, kind, span, marks, children⟩

def annotateAll (resolve : Node → Facts) (s : FactStore) :
    List (Child Node) → List (Child Node) × FactStore
  | [] => ([], s)
  | .token t :: rest =>
    let (rest, s) := annotateAll resolve s rest
    (.token t :: rest, s)
  | .node n :: rest =>
    let (n, s) := annotate resolve s n
    let (rest, s) := annotateAll resolve s rest
    (.node n :: rest, s)

end

theorem stamp_of_factKey? {resolve : Node → Facts} {s : FactStore} {n : Node} {key : Nat}
    (h : n.factKey? = some key) : stamp resolve s n = (n, s) := by
  simp [stamp, h]

mutual

/-- Annotating an annotated tree changes neither the tree nor the store. -/
theorem annotate_annotated (resolve : Node → Facts) (s : FactStore) :
    (n : Node) → (∀ m ∈ n.preorder, m.factKey?.isSome) → annotate resolve s n = (n, s)
  | ⟨id, kind, span, marks, children⟩, h => by
    rw [annotate, annotateAll_annotated resolve s children fun m hm =>
      h m (by rw [Node.preorder]; exact List.mem_cons_of_mem _ hm)]
    obtain ⟨key, hk⟩ := Option.isSome_iff_exists.1
      (h _ (by rw [Node.preorder]; exact List.mem_cons_self))
    exact stamp_of_factKey? hk

theorem annotateAll_annotated (resolve : Node → Facts) (s : FactStore) :
    (cs : List (Child Node)) → (∀ m ∈ Node.preorderAll cs, m.factKey?.isSome) →
      annotateAll resolve s cs = (cs, s)
  | [], _ => by rw [annotateAll]
  | .token t :: rest, h => by
    rw [annotateAll, annotateAll_annotated resolve s rest fun m hm =>
      h m (by rw [Node.preorderAll]; exact hm)]
  | .node n :: rest, h => by
    have here := annotate_annotated resolve s n fun m hm =>
      h m (by rw [Node.preorderAll]; exact List.mem_append_left _ hm)
    have there := annotateAll_annotated resolve s rest fun m hm =>
      h m (by rw [Node.preorderAll]; exact List.mem_append_right _ hm)
    rw [annotateAll, here]
    simp only [there]

end

end FactStore

end Stencil
