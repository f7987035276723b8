import Stencil.Proofs.Quotation.Correctness
import Stencil.Proofs.Quotation.Misuse

/-!
# Calls in generators that stand for nodes of their templates

A generator gives the call that its template wraps through `Context.CreateAssignStatement` or
`Context.CreateReturnStatement`. These calls, and the literals that the quoter makes, stand for
single nodes of the template, in the same order: what gives a wrapped call stands for a wrapped
call, a literal for another node, and no wrapped call is left out.

Results:

* `standIns` – these calls of a generator;
* `Accounts` – that they stand for the nodes of a list.
-/
namespace Stencil

/-- The names of the receiver and of the method, in a call of a method of a named receiver. -/
def Node.calledMethod? (n : Node) : Option (String × String) :=
  if n.kind = .invocation then do
    let callee ← n.node? 0
    let receiver ← callee.node? 0
    if callee.kind = .memberAccess ∧ receiver.kind = .identifier then
      some (receiver.nameOrEmpty, callee.nameOrEmpty)
    else none
  else none

namespace Quotation

@[simp] theorem calledMethod?_methodCall (s t : String) (arguments : List Node) :
    (Node.methodCall s t arguments).calledMethod? = some (s, t) := rfl

theorem calledMethod?_of_kind {n : Node} (h : n.kind ≠ .invocation) : n.calledMethod? = none :=
  if_neg h

/-! ## Calls that stand for nodes -/

/-- A call in a generator that gives the wrapped call. No such call is kept from the template, where
every node has a stage. -/
def isProviding (n : Node) : Bool :=
  n.stage?.isNone && (n.calledMethod? == some ("Context", "CreateAssignStatement") ||
    n.calledMethod? == some ("Context", "CreateReturnStatement"))

/-- A call in a generator that makes a literal, as all placeholders do. -/
def isLiteral (n : Node) : Bool :=
  n.stage?.isNone && n.calledMethod? == some ("Syntax", "LiteralExpression")

theorem preorder_eq_flatMap (n : Node) : n.preorder = n :: n.nodes.flatMap Node.preorder := by
  rw [Node.preorder_eq, Node.preorderAll_eq]
  rfl

/-- The calls of both sorts. -/
def standIns (n : Node) : List Node := n.preorder.filter fun m => isProviding m || isLiteral m

theorem standIns_eq (n : Node) :
    standIns n = [n].filter (fun m => isProviding m || isLiteral m) ++ n.nodes.flatMap standIns := by
  rw [standIns, Node.preorder_eq, Node.preorderAll_eq, ← List.singleton_append, List.filter_append,
    List.filter_flatMap]
  rfl

/-- Code of the template holds none. -/
theorem standIns_kept {n : Node} (h : ∀ m ∈ n.preorder, m.stage?.isSome) : standIns n = [] := by
  refine List.filter_eq_nil_iff.2 fun m hm => ?_
  have staged := h m hm
  rw [← Option.not_isNone, Bool.not_eq_true'] at staged
  simp [isProviding, isLiteral, staged]

theorem standIns_build (kind : NodeKind) (hk : kind ≠ .invocation) (cs : List (Child Node)) :
    standIns (.build kind cs) = (cs.filterMap Child.node?).flatMap standIns := by
  have none : (Node.build kind cs).calledMethod? = none := calledMethod?_of_kind (by simpa using hk)
  rw [standIns_eq, Node.nodes_build]
  simp [isProviding, isLiteral, none]

section

variable (s t : String) (arguments : List Node)

@[simp] theorem standIns_identifier : standIns (.identifier s) = [] :=
  standIns_build .identifier (by decide) _

@[simp] theorem standIns_stringLiteral : standIns (.stringLiteral s) = [] :=
  standIns_build .literal (by decide) _

@[simp] theorem standIns_memberAccess : standIns (.memberAccess (.identifier s) t) = [] := by
  rw [Node.memberAccess, standIns_build _ (by decide)]
  simp

theorem standIns_methodCall : standIns (.methodCall s t arguments) =
    [Node.methodCall s t arguments].filter (fun m => isProviding m || isLiteral m) ++
      arguments.flatMap standIns := by
  rw [standIns_eq, Node.methodCall, Node.nodes_invocation, List.flatMap_cons,
    standIns_memberAccess, List.nil_append]

/-- Other calls stand for nothing themselves. -/
theorem standIns_otherCall (h : (s, t) ∉ [("Context", "CreateAssignStatement"),
    ("Context", "CreateReturnStatement"), ("Syntax", "LiteralExpression")]) :
    standIns (.methodCall s t arguments) = arguments.flatMap standIns := by
  rw [standIns_methodCall]
  simp only [List.mem_cons, List.not_mem_nil, or_false, not_or] at h
  simp [isProviding, isLiteral, h]

@[simp] theorem standIns_formPath (form : CallForm) : standIns (formPath form) = [] :=
  standIns_memberAccess _ _

@[simp] theorem standIns_tokenKindPath (kind : TokenKind) : standIns (tokenKindPath kind) = [] :=
  standIns_memberAccess _ _

@[simp] theorem standIns_quoteToken (t : Token) : standIns (quoteToken t) = [] := by
  rw [quoteToken, construct, standIns_otherCall _ _ _ (by decide)]
  split <;> simp

@[simp] theorem standIns_localDeclaration (name : Token) (value : Node) :
    standIns (.localDeclaration name (some value)) = standIns value := by
  simp [Node.localDeclaration, Node.declarator, standIns_build, List.filterMap_cons]

@[simp] theorem standIns_openAccumulator : standIns (openAccumulator s) = [] := by
  rw [openAccumulator, standIns_localDeclaration, construct, standIns_otherCall _ _ _ (by decide)]
  rfl

@[simp] theorem standIns_expressionStatement (value : Node) :
    standIns (.expressionStatement value) = standIns value := by
  simp [Node.expressionStatement, standIns_build]

@[simp] theorem standIns_returnStatement (value : Node) :
    standIns (.returnStatement (some value)) = standIns value := by
  simp [Node.returnStatement, standIns_build]

@[simp] theorem standIns_block (steps : List Node) :
    standIns (.block steps) = steps.flatMap standIns := by
  simp [Node.block, standIns_build]

@[simp] theorem standIns_closureCall (steps : List Node) :
    standIns (closureCall steps) = steps.flatMap standIns := by
  have other : (closureCall steps).calledMethod? = none := rfl
  rw [standIns_eq, List.filter_cons_of_neg (by simp [isProviding, isLiteral, other]), closureCall,
    Node.nodes_invocation]
  simp [Node.parenthesized, Node.thunk, standIns_build]

@[simp] theorem standIns_ifStatement (condition thenBranch : Node) (elseBranch : Option Node) :
    standIns (.ifStatement condition thenBranch elseBranch) =
      standIns condition ++ standIns thenBranch ++ elseBranch.toList.flatMap standIns := by
  cases elseBranch <;> simp [Node.ifStatement, standIns_build]

@[simp] theorem standIns_forEachStatement (name : Token) (source body : Node) :
    standIns (.forEachStatement false name source body) = standIns source ++ standIns body := by
  simp [Node.forEachStatement, Node.awaitToken, standIns_build, List.filterMap_cons]

@[simp] theorem standIns_template (ps : List Node) (body : Node) :
    standIns (.template s ps body) = ps.flatMap standIns ++ standIns body := by
  simp [Node.template, standIns_build, List.filterMap_cons]

end

/-! ## What they stand for -/

/-- The call gives the wrapped call in a form. -/
def GivesCall (form : CallForm) (n : Node) : Prop :=
  n = .methodCall "Context" "CreateReturnStatement" [formPath form] ∨
    ∃ holder, n = .methodCall "Context" "CreateAssignStatement" [.identifier holder, formPath form]

theorem GivesCall.standIns {form : CallForm} {n : Node} (h : GivesCall form n) :
    standIns n = [n] := by
  rcases h with rfl | ⟨holder, rfl⟩ <;> rw [standIns_methodCall] <;> simp [List.filter] <;> rfl

/-- What stands for a node of the template: what gives the call that it asks for, in its form, or
else a literal. -/
def StandsFor (store : FactStore) (n q : Node) : Prop :=
  match wrappedForm? store n with
  | some form => GivesCall form q
  | none => isLiteral q

/-- The calls `made` stand for nodes among `sources`, in the same order, and no wrapped call is left
out. -/
def Accounts (store : FactStore) (sources made : List Node) : Prop :=
  ∃ ns, ns.Sublist sources ∧
    ns.filter (fun n => (wrappedForm? store n).isSome) =
      sources.filter (fun n => (wrappedForm? store n).isSome) ∧
    List.Forall₂ (StandsFor store) ns made

namespace Accounts

variable {store : FactStore}

/-- Nodes that ask for nothing need no calls. -/
theorem quiet {sources : List Node} (h : ∀ n ∈ sources, wrappedForm? store n = none) :
    Accounts store sources [] :=
  ⟨[], List.nil_sublist _, (List.filter_eq_nil_iff.2 fun n hn => by simp [h n hn]).symm, .nil⟩

theorem append {sources sources' made made' : List Node} (h : Accounts store sources made)
    (h' : Accounts store sources' made') : Accounts store (sources ++ sources') (made ++ made') := by
  obtain ⟨ns, sub, all, stand⟩ := h
  obtain ⟨ns', sub', all', stand'⟩ := h'
  exact ⟨ns ++ ns', sub.append sub', by rw [List.filter_append, List.filter_append, all, all'],
    List.rel_append stand stand'⟩

theorem flatMap {α β : Type} {f : α → List Node} {g : β → List Node} {xs : List α} {ys : List β}
    (h : List.Forall₂ (fun x y => Accounts store (f x) (g y)) xs ys) :
    Accounts store (xs.flatMap f) (ys.flatMap g) := by
  induction h with
  | nil => exact quiet nofun
  | cons h _ ih => exact h.append ih

/-- What is made of nodes one after another accounts for all of them. -/
theorem nodes {α : Type} {g : α → List Node} {ns : List Node} {ys : List α}
    (h : List.Forall₂ (fun (n : { m // m ∈ ns }) y => Accounts store n.1.preorder (g y))
      ns.attach ys) : Accounts store (ns.flatMap Node.preorder) (ys.flatMap g) := by
  rw [← List.attach_map_subtype_val ns, List.flatMap_map]
  exact flatMap h

/-- A literal stands for a node that is no wrapped call. -/
theorem literal {n q : Node} (hn : wrappedForm? store n = none) (hq : isLiteral q) :
    Accounts store [n] [q] :=
  ⟨[n], .refl _, rfl, .cons (by rwa [StandsFor, hn]) .nil⟩

/-- What gives the wrapped call stands for it. -/
theorem given {n q : Node} {form : CallForm} (hn : wrappedForm? store n = some form)
    (hq : GivesCall form q) : Accounts store [n] [q] :=
  ⟨[n], .refl _, rfl, .cons (by rwa [StandsFor, hn]) .nil⟩

/-- A call of a constructor with its arguments. -/
theorem construct {n : Node} {name : String} {arguments below : List Node}
    (h : Accounts store below (arguments.flatMap standIns)) (hn : wrappedForm? store n = none) :
    Accounts store (n :: below) (standIns (construct name arguments)) := by
  by_cases hname : name = "LiteralExpression"
  · subst hname
    rw [Quotation.construct, standIns_methodCall]
    exact (literal hn rfl).append h
  · rw [Quotation.construct, standIns_otherCall _ _ _ (by simp [hname])]
    exact append (quiet (List.forall_mem_singleton.2 hn)) h

end Accounts

theorem StandsFor.isProviding {store : FactStore} {n q : Node} (h : StandsFor store n q) :
    (wrappedForm? store n).isSome ↔ isProviding q := by
  unfold StandsFor at h
  split at h
  · next form hform =>
    rw [hform]
    rcases h with rfl | ⟨holder, rfl⟩ <;> exact ⟨fun _ => rfl, fun _ => rfl⟩
  · next hform =>
    simp only [isLiteral, Bool.and_eq_true, beq_iff_eq] at h
    simp [hform, Quotation.isProviding, h]

end Quotation
end Stencil
