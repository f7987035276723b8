import Mathlib.Tactic.MkIffOfInductiveProp
import Stencil.Proofs.Quotation.Correctness
import Stencil.Proofs.Session.Evaluating

/-!
# Templates that only steer

A template is control flow only if its statements are expression statements, `if` and `foreach`
over blocks, `break` and `continue`, every loop is run at generation time and the wrapped call is
not asked for. An accepted template of this kind is staged correctly: its generator expands to what
running the template emits.

Results:

* `IsControlFlow.fits` – what the grammar and the fragment say together is all that the simulation
  asks for;
* `expand_eq_residualize` – expanding is running.
-/
namespace Stencil

open Quotation

def NodeKind.isControl : NodeKind → Bool
  | .block | .expressionStatement | .ifStatement | .forEachStatement | .breakStatement
  | .continueStatement => true
  | _ => false

/-- The node takes part in control flow only. -/
@[mk_iff]
structure IsControlFlow (store : FactStore) (n : Node) : Prop where
  control : n.kind.isStatement → n.kind.isControl
  /-- blocks are branches and bodies, and all other statements stand in blocks -/
  bracketed : ∀ m ∈ n.nodes, m.kind.isStatement → (m.kind = .block ↔ n.kind ≠ .block)
  loop : n.kind = .forEachStatement → n.stage? = some .generationTime
  unwrapped : wrappedForm? store n = none
  /-- variables leave alone the names that generator programs use -/
  named : n.kind = .parameter ∨ n.kind = .forEachStatement →
    n.nameOrEmpty ∉ Expansion.programGlobals

instance (store : FactStore) (n : Node) : Decidable (IsControlFlow store n) :=
  decidable_of_iff' _ (isControlFlow_iff store n)

/-! ## Names -/

theorem Lawful.isOpenName {n : Node} (h : Lawful n)
    (hk : n.kind = .parameter ∨ n.kind = .forEachStatement)
    (hv : n.nameOrEmpty ∉ Expansion.programGlobals) : Expansion.isOpenName n.nameOrEmpty := by
  obtain ⟨t, ht, hkind, hfound⟩ := h.1.name hk
  have hname : n.nameOrEmpty = t.text := by simp [Node.nameOrEmpty, Node.name?, hfound]
  rw [hname] at hv ⊢
  simp [Expansion.isOpenName, h.2 t ht hkind, hv]

/-! ## What the simulation asks for -/

variable {store : FactStore}

theorem IsControlFlow.conditional {n : Node} (hf : ∀ m ∈ n.preorder, IsControlFlow store m)
    (hl : ∀ m ∈ n.preorder, Lawful m) (hk : n.kind = .ifStatement) :
    ∃ condition thenBranch rest, n.nodes = condition :: thenBranch :: rest ∧
      condition.kind.isExpression ∧ thenBranch.kind = .block ∧
      (rest = [] ∨ ∃ clause branch, rest = [clause] ∧ clause.kind = .elseClause ∧
        clause.nodes = [branch] ∧ branch.kind = .block) := by
  obtain ⟨rule, -⟩ := hl n n.mem_preorder_self
  have here := hf n n.mem_preorder_self
  have bracketed : ∀ m ∈ n.nodes, m.kind.isStatement → m.kind = .block :=
    fun m hm hs => (here.bracketed m hm hs).2 (by simp [hk])
  have hkinds := n.nodes_outline
  rw [hk] at rule
  generalize n.outline = parts at rule hkinds
  cases rule with
  | ifStatement hc hb =>
    obtain ⟨condition, branch, hnodes, rfl, rfl⟩ := two_of_kinds hkinds
    exact ⟨condition, branch, [], hnodes, hc, bracketed branch (by simp [hnodes]) hb, .inl rfl⟩
  | ifElse hc hb =>
    obtain ⟨condition, branch, clause, hnodes, rfl, rfl, hclause⟩ := three_of_kinds hkinds
    have hm : clause ∈ n.preorder :=
      Node.mem_preorder_of_mem_nodes n.mem_preorder_self (by simp [hnodes])
    obtain ⟨rule, -⟩ := hl clause hm
    refine ⟨condition, branch, [clause], hnodes, hc, bracketed branch (by simp [hnodes]) hb,
      .inr ⟨clause, ?_⟩⟩
    have hkinds := clause.nodes_outline
    rw [hclause] at rule
    generalize clause.outline = parts at rule hkinds
    cases rule with
    | elseClause hs =>
      obtain ⟨body, hbody, rfl⟩ := one_of_kinds hkinds
      refine ⟨body, rfl, hclause, hbody, ((hf clause hm).bracketed body ?_ hs).2 ?_⟩
      · simp [hbody]
      · simp [hclause]
    | _ => simp_all
  | _ => simp_all

/-- A lawful node of the fragment is what the simulation asks for. -/
theorem IsControlFlow.fits {n : Node} (hf : ∀ m ∈ n.preorder, IsControlFlow store m)
    (hl : ∀ m ∈ n.preorder, Lawful m ∧ Staging.isSupported m.kind) : Fits store n := by
  obtain ⟨lawful, supported⟩ := hl n n.mem_preorder_self
  have here := hf n n.mem_preorder_self
  refine ⟨⟨?_, ?_, ?_⟩, here.unwrapped, ?_, ?_, ?_, ?_, ?_, ?_⟩
  · intro hk
    simp [hk, Staging.isSupported] at supported
  · intro hk
    simp [hk, Staging.isSupported] at supported
  · intro t ht hk
    simpa using lawful.2 t ht hk
  · intro hs
    have := here.control hs
    revert this
    cases n.kind <;> simp [NodeKind.isControl]
  · intro hk m hm
    have hs := lawful.1.nodes_block hk m hm
    exact ⟨hs, fun hb => (here.bracketed m hm hs).1 hb hk⟩
  · intro hk m hm hs
    exact (here.bracketed m hm hs).2 hk
  · exact IsControlFlow.conditional hf fun m hm => (hl m hm).1
  · intro hk
    obtain ⟨t, -, -, hname⟩ := lawful.1.name (.inr hk)
    obtain ⟨source, body, hnodes, -, hb⟩ := lawful.1.nodes_forEach hk
    refine ⟨here.loop hk, lawful.isOpenName (.inr hk) (here.named (.inr hk)), by simp [hname],
      source, body, hnodes, (here.bracketed body (by simp [hnodes]) hb).2 (by simp [hk])⟩
  · intro hk
    obtain ⟨e, hnodes, -⟩ := lawful.1.nodes_expressionStatement hk
    exact ⟨e, hnodes⟩

/-- A lawful template of the fragment is what the simulation asks for. -/
theorem IsControlFlow.templateFits {t : Node} (hk : t.kind = .template)
    (hf : ∀ m ∈ t.preorder, IsControlFlow store m)
    (hl : ∀ m ∈ t.preorder, Lawful m ∧ Staging.isSupported m.kind) :
    ∃ body, TemplateFits store t body := by
  obtain ⟨ps, body, hnodes, hps, hbody⟩ := (hl t t.mem_preorder_self).1.1.nodes_template hk
  have below : ∀ m ∈ t.nodes, m ∈ t.preorder :=
    fun m => Node.mem_preorder_of_mem_nodes t.mem_preorder_self
  refine ⟨body, ?_, fun m hm => ?_, fun p hp hpk => ?_⟩
  · have hfind : ps.find? (·.kind == .block) = none :=
      List.find?_eq_none.2 fun p hm => by simp [hps p hm]
    simp [Node.nodeOfKind?, hnodes, List.find?_append, hfind, hbody]
  · have hm' : m ∈ t.preorder := Node.preorder_trans (below body (by simp [hnodes])) hm
    exact IsControlFlow.fits (fun x hx => hf x (Node.preorder_trans hm' hx))
      fun x hx => hl x (Node.preorder_trans hm' hx)
  · exact (hl p (below p hp)).1.isOpenName (.inl hpk) ((hf p (below p hp)).named (.inl hpk))

/-! ## Staging is correct -/

/-- In an accepted text each template has one generator, in order, and for a template of the
fragment expanding that generator gives what running the template emits: the same tree, or the same
failure. -/
theorem expand_eq_residualize {env : Environment} {text : String} {c : Compilation}
    {cl : Classification} {s : Session} (hc : compile env text = .ok c) (hd : c.diagnostics = [])
    (hs : Session.classification.run (.start text env) = .ok (some cl, s)) :
    List.Forall₂ (fun g t => (∀ m ∈ t.preorder, IsControlFlow s.store m) →
        ∀ (target : Target) (arguments : List (String × Datum)),
          expand target arguments g.program = residualize s.store target arguments t)
      c.generators cl.tree.nodes := by
  obtain ⟨accepted, rfl⟩ := Accepted.of_compile hc hd hs
  refine accepted.forall₂_generators fun t ht hk hf target arguments => ?_
  have inside : t ∈ cl.tree.preorder :=
    Node.mem_preorder_of_mem_nodes cl.tree.mem_preorder_self ht
  obtain ⟨body, fits⟩ := IsControlFlow.templateFits hk hf
    fun m hm => accepted.lawful (Node.preorder_trans inside hm)
  exact expand_quoteTemplate fits target arguments

/-- A template that walks over the parameters of its target. -/
def walk : String :=
  "template Walk(last) \x7b foreach (var p in meta.Target.Parameters) \x7b " ++
  "if (p.Name == last) \x7b break; \x7d if (p.Index == 1) \x7b continue; \x7d " ++
  "Console.WriteLine(p.Name); \x7d Console.Write(\"done\"); \x7d"

def walked : Target :=
  ⟨"Target", .void, [⟨"a", .int⟩, ⟨"b", .int⟩, ⟨"c", .int⟩, ⟨"d", .int⟩]⟩

/-- In a method with the parameters `a` to `d` the walk to `d` leaves out `b` and stops at `d`. -/
theorem expand_walk : ∃ c cl s g t n, compile .standard walk = .ok c ∧ c.diagnostics = [] ∧
    Session.classification.run (.start walk .standard) = .ok (some cl, s) ∧
    c.generators = [g] ∧ cl.tree.nodes = [t] ∧ (∀ m ∈ t.preorder, IsControlFlow s.store m) ∧
    (∀ target arguments,
      expand target arguments g.program = residualize s.store target arguments t) ∧
    expand walked [("last", .string "d")] g.program = .ok n ∧
    residualize s.store walked [("last", .string "d")] t = .ok n ∧
    n.compact = .ok ("\x7b Console.WriteLine(\"a\"); Console.WriteLine(\"c\"); " ++
      "Console.Write(\"done\"); \x7d") := by
  have characters : walk.toList = _ :=
    toList_append (toList_append String.toList_ofList String.toList_ofList) String.toList_ofList
  obtain ⟨-, c, cl, s, -, hc, silent, hs, checked⟩ := exists_of_accepts
    (p := fun _ g c store => g.generators.length == 1 &&
      (c.tree.nodes.all fun t => t.preorder.all fun m => IsControlFlow store m) &&
      g.generators.all fun gen => expandedText? walked [("last", .string "d")] gen ==
        some ("\x7b Console.WriteLine(\"a\"); Console.WriteLine(\"c\"); " ++
          "Console.Write(\"done\"); \x7d"))
    Environment.standard_eq characters (by decide +kernel)
  simp only [Bool.and_eq_true, beq_iff_eq, List.all_eq_true, decide_eq_true_eq] at checked
  obtain ⟨⟨one, inside⟩, texts⟩ := checked
  obtain ⟨g, t, hg, hnodes, staged⟩ := exists_of_forall₂ (expand_eq_residualize hc silent hs) one
  have staged := staged (inside t (by simp [hnodes]))
  obtain ⟨n, hn, printed⟩ := exists_of_expandedText? (texts g (by simp [hg]))
  exact ⟨c, cl, s, g, t, n, hc, silent, hs, hg, hnodes, inside t (by simp [hnodes]), staged, hn,
    (staged _ _).symm.trans hn, printed⟩

end Stencil
