import Stencil.Proofs.Quotation.Running
import Stencil.Proofs.Session.Evaluating

/-!
# Compiled generators terminate

The generators of a text that compiles without a report are straight: their loops go over the items
that a list has when the loop starts, and their closures are called where they are made. So their
runs never nest deeper than their trees are high.

Results:

* `Straight.takesItems` – the loops of straight code;
* `Accepted.straight` – the code of an accepted text is straight, and
* `Accepted.runsStraight` – its generators are, too;
* `expansion_terminates` – what their runs come to.
-/
namespace Stencil

open Expansion Quotation

namespace NodeKind

/-- Code of this kind runs parts of itself again. -/
def isLoop : NodeKind → Bool
  | whileStatement | doStatement | forStatement | forEachStatement | query => true
  | _ => false

end NodeKind

/-- The loop evaluates its source once, takes the items that are there, and gives each at most one
turn. What its turns do to the source is not asked for again. -/
def TakesItems (n : Node) : Prop :=
  n.kind = .forEachStatement ∧ ∃ source body, n.nodes = [source, body] ∧
    ∀ own b env, n.hasAwait = false → exec own (b + 1) env n =
      eval own b env source >>= fun v => itemsOf v >>= fun items => forEachItem (fun item =>
        nestedIn env >>= fun inner => define inner n.nameOrEmpty item >>= fun _ =>
          exec own b inner body) items

theorem takesItems_of_rule {n : Node} (supported : Staging.isSupported n.kind)
    (rule : Rule n.kind n.outline) (hl : n.kind.isLoop) : TakesItems n := by
  have kind : n.kind = .forEachStatement := by
    revert supported hl
    cases n.kind <;> simp [Staging.isSupported, NodeKind.isLoop]
  obtain ⟨source, body, nodes, -, -⟩ := rule.nodes_forEach kind
  refine ⟨kind, source, body, nodes, fun own b env h => ?_⟩
  rw [exec, kind]
  simp only [h, Bool.false_eq_true, if_false, childOf, Node.node?, nodes, List.getElem?_cons_zero,
    List.getElem?_cons_succ, pure_bind]

/-- The loops of straight code go over items. -/
theorem Expansion.Straight.takesItems {fence : Bool} {n m : Node} (h : Straight fence n)
    (hm : m ∈ n.preorder) (hl : m.kind.isLoop) : TakesItems m := by
  have only {x y : Node} (hx : x.kind.isLoop = false) (nodes : x.nodes = [y])
      (hm : m ∈ x.preorder) : m ∈ y.preorder := by
    rcases Node.mem_preorder.1 hm with rfl | ⟨c, hc, hm⟩
    · rw [hx] at hl
      cases hl
    · rw [nodes] at hc
      cases List.mem_singleton.1 hc
      exact hm
  induction h with
  | @plain n supported rule _ _ ih =>
    rcases Node.mem_preorder.1 hm with rfl | ⟨c, hc, hm⟩
    · exact takesItems_of_rule supported rule hl
    · exact ih c hc hm
  | called kind nodes calleeKind calleeNodes madeKind madeNodes _ _ ih =>
    exact ih (only (by rw [madeKind]; rfl) madeNodes
      (only (by rw [calleeKind]; rfl) calleeNodes (only (by rw [kind]; rfl) nodes hm)))

/-! ## Accepted texts -/

variable {env : Environment} {text : String} {store : FactStore} {c : Classification}

/-- The code of an accepted text is straight; with `fence`, if nothing that is printed in parentheses
is counted up or down. -/
theorem Accepted.straight {fence : Bool} (h : Accepted env text store c)
    (stepped : ∀ m ∈ c.tree.preorder, fence = true → m.kind = .step →
      ∀ x ∈ m.nodes, x.kind.fencedOperand = false) {m : Node} (hm : m ∈ c.tree.preorder) :
    Straight fence m := by
  have ⟨⟨rule, _⟩, supported⟩ := h.lawful hm
  exact .plain supported rule (stepped m hm) fun x hx =>
    h.straight stepped (Node.mem_preorder_of_mem_nodes hm hx)
termination_by m.size
decreasing_by exact Node.size_lt_of_mem hx

/-- What may stand in the generators of an accepted text, and under which names, is not
restricted. -/
theorem Accepted.vocabulary (h : Accepted env text store c) :
    Vocabulary (· ∈ c.tree.preorder) fun _ => True where
  rule _ hn := (h.lawful hn).1.1
  child _ _ hn hm := Node.mem_preorder_of_mem_nodes hn hm
  spliced _ hn hs := h.isExpression_of_splice hn hs
  host _ _ := trivial
  accumulator _ := trivial
  holder _ _ _ := trivial
  loop _ _ _ _ := trivial

/-- The generators of a text whose code is straight run straight on, and their loops go over
items. -/
theorem Accepted.runsStraight {fence : Bool} (h : Accepted env text store c)
    (straight : ∀ m ∈ c.tree.preorder, Straight fence m) {t : Node} (ht : t ∈ c.tree.nodes) :
    RunsStraight fence (quoteTemplate store t).1.program ∧
      ∀ m ∈ (quoteTemplate store t).1.program.preorder, m.kind.isLoop → TakesItems m := by
  have inside := Node.mem_preorder_of_mem_nodes c.tree.mem_preorder_self ht
  obtain ⟨steps, hsteps, program⟩ := made_quoteTemplate h.vocabulary store inside
    (h.templates.2 t ht)
  have parameters : ∀ p ∈ t.nodes.filter (·.kind == .parameter), p.kind = .parameter := by simp
  have body : Straight fence (.block steps) :=
    straight_block (fun q hq => (hsteps q hq).kind.2 rfl)
      fun q hq => (hsteps q hq).straight straight
  obtain ⟨-, block⟩ := parts_template (t.nameOrEmpty ++ generatorEnding) steps parameters
  rw [program]
  refine ⟨⟨rfl, fun b hb => ?_⟩, fun m hm hl => ?_⟩
  · cases block.symm.trans hb
    exact body
  · rcases Node.mem_preorder.1 hm with rfl | ⟨n, hn, hm⟩
    · cases hl
    · rw [nodes_template, List.mem_append, List.mem_singleton] at hn
      rcases hn with hn | rfl
      · have kept := Node.mem_preorder_of_mem_nodes inside (List.mem_filter.1 hn).1
        exact (straight n kept).takesItems hm hl
      · exact body.takesItems hm hl

/-- The generators of a compilation come from the templates of the text. -/
theorem exists_template {g : Compilation} (hg : compile env text = .ok g) (hd : g.diagnostics = [])
    {gen : Generator} (hgen : gen ∈ g.generators) :
    ∃ store c, Accepted env text store c ∧
      ∃ t ∈ c.tree.nodes, gen = (quoteTemplate store t).1 := by
  obtain ⟨store, c, accepted, rfl⟩ := exists_accepted hg hd
  have found : gen ∈ (c.tree.nodes.filter (·.kind == .template)).map fun t =>
      (quoteTemplate store t).1 := by
    simpa [quoteTemplates, accepted.templates.1] using hgen
  obtain ⟨t, ht, rfl⟩ := List.mem_map.1 found
  exact ⟨store, c, accepted, t, (List.mem_filter.1 ht).1, rfl⟩

/-! ## Termination -/

/-- Every loop of a compiled generator goes over the items that its source has when it starts. With
a budget of its height or more, however little more, a run ends as `expand` does: with a tree or
with an error, and with the budget used up only where a list contains itself. An error may also be
the defect of a tree that the printer cannot print; a template that builds trees of its own by
naming `Syntax` can come to one. -/
theorem expansion_terminates {g : Compilation} (hg : compile env text = .ok g)
    (hd : g.diagnostics = []) {gen : Generator} (hgen : gen ∈ g.generators) :
    (∀ m ∈ gen.program.preorder, m.kind.isLoop → TakesItems m) ∧
      ∀ target arguments b, gen.program.height ≤ b →
        (∃ n m, expansion target arguments b gen.program = .ok n m ∧
          expand target arguments gen.program = .ok n) ∨
        ∃ e m, expansion target arguments b gen.program = .error e m ∧
          expand target arguments gen.program = .error e ∧ (e = .exhausted → Knotted m.lists) := by
  obtain ⟨store, c, accepted, t, ht, rfl⟩ := exists_template hg hd hgen
  have code : ∀ m ∈ c.tree.preorder, Straight false m := fun _ hm =>
    accepted.straight (fun _ _ h => Bool.noConfusion h) hm
  obtain ⟨straight, loops⟩ := accepted.runsStraight code ht
  refine ⟨loops, fun target arguments b hb => ?_⟩
  have enough := expansion_eq straight (.refl _) target arguments
    hb (Nat.le_trans (Node.height_le_size _) (Nat.le_add_left _ budget))
  rw [expand_eq, budgetFor, enough]
  cases hrun : expansion target arguments b (quoteTemplate store t).1.program with
  | ok n m => exact .inl ⟨n, m, rfl, rfl⟩
  | error e m =>
    refine .inr ⟨e, m, rfl, rfl, ?_⟩
    rintro rfl
    exact knotted_of_exhausted straight (.refl _) target arguments hb hrun

/-- A template with a loop that adds to the list it goes over. -/
def growing : String :=
  "template Growing() \x7b var xs = [1, 2]; foreach (var x in xs) \x7b xs.Add(x); \x7d " ++
  "return xs.Count; \x7d"

def growingTarget : Target := ⟨"Target", .int, []⟩

theorem expansion_terminates_growing : ∃ g gen n m, compile .standard growing = .ok g ∧
    g.diagnostics = [] ∧ gen ∈ g.generators ∧
    expansion growingTarget [] gen.program.height gen.program = .ok n m ∧
    n.compact = .ok "\x7b return 4; \x7d" ∧ expand growingTarget [] gen.program = .ok n := by
  have characters : growing.toList = _ := toList_append String.toList_ofList String.toList_ofList
  obtain ⟨-, g, c, s, -, hg, hd, -, hany⟩ := exists_of_accepts
    (p := fun _ g _ _ => g.generators.any fun gen =>
      expandedText? growingTarget [] gen == some "\x7b return 4; \x7d")
    Environment.standard_eq characters (by decide +kernel)
  obtain ⟨gen, hgen, text⟩ := List.any_eq_true.1 hany
  obtain ⟨n, hn, printed⟩ := exists_of_expandedText? (beq_iff_eq.1 text)
  obtain ⟨n', m, hrun, hn'⟩ | ⟨e, m, -, stopped, -⟩ :=
    (expansion_terminates hg hd hgen).2 growingTarget [] _ (Nat.le_refl _)
  · cases hn.symm.trans hn'
    exact ⟨g, gen, n, m, hg, hd, hgen, hrun, printed, hn⟩
  · cases hn.symm.trans stopped

end Stencil
