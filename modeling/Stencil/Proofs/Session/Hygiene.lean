import Stencil.Proofs.Quotation.Unshadowed
import Stencil.Proofs.Session.Evaluating

/-!
# Compiled templates are hygienic

The generators of a text that compiles without a report only make up names that are free where they
declare them, in every target and for all arguments. The text must not name the globals that
generators go through: a variable of the template that hides one of them leads the generator's own
calls astray.

Results:

* `Accepted.quotable` – the templates of an accepted text are fit to be quoted;
* `expand_unshadowed` – what their generators expand to shadows nothing.
-/
namespace Stencil

open Expansion Quotation

/-- No identifier of the tree is among the names. -/
def Node.Avoids (n : Node) (names : List String) : Prop :=
  ∀ m ∈ n.preorder, ∀ t ∈ m.tokens, t.kind = .identifier → t.text ∉ names

instance (n : Node) (names : List String) : Decidable (n.Avoids names) := by
  unfold Node.Avoids
  infer_instance

variable {env : Environment} {text : String}

theorem Accepted.quotable {store : FactStore} {c : Classification}
    (h : Accepted env text store c) {read : Node} (hread : Source.parseUnit text = .ok read)
    (hr : read.Avoids programGlobals) {t : Node} (ht : t ∈ c.tree.preorder) : Quotable t := by
  refine ⟨fun m hm => ?_, fun m hm => (h.lawful (Node.preorder_trans ht hm)).1.1⟩
  obtain ⟨⟨-, unreserved⟩, supported⟩ := h.lawful (Node.preorder_trans ht hm)
  obtain ⟨read', hread', r, hmem, -, houtline⟩ := h.source (Node.preorder_trans ht hm)
  obtain rfl : read' = read := Except.ok.inj (hread'.symm.trans hread)
  have tokens : m.tokens = r.tokens := by
    rw [Node.tokens_outline, houtline, ← Node.tokens_outline]
  refine ⟨supported, fun tok htok hk => ?_⟩
  have free := hr r hmem tok (tokens ▸ htok) hk
  simp [isOpenName, unreserved tok htok hk, free]

/-- Where the text names no global of generators, no variable of an expansion is declared twice in
a block, hides a variable in whose scope it stands, or has the name of a parameter of the target. -/
theorem expand_unshadowed {c : Compilation} (hc : compile env text = .ok c)
    (hd : c.diagnostics = []) {read : Node} (hread : Source.parseUnit text = .ok read)
    (hr : read.Avoids programGlobals) {g : Generator} (hg : g ∈ c.generators) {target : Target}
    {arguments : List (String × Datum)} {n : Node}
    (hn : expand target arguments g.program = .ok n) :
    n.Unshadowed ∧ ∀ x ∈ n.variableNames, x ∉ target.parameters.map TargetParameter.name := by
  obtain ⟨store, cl, accepted, rfl⟩ := exists_accepted hc hd
  obtain ⟨hunit, htemplates⟩ := accepted.templates
  have found : g ∈ (cl.tree.nodes.filter (·.kind == .template)).map fun t =>
      (quoteTemplate store t).1 := by
    simpa [quoteTemplates, hunit] using hg
  obtain ⟨t, ht, rfl⟩ := List.mem_map.1 found
  have inside := (List.mem_filter.1 ht).1
  have quotable := accepted.quotable hread hr
    (Node.mem_preorder_of_mem_nodes cl.tree.mem_preorder_self inside)
  exact unshadowed_expand quotable (htemplates t inside) hn

/-- A template whose variables all ask for a name that the target has taken. -/
def crowded : String :=
  "template Crowded() \x7b var x = this.F; " ++
  "foreach (var x in this.Items) \x7b var x = this.G; \x7d return x; \x7d"

def crowdedTarget : Target := ⟨"Target", .void, [⟨"x", .int⟩]⟩

theorem expand_unshadowed_crowded : ∃ c read g n, compile .standard crowded = .ok c ∧
    c.diagnostics = [] ∧ Source.parseUnit crowded = .ok read ∧ read.Avoids programGlobals ∧
    g ∈ c.generators ∧ expand crowdedTarget [] g.program = .ok n ∧
    n.variableNames = ["x_1", "x_2", "x_3"] ∧ n.Unshadowed ∧
    ∀ x ∈ n.variableNames, x ∉ crowdedTarget.parameters.map TargetParameter.name := by
  have characters : crowded.toList = _ := toList_append String.toList_ofList String.toList_ofList
  obtain ⟨read, c, -, -, hread, hc, hd, -, checked⟩ := exists_of_accepts
    (p := fun read c _ _ => read.Avoids programGlobals && c.generators.any fun g =>
      (expand crowdedTarget [] g.program).toOption.map Node.variableNames ==
        some ["x_1", "x_2", "x_3"])
    Environment.standard_eq characters (by decide +kernel)
  simp only [Bool.and_eq_true, decide_eq_true_eq, List.any_eq_true, beq_iff_eq] at checked
  obtain ⟨hr, g, hmem, hn⟩ := checked
  obtain ⟨n, hn, names⟩ := Option.map_eq_some_iff.1 hn
  have expanded := eq_ok_of_toOption hn
  exact ⟨c, read, g, n, hc, hd, hread, hr, hmem, expanded, names,
    expand_unshadowed hc hd hread hr hmem expanded⟩

end Stencil
