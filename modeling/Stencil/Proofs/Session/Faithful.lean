import Stencil.Proofs.Quotation.Spelled
import Stencil.Proofs.Session.Termination

/-!
# Generators as text

What a generator keeps of its template was read from the text of the template, and what the quoter
puts around it is read back as it was made. So the text of a generator holds the generator itself, up
to parentheses that its layout writes, and these change nothing when it is expanded.

Results:

* `Accepted.portable` – the code of an accepted text may be taken out of it;
* `Accepted.namedVocabulary` – generators of an accepted text use names only;
* `generator_text` – what the text of a compiled generator parses to, and expands to.
-/
namespace Stencil

open Expansion Quotation Source

variable {env : Environment} {text : String} {store : FactStore} {c : Classification}

/-- An accepted tree is the tree that was read, up to numbers, places and marks. -/
theorem Accepted.bare (h : Accepted env text store c) :
    ∃ read, parseUnit text = .ok read ∧ c.tree.bare = read.bare := by
  obtain ⟨read, annotated, hread, hcheck, hlearn, hstage⟩ := h.stages
  obtain ⟨-, nodes⟩ := lawful_of_learn hread hcheck hlearn
  obtain ⟨st, -, htree⟩ := Staging.runs_of_classify
    (fun m hm => ⟨(nodes m hm).1, (nodes m hm).2.1⟩) hstage h.silent
  obtain ⟨resolve, rfl⟩ := annotated_of_learn hlearn
  refine ⟨read, hread, ?_⟩
  rw [htree, (recast_stamp st .either _).bare, (recast_annotate resolve .empty _).bare,
    (recast_number 0 read).bare]

/-- The nodes of the templates of an accepted text may be taken out of it. -/
theorem Accepted.portable (h : Accepted env text store c) {t m : Node} (ht : t ∈ c.tree.nodes)
    (hm : m ∈ t.preorder) : Portable m.bare := by
  obtain ⟨read, hread, same⟩ := h.bare
  have isRead := (isRead_parseUnit hread).1
  -- the template was read, and all of its constructs have a staged meaning
  have nodes : c.tree.nodes.map Node.bare = read.nodes.map Node.bare := by
    rw [← Node.through_bare, ← Node.through_bare, same]
  obtain ⟨r, hr, hbare⟩ := List.mem_map.1 (nodes ▸ List.mem_map_of_mem ht)
  have covered : Staging.Covered r := by
    intro x hx
    obtain ⟨y, hy, hyx⟩ := exists_of_bare hbare hx
    rw [← Node.keeps_bare.kind x, ← hyx, Node.keeps_bare.kind y]
    exact (h.lawful (Node.preorder_subset ht hy)).2
  obtain ⟨x, hx, hxm⟩ := exists_of_bare hbare.symm hm
  rw [← hxm]
  exact (movable_parseUnit hread r hr covered x hx).bare
    fun y hy => isRead y (Node.preorder_subset hr (Node.preorder_trans hx hy))

theorem Accepted.nameOrEmpty (h : Accepted env text store c) {t m : Node} (ht : t ∈ c.tree.nodes)
    (hm : m ∈ t.preorder) : m.nameOrEmpty = "" ∨ IsName m.nameOrEmpty := by
  rw [Node.nameOrEmpty, Node.name?]
  cases hn : m.tokenOfKind? .identifier with
  | none => exact .inl rfl
  | some n => exact .inr ((h.portable ht hm).isName (List.mem_of_find?_eq_some hn)
      (by simpa using List.find?_some hn))

/-- What is counted up or down in an accepted text is printed bare. -/
theorem Accepted.stepped (h : Accepted env text store c) {m : Node} (hm : m ∈ c.tree.preorder)
    (hk : m.kind = .step) {x : Node} (hx : x ∈ m.nodes) : x.kind.fencedOperand = false := by
  rcases Node.mem_preorder.1 hm with rfl | ⟨t, ht, hm⟩
  · rw [h.templates.1] at hk
    cases hk
  · rw [← Node.keeps_bare.kind x]
    refine (h.portable ht hm).stepped ((Node.keeps_bare.kind m).trans hk) _ ?_
    rw [Node.through_bare m]
    exact List.mem_map_of_mem hx

/-- What may stand in a generator of an accepted text, and what it may be called. -/
theorem Accepted.namedVocabulary (h : Accepted env text store c) {t : Node}
    (ht : t ∈ c.tree.nodes) : Vocabulary (· ∈ t.preorder) IsName where
  rule _ hn := (h.lawful (Node.preorder_subset ht hn)).1.1
  child _ _ hn hm := Node.mem_preorder_of_mem_nodes hn hm
  spliced _ hn hs := h.isExpression_of_splice (Node.preorder_subset ht hn) hs
  host _ hs := isName_of_mem_hostNames hs
  accumulator k := isName_accumulatorName k
  holder _ hn k := isName_holderName (h.nameOrEmpty ht hn) k
  loop _ _ hn hl := (h.portable ht hn).isName (List.mem_of_find?_eq_some hl)
    (by simpa using List.find?_some hl)

/-! ## Their generators -/

/-- The text of a generator of an accepted text holds the generator alone. -/
theorem Accepted.program_text (h : Accepted env text store c) {t : Node} (ht : t ∈ c.tree.nodes)
    (style : Style) : ∃ s unit p, (quoteTemplate store t).1.program.render style = .ok s ∧
      parseUnit s = .ok unit ∧ unit.nodes = [p] ∧
      Alike (quoteTemplate store t).1.program.bare p := by
  obtain ⟨steps, hsteps, program⟩ := made_quoteTemplate (h.namedVocabulary ht) store
    t.mem_preorder_self (h.templates.2 t ht)
  have kind : t.bare.kind = .template := (Node.keeps_bare.kind t).trans (h.templates.2 t ht)
  obtain ⟨wss, parameters⟩ := (h.portable ht t.mem_preorder_self).parameters kind
  obtain ⟨ws, body⟩ := exists_body fun q hq =>
    (hsteps q hq).reads (fun m hm => h.portable ht hm) fun _ hs => hs
  rw [program]
  exact parseUnit_program (isName_generatorName (h.nameOrEmpty ht t.mem_preorder_self))
    (parameters_bare t ▸ parameters) body style

/-- The text of a compiled generator, in either style, is a unit with one template. That template is
the generator up to numbers, places, marks and parentheses, and it expands to the same code or stops
with the same error, whatever it is expanded for. -/
theorem generator_text {g : Compilation} (hg : compile env text = .ok g) (hd : g.diagnostics = [])
    {gen : Generator} (hgen : gen ∈ g.generators) (style : Style) :
    ∃ s unit p, gen.program.render style = .ok s ∧ parseUnit s = .ok unit ∧
      unit.kind = .compilationUnit ∧ unit.nodes = [p] ∧ p.kind = .template ∧
      p.bare.erased = gen.program.bare.erased ∧
      ∀ target arguments, expand target arguments p = expand target arguments gen.program := by
  obtain ⟨store, c, accepted, t, ht, rfl⟩ := exists_template hg hd hgen
  obtain ⟨s, unit, p, hs, hunit, hp, halike⟩ := accepted.program_text ht style
  obtain ⟨isRead, kind⟩ := isRead_parseUnit hunit
  have unmarked : ∀ m ∈ p.preorder, m.marks = [] := fun m hm =>
    (isRead m (Node.preorder_subset (hp ▸ List.mem_singleton_self p) hm)).1
  have code : ∀ m ∈ c.tree.preorder, Straight true m := fun _ hm =>
    accepted.straight (fun _ hm _ hk _ hx => accepted.stepped hm hk hx) hm
  obtain ⟨straight, -⟩ := accepted.runsStraight code ht
  have again : Respells true (quoteTemplate store t).1.program p := by
    rw [Respells, Node.tidy_bare_of_unmarked false p unmarked]
    exact halike
  refine ⟨s, unit, p, hs, hunit, kind, hp, again.kind.trans straight.kind, ?_,
    fun target arguments => expand_respelled straight again target arguments⟩
  rw [← Node.erased_tidy false p.bare, again, Node.erased_tidy]

/-- A template whose generator gathers the turns of a loop in a closure, and calls it in place. -/
def folded : String :=
  "template Folded() \x7b var xs = [1, 2]; " ++
  "if (this.F) foreach (var x in xs) \x7b this.Add(x); \x7d return (this.F + 1) * 2; \x7d"

theorem generator_text_folded : ∃ g gen s unit p n, compile .standard folded = .ok g ∧
    g.diagnostics = [] ∧ gen ∈ g.generators ∧ gen.program.pretty = .ok s ∧
    parseUnit s = .ok unit ∧ unit.nodes = [p] ∧ p.bare.erased = gen.program.bare.erased ∧
    expand growingTarget [] p = .ok n ∧ n.compact =
      .ok "\x7b if (this.F) \x7b this.Add(1); this.Add(2); \x7d return (int)((this.F + 1) * 2); \x7d" := by
  have characters : folded.toList = _ := toList_append String.toList_ofList String.toList_ofList
  obtain ⟨-, g, c, s, -, hg, hd, -, hany⟩ := exists_of_accepts
    (p := fun _ g _ _ => g.generators.any fun gen => expandedText? growingTarget [] gen == some
      "\x7b if (this.F) \x7b this.Add(1); this.Add(2); \x7d return (int)((this.F + 1) * 2); \x7d")
    Environment.standard_eq characters (by decide +kernel)
  obtain ⟨gen, hgen, text⟩ := List.any_eq_true.1 hany
  obtain ⟨s, unit, p, hs, hunit, -, hp, -, same, expanded⟩ := generator_text hg hd hgen .pretty
  obtain ⟨n, hn, printed⟩ := exists_of_expandedText? (beq_iff_eq.1 text)
  exact ⟨g, gen, s, unit, p, n, hg, hd, hgen, hs, hunit, hp, same,
    (expanded growingTarget []).trans hn, printed⟩

end Stencil
