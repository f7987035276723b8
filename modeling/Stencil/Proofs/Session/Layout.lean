import Stencil.Proofs.Facts.Resolving
import Stencil.Proofs.Quotation.Sound
import Stencil.Proofs.Session.Hygiene
import Stencil.Proofs.Session.Termination
import Stencil.Proofs.Source.RoundTrip
import Stencil.Proofs.Tree.Printable

/-!
# Trees stay laid out

The parser, the quoter and the generators only make nodes with the children that their kinds ask
for. So the printer finds every child that it asks for, and the resolver finds expressions where it
looks for them. What generators build also has no `return` that the target cannot have.

Results:

* `Made.laid` – code of generators is laid out if what it keeps is;
* `Accepted.laid`, `Accepted.placeable` – the code of an accepted text is;
* `layout_preserved` – what is parsed, quoted or expanded is laid out;
* `returns_lowered` – the `return` statements of an expansion.
-/
namespace Stencil

open Expansion Quotation

/-! ## Generators -/

namespace Node

theorem Laid.suits {n : Node} (h : n.Laid) : n.Suits fun _ => True := laid_iff_suits.1 h

section

variable {permits : Bool → Prop}

theorem suits_methodCall {s t : String} {arguments : List Node}
    (h : ∀ q ∈ arguments, q.Suits permits ∧ q.kind.isExpression) :
    (methodCall s t arguments).Suits permits :=
  suits_invocation (suits_memberAccess (suits_identifier s) rfl t) rfl h

/-- A call of a closure without parameters. -/
theorem suits_closureCall {steps : List Node} (h : (block steps).Suits permits) :
    (closureCall steps).Suits permits := by
  have thunk : (thunk (block steps)).Suits permits :=
    suits_build (by decide) (.enough (.one rfl .nil)) (by simpa using h)
  exact suits_invocation (suits_operand rfl thunk rfl) rfl (by simp)

theorem suits_template (name : String) {parameters : List Node} {body : Node}
    (hp : ∀ p ∈ parameters, p.kind = .parameter ∧ p.Suits permits) (hk : body.kind = .block)
    (hb : body.Suits permits) : (template name parameters body).Suits permits := by
  have fills : Fills (places .template)
      (.token (.ofName name) :: ((parameters ++ [body]).map kind).map .node) := by
    rw [List.map_append, List.map_append]
    refine .one rfl (.nodes ?_ (.one (admits_kind hk) .nil))
    exact List.forall_mem_map.2 fun p hm => admits_kind (hp p hm).1
  refine suits_build (by decide) (by simpa [Function.comp_def, Child.outline] using fills) ?_
  rw [← nodes_build .template, ← template, nodes_template]
  simp only [List.forall_mem_append, List.forall_mem_singleton]
  exact ⟨fun p hm => (hp p hm).2, hb⟩

end

end Node

open Node

/-- Code of a generator is laid out if what it keeps is. -/
theorem Quotation.Made.laid {kept : Node → Prop} {word : String → Prop}
    (hkept : ∀ m, kept m → m.Laid) {r : Role} {n : Node} (h : Made kept word r n) : n.Laid := by
  have block {steps : List Node} (h : ∀ q ∈ steps, Made kept word .step q)
      (hs : ∀ q ∈ steps, q.Laid) : (Node.block steps).Suits fun _ => True :=
    suits_block fun q hq => ⟨(h q hq).kind.2 rfl, (hs q hq).suits⟩
  refine laid_iff_suits.2 ?_
  induction h with
  | value _ _ h hk => exact suits_methodCall (List.forall_mem_singleton.2 ⟨(hkept _ h).suits, hk⟩)
  | step h _ => exact (hkept _ h).suits
  | text s => exact suits_literal rfl
  | name _ => exact suits_identifier _
  | member _ _ => exact suits_memberAccess (suits_identifier _) rfl _
  | call _ _ h ih => exact suits_methodCall fun q hq => ⟨ih q hq, (h q hq).kind.1 rfl⟩
  | closure h ih => exact suits_closureCall (block h fun q hq => (ih q hq).laid)
  | declare _ h ih =>
    refine suits_localDeclaration rfl ?_
    rintro _ ⟨⟩
    exact ⟨ih, h.kind.1 rfl⟩
  | effect h ih => exact suits_operand rfl ih (h.kind.1 rfl)
  | result h ih =>
    refine suits_returnStatement trivial ?_
    rintro _ ⟨⟩
    exact ⟨ih, h.kind.1 rfl⟩
  | branch hc hk h ih =>
    exact suits_ifStatement (hkept _ hc).suits hk (block h fun q hq => (ih q hq).laid) rfl
      (by simp)
  | branches hc hk h h' ih ih' =>
    refine suits_ifStatement (hkept _ hc).suits hk (block h fun q hq => (ih q hq).laid) rfl ?_
    rintro _ ⟨⟩
    exact ⟨block h' fun q hq => (ih' q hq).laid, rfl⟩
  | loop hn _ hs hk h ih =>
    exact suits_forEachStatement false hn (hkept _ hs).suits hk
      (block h fun q hq => (ih q hq).laid) rfl

/-! ## Accepted texts -/

variable {env : Environment} {text : String} {store : FactStore} {c : Classification}

/-- The code of an accepted text is laid out. -/
theorem Accepted.laid (h : Accepted env text store c) {m : Node} (hm : m ∈ c.tree.preorder) :
    m.Laid := by
  intro x hx
  obtain ⟨read, hread, r, hr, hk, ho⟩ := h.source (preorder_trans hm hx)
  exact ((Source.isRead_parseUnit hread).1.laid r hr).of_outline hk ho

/-- The generators of an accepted text are laid out. -/
theorem Accepted.laid_program (h : Accepted env text store c) {t : Node} (ht : t ∈ c.tree.nodes) :
    (quoteTemplate store t).1.program.Laid := by
  have inside := mem_preorder_of_mem_nodes c.tree.mem_preorder_self ht
  obtain ⟨steps, hsteps, program⟩ := made_quoteTemplate h.vocabulary store inside
    (h.templates.2 t ht)
  rw [program]
  refine laid_iff_suits.2 (suits_template _ (fun p hp => ?_) rfl (suits_block fun q hq => ?_))
  · obtain ⟨hp, hk⟩ := List.mem_filter.1 hp
    exact ⟨by simpa using hk, (h.laid (mem_preorder_of_mem_nodes inside hp)).suits⟩
  · exact ⟨(hsteps q hq).kind.2 rfl, ((hsteps q hq).laid fun _ => h.laid).suits⟩

/-- The templates of an accepted text are fit for generators of suited code. -/
theorem Accepted.placeable (h : Accepted env text store c) {read : Node}
    (hread : Source.parseUnit text = .ok read) (hr : read.Avoids programGlobals) {t : Node}
    (ht : t ∈ c.tree.preorder) : Placeable t where
  toQuotable := h.quotable hread hr ht
  laid := h.laid ht
  spliced m hm := h.isExpression_of_splice (preorder_trans ht hm)
  staged m hm hs := by
    obtain ⟨-, -, s, known, allowed⟩ := h.staged (preorder_trans ht hm)
    cases known.symm.trans hs
    exact allowed

/-! ## From end to end -/

/-- A `return` without a value is just the keyword. -/
theorem Node.FitsKind.children_return {n : Node} (h : n.FitsKind) (hk : n.kind = .returnStatement)
    (hn : n.nodes = []) : n.children = [] := by
  simp only [FitsKind, hk, places, fills_optional, fills_nil] at h
  rcases h with ⟨c, _, ho, hc, -⟩ | ho
  · obtain ⟨k, rfl, -⟩ := admits_expression.1 hc
    have kinds := n.nodes_outline
    rw [hn, ho] at kinds
    cases kinds
  · exact List.map_eq_nil_iff.1 ho

/-- The tree is laid out, and so both styles of the printer have a text for it. -/
def Node.Prints (n : Node) : Prop := n.Laid ∧ ∀ style, ∃ s, n.render style = .ok s

theorem Node.Laid.prints {n : Node} (h : n.Laid) : n.Prints := ⟨h, h.renders⟩

/-- The layout of nodes is kept from end to end. Trees that were parsed are laid out, at every entry
point of the parser, and can be resolved, numbered or not. The generators of a text that compiles
without a report are laid out, and so are all their expansions if the text names no global of
generators. -/
theorem layout_preserved (env : Environment) (text : String) :
    (∀ (entry : Source.Entry) (n : Node), entry.parse text = .ok n → n.Prints ∧
      ∀ e : Environment, (∃ f, e.resolve n = .ok f) ∧
        ∀ next, ∃ f, e.resolve (n.number next).1 = .ok f) ∧
    ∀ c, compile env text = .ok c → c.diagnostics = [] → ∀ g ∈ c.generators, g.program.Prints ∧
      ∀ read, Source.parseUnit text = .ok read → read.Avoids programGlobals →
        ∀ target arguments n, expand target arguments g.program = .ok n → n.Prints := by
  refine ⟨fun entry n hn => ?_, fun c hc hd g hg => ?_⟩
  · have laid := (Source.isRead_parse entry hn).laid
    refine ⟨laid.prints, fun e => ⟨laid.resolves e, fun next => ?_⟩⟩
    exact ((recast_number next n).laid laid).resolves e
  · obtain ⟨store, cl, accepted, t, ht, rfl⟩ := exists_template hc hd hg
    refine ⟨(accepted.laid_program ht).prints, fun read hread hr target arguments n hn => ?_⟩
    have placeable := accepted.placeable hread hr
      (mem_preorder_of_mem_nodes cl.tree.mem_preorder_self ht)
    exact (suits_expand placeable (accepted.templates.2 t ht) hn).laid.prints

/-- A template that returns early, from a branch and from a loop. -/
def early : String :=
  "template Early() \x7b if (this.F) \x7b return this.G; \x7d " ++
  "foreach (var x in this.Items) return x; return; \x7d"

theorem exists_early : ∃ read c g n n', Source.parseUnit early = .ok read ∧
    compile .standard early = .ok c ∧ c.diagnostics = [] ∧ read.Avoids programGlobals ∧
    g ∈ c.generators ∧ expand ⟨"Target", .void, []⟩ [] g.program = .ok n ∧
    n.compact = .ok ("\x7b if (this.F) \x7b _ = this.G; return; \x7d " ++
      "foreach (var x in this.Items) \x7b return; \x7d return; \x7d") ∧
    expand ⟨"Target", .sequence .int, []⟩ [] g.program = .ok n' := by
  have characters : early.toList = _ := toList_append String.toList_ofList String.toList_ofList
  obtain ⟨read, c, -, -, hread, hc, hd, -, checked⟩ := exists_of_accepts
    (p := fun read c _ _ => read.Avoids programGlobals && c.generators.any fun g =>
      expandedText? ⟨"Target", .void, []⟩ [] g == some ("\x7b if (this.F) \x7b _ = this.G; return; \x7d " ++
        "foreach (var x in this.Items) \x7b return; \x7d return; \x7d") &&
      (expandedText? ⟨"Target", .sequence .int, []⟩ [] g).isSome)
    Environment.standard_eq characters (by decide +kernel)
  simp only [Bool.and_eq_true, decide_eq_true_eq, List.any_eq_true, beq_iff_eq] at checked
  obtain ⟨hr, g, hmem, text, items⟩ := checked
  obtain ⟨s, hs⟩ := Option.isSome_iff_exists.1 items
  obtain ⟨n, hn, printed⟩ := exists_of_expandedText? text
  obtain ⟨n', hn', -⟩ := exists_of_expandedText? hs
  exact ⟨read, c, g, n, n', hread, hc, hd, hr, hmem, hn, printed, hn'⟩

theorem layout_preserved_early : ∃ read c g n, Source.parseUnit early = .ok read ∧ read.Prints ∧
    compile .standard early = .ok c ∧ c.diagnostics = [] ∧ read.Avoids programGlobals ∧
    g ∈ c.generators ∧ g.program.Prints ∧
    expand ⟨"Target", .void, []⟩ [] g.program = .ok n ∧ n.Prints := by
  obtain ⟨read, c, g, n, -, hread, hc, hd, hr, hmem, hn, -⟩ := exists_early
  obtain ⟨parsed, compiled⟩ := layout_preserved .standard early
  obtain ⟨program, expanded⟩ := compiled c hc hd g hmem
  exact ⟨read, c, g, n, hread, (parsed .unit read hread).1, hc, hd, hr, hmem, program, hn,
    expanded read hread hr _ _ n hn⟩

/-- Every `return` of an expansion is one that the target may have: none with a value if the target
hands back nothing, perhaps later, and none at all if it is an iterator. -/
theorem returns_lowered {c : Compilation} (hc : compile env text = .ok c)
    (hd : c.diagnostics = []) {read : Node} (hread : Source.parseUnit text = .ok read)
    (hr : read.Avoids programGlobals) {g : Generator} (hg : g ∈ c.generators) {target : Target}
    {arguments : List (String × Datum)} {n : Node}
    (hn : expand target arguments g.program = .ok n) :
    (target.returns = .void ∨ target.returns = .awaitable .void →
      ∀ m ∈ n.preorder, m.kind = .returnStatement → m.children = []) ∧
    ((∃ item, target.returns = .sequence item ∨ target.returns = .enumerator item ∨
        target.returns = .asyncSequence item ∨ target.returns = .asyncEnumerator item) →
      ∀ m ∈ n.preorder, m.kind ≠ .returnStatement) := by
  obtain ⟨store, cl, accepted, t, ht, rfl⟩ := exists_template hc hd hg
  have placeable := accepted.placeable hread hr
    (mem_preorder_of_mem_nodes cl.tree.mem_preorder_self ht)
  have suits := suits_expand placeable (accepted.templates.2 t ht) hn
  constructor
  · intro returns m hm hk
    obtain ⟨fits, permitted⟩ := suits m hm
    have empty : m.nodes = [] := by
      have permitted := permitted hk
      rcases returns with returns | returns <;>
        simpa [Target.result, returns, ResultShape.ofType, ResultShape.Permits] using permitted
    exact fits.children_return hk empty
  · rintro ⟨item, returns⟩ m hm hk
    have permitted := (suits m hm).2 hk
    rcases returns with returns | returns | returns | returns <;>
      simp [Target.result, returns, ResultShape.ofType, ResultShape.Permits] at permitted

theorem returns_lowered_early : ∃ c read g n n', compile .standard early = .ok c ∧
    c.diagnostics = [] ∧ Source.parseUnit early = .ok read ∧ read.Avoids programGlobals ∧
    g ∈ c.generators ∧ expand ⟨"Target", .void, []⟩ [] g.program = .ok n ∧
    n.compact = .ok ("\x7b if (this.F) \x7b _ = this.G; return; \x7d " ++
      "foreach (var x in this.Items) \x7b return; \x7d return; \x7d") ∧
    (∀ m ∈ n.preorder, m.kind = .returnStatement → m.children = []) ∧
    expand ⟨"Target", .sequence .int, []⟩ [] g.program = .ok n' ∧
    ∀ m ∈ n'.preorder, m.kind ≠ .returnStatement := by
  obtain ⟨read, c, g, n, n', hread, hc, hd, hr, hmem, hn, hs, hn'⟩ := exists_early
  exact ⟨c, read, g, n, n', hc, hd, hread, hr, hmem, hn, hs,
    (returns_lowered hc hd hread hr hmem hn).1 (.inl rfl), hn',
    (returns_lowered hc hd hread hr hmem hn').2 ⟨.int, .inl rfl⟩⟩

end Stencil
