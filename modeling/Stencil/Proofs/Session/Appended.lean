import Stencil.Proofs.Session.Faithful
import Stencil.Proofs.Session.WrappedCalls
import Stencil.Proofs.Source.Extension
import Stencil.Proofs.Source.Precedence
import Stencil.Proofs.Staging.Continued

/-!
# Texts that go on

A text may go on after a line break with further templates. All templates of a text share one
numbering, one scope for their names, one classifier and one list of sites. None of these carries
anything from the further templates back to the earlier ones: they are read, resolved, classified
and quoted as before.

Results:

* `Accepted.goesOn` – what the stages make of a text and of one that goes on;
* `quoteTemplate_congr` – quoting asks only what is known of the nodes of the template;
* `generators_prefix_append` – the generators of a text that goes on begin with those it had.
-/
namespace Stencil

open Quotation Source Staging

variable {env : Environment} {text a b : String} {store store' : FactStore}
  {c c' : Classification}

/-- The generator of a template depends on what is known of the nodes of the template. -/
theorem quoteTemplate_congr {t : Node} (h : GivesOnce store t (quoteTemplate store t).1.program)
    (same : ∀ m ∈ t.preorder, store'.lookup m = store.lookup m) :
    (quoteTemplate store' t).1 = (quoteTemplate store t).1 := by
  have form (m : Node) (hm : m ∈ t.preorder) : wrappedForm? store' m = wrappedForm? store m := by
    rw [wrappedForm?, wrappedForm?, FactStore.symbol?, FactStore.symbol?, same m hm]
  have calls : wrappedCalls store' t = wrappedCalls store t :=
    List.filter_congr fun m hm => by rw [form m hm]
  have provides : provided? store' t = provided? store t := by
    unfold provided?
    rw [calls]
    refine Option.bind_congr fun call hcall => ?_
    rw [form call (mem_preorder_of_mem_wrappedCalls (List.mem_of_mem_head? hcall))]
  have statements (body : Node) (hb : t.nodeOfKind? .block = some body) :
      hostStatements store' (provided? store' t) body =
        hostStatements store (provided? store t) body := by
    rw [provides]
    exact h.unread store' (fun m hm _ => same m hm) body hb
  unfold quoteTemplate
  cases hb : t.nodeOfKind? .block with
  | none => rfl
  | some body =>
    simp only [statements body hb]
    rfl

/-- Trees that begin alike, with the same facts about what they share, give generators that begin
alike. -/
theorem quoteTemplates_prefix (h : Accepted env a store c) (h' : Accepted env b store' c')
    (silent : (quoteTemplates store c.tree).diagnostics = [])
    (shared : c.tree.children <+: c'.tree.children)
    (same : ∀ m ∈ Node.preorderAll c.tree.children, store'.lookup m = store.lookup m) :
    (quoteTemplates store c.tree).generators <+: (quoteTemplates store' c'.tree).generators := by
  have generators {env : Environment} {text : String} {store : FactStore} {c : Classification}
      (h : Accepted env text store c) : (quoteTemplates store c.tree).generators =
        c.tree.nodes.map fun t => (quoteTemplate store t).1 := by
    obtain ⟨hk, templates⟩ := h.templates
    have all : c.tree.nodes.filter (·.kind == .template) = c.tree.nodes :=
      List.filter_eq_self.2 fun t ht => by simp [templates t ht]
    simp [quoteTemplates, hk, all]
  obtain ⟨more, hmore⟩ := shared
  have nodes : c'.tree.nodes = c.tree.nodes ++ more.filterMap Child.node? := by
    rw [Node.nodes, ← hmore, List.filterMap_append]
    rfl
  have first : c.tree.nodes.map (fun t => (quoteTemplate store' t).1) =
      c.tree.nodes.map fun t => (quoteTemplate store t).1 := by
    refine List.map_congr_left fun t ht => ?_
    refine quoteTemplate_congr (h.givesOnce silent ht) fun m hm => ?_
    exact same m ((Node.mem_preorderAll _).2 ⟨t, Node.mem_nodes.1 ht, hm⟩)
  rw [generators h, generators h', nodes, List.map_append, first]
  exact List.prefix_append _ _

/-- The nodes of a file keep their numbers when it goes on. -/
theorem exists_number (ns more : List Node) (span span' : Span) : ∃ k k' cs ds,
    ((⟨0, .compilationUnit, span, [], Grammar.asNodes ns⟩ : Node).number 0).1 =
      ⟨k, .compilationUnit, span, [], cs⟩ ∧
    ((⟨0, .compilationUnit, span', [], Grammar.asNodes (ns ++ more)⟩ : Node).number 0).1 =
      ⟨k', .compilationUnit, span', [], cs ++ ds⟩ := by
  have asNodes : Grammar.asNodes (ns ++ more) = Grammar.asNodes ns ++ Grammar.asNodes more :=
    List.map_append
  rw [Node.number, Node.number, asNodes, Node.numberAll_append]
  exact ⟨_, _, _, _, rfl, rfl⟩

/-- The nodes of a text that was read, once they are numbered. -/
theorem numbered_of_read {read m : Node} (hread : parseUnit text = .ok read)
    (hm : m ∈ (read.number 0).1.preorder) : m.factKey? = none ∧ Rule m.kind m.outline := by
  obtain ⟨r, hr, hk, ho, hmarks⟩ := (recast_number 0 read).source hm
  obtain ⟨bare, rule, -⟩ := (isRead_parseUnit hread).1 r hr
  rw [hk, ho]
  exact ⟨by simp [Node.factKey?, hmarks, bare], rule⟩

/-- The file that a text goes on to has the templates it had, and those keep their numbers and
facts. -/
theorem Accepted.goesOn (h : Accepted env a store c)
    (h' : Accepted env (a ++ "\n" ++ b) store' c') :
    ∃ n n' ds, GoesOn n n' ds store store' ∧ classify store env n = .ok c ∧
      classify store' env n' = .ok c' := by
  obtain ⟨read, annotated, hread, hcheck, hlearn, hstage⟩ := h.stages
  obtain ⟨read', annotated', hread', hcheck', hlearn', hstage'⟩ := h'.stages
  obtain ⟨-, lawful⟩ := lawful_of_learn hread hcheck hlearn
  obtain ⟨-, lawful'⟩ := lawful_of_learn hread' hcheck' hlearn'
  have numbered := (pristine_of_learn hread 0 hlearn).numbered
  have numbered' := (pristine_of_learn hread' 0 hlearn').numbered
  have nodes := fun m => numbered_of_read (m := m) hread'
  have names (m : Node) (hm : m ∈ Node.preorderAll (read'.number 0).1.children) (name : String)
      (hn : m.name? = some name) : '.' ∉ name.toList :=
    dotFree_parseUnit hread' 0 (by rw [Node.preorder_eq]; exact List.mem_cons_of_mem _ hm) hn
  have distinct := (nodup_number 0 read').2.1
  obtain ⟨ns, more, span, span', rfl, rfl⟩ := parseUnit_line hread hread'
  obtain ⟨k, k', cs, ds, number, number'⟩ := exists_number ns more span span'
  rw [number] at hlearn
  rw [number'] at hlearn' nodes names distinct
  have inside {m : Node} (hm : m ∈ Node.preorderAll (cs ++ ds)) :
      m ∈ (⟨k', .compilationUnit, span', [], cs ++ ds⟩ : Node).preorder := by
    rw [Node.preorder]
    exact List.mem_cons_of_mem _ hm
  have templates := (nodes _ (Node.mem_preorder_self _)).2.nodes_compilationUnit rfl
  have apart (m : Node) (hm : m ∈ Node.preorderAll cs) (w : Node) (hw : w ∈ Node.preorderAll ds) :
      m.id ≠ w.id := by
    rw [Node.preorder, Node.preorderAll_append, List.map_cons, List.map_append, List.nodup_cons,
      List.nodup_append] at distinct
    exact distinct.2.2.2 _ (List.mem_map_of_mem hm) _ (List.mem_map_of_mem hw)
  obtain ⟨cs', ds', marks, marks', rfl, rfl, learned⟩ := learn_append
    (fun t ht => templates t (Node.mem_nodes.2 ht)) (fun m hm => (nodes m (inside hm)).1) names
    apart hlearn hlearn'
  exact ⟨_, _, ds', ⟨rfl, rfl, numbered, numbered', rfl, learned,
    (lawful _ (Node.mem_preorder_self _)).1, fun m hm => ⟨(lawful' m hm).1, (lawful' m hm).2.1⟩⟩,
    hstage, hstage'⟩

/-- Templates that are added to a text leave what it came to as it was: the generators of the longer
text begin with those of the first one, the same programs under the same names. -/
theorem generators_prefix_append {env : Environment} {a b : String}
    {g g' : Compilation} (hg : compile env a = .ok g) (hd : g.diagnostics = [])
    (hg' : compile env (a ++ "\n" ++ b) = .ok g') (hd' : g'.diagnostics = []) :
    g.generators <+: g'.generators := by
  obtain ⟨store, c, accepted, rfl⟩ := exists_accepted hg hd
  obtain ⟨store', c', accepted', rfl⟩ := exists_accepted hg' hd'
  obtain ⟨n, n', ds, goesOn, hc, hc'⟩ := accepted.goesOn accepted'
  exact quoteTemplates_prefix accepted accepted' hd (goesOn.classified hc hc' accepted'.silent)
    fun m hm => goesOn.lookup_eq hc hm

/-- A template with a local whose stage is looked ahead for. -/
def listing : String :=
  "template Listing() \x7b var count; foreach (var p in meta.Target.Parameters) \x7b " ++
  "count = p.Name; log(count); \x7d return this.F; \x7d"

/-- A template that declares the same local once more. -/
def counting : String :=
  "template Counting() \x7b var count; count = 2; log(count); return meta.Proceed(); \x7d"

theorem generators_prefix_append_counting : ∃ g g', compile .standard listing = .ok g ∧
    g.diagnostics = [] ∧ compile .standard (listing ++ "\n" ++ counting) = .ok g' ∧
    g'.diagnostics = [] ∧
    g'.generators.map Generator.name = ["Listing_Generator", "Counting_Generator"] ∧
    g.generators <+: g'.generators := by
  have first : listing.toList = _ := toList_append String.toList_ofList String.toList_ofList
  have both := toList_append (toList_append first (String.toList_ofList (l := ['\n'])))
    (show counting.toList = _ from String.toList_ofList)
  obtain ⟨-, g, -, -, -, hg, hd, -⟩ := exists_of_accepts (p := fun _ _ _ _ => true)
    Environment.standard_eq first (by decide +kernel)
  obtain ⟨-, g', -, -, -, hg', hd', -, names⟩ := exists_of_accepts (p := fun _ g _ _ =>
      g.generators.map Generator.name == ["Listing_Generator", "Counting_Generator"])
    Environment.standard_eq both (by decide +kernel)
  exact ⟨g, g', hg, hd, hg', hd', by simpa using names,
    generators_prefix_append hg hd hg' hd'⟩

end Stencil
