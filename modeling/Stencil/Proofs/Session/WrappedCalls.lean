import Stencil.Proofs.Quotation.Provided
import Stencil.Proofs.Session.Evaluating
import Stencil.Proofs.Staging.Unsupported

/-!
# The wrapped calls of a text

A template may ask once for the call that it wraps. What is reported about the others is the same
for all texts that were read; where nothing is reported, generators give the wrapped call exactly as
often as their templates ask for it.

Results:

* `Accepted.orderly` – the templates of a text that compiles;
* `wrapped_calls_given_once` – reports about wrapped calls, and calls of generators.
-/
namespace Stencil

open Quotation Staging

variable {env : Environment} {text : String} {store : FactStore} {c : Classification}

/-- Where nothing is reported every construct has a staged meaning. -/
theorem Pristine.meaningful {n : Node} (h : Pristine n) (hc : classify store env n = .ok c)
    (silent : c.diagnostics = []) : Meaningful n := by
  obtain ⟨told, refused, tells⟩ := h.tells hc
  refine ⟨h, fun m hm => ?_⟩
  by_contra hne
  have none : told = [] := by simpa [silent] using tells.reports.symm
  have allowed : refused = [] := by simpa [silent] using tells.refusals.symm
  rcases tells.complete m hm hne with hm | ⟨y, hy, -⟩
  · simp [none] at hm
  · simp [allowed] at hy

theorem wrappedForm?_stamped {st : Staging.State} {m m' : Node} (h : Stamped st m m') :
    wrappedForm? store m' = wrappedForm? store m := by
  rw [wrappedForm?, wrappedForm?, h.kind, h.symbol?]

/-- Where no misuse is reported the template asks once at most, where the call can be provided. -/
theorem wrappedCalls_of_misuses {t : Node} (h : misuses store t = []) :
    wrappedCalls store t = [] ∨ ∃ call, wrappedCalls store t = [call] ∧ isProvidable t call := by
  unfold misuses at h
  cases hw : wrappedCalls store t with
  | nil => exact .inl rfl
  | cons call rest =>
    rw [hw] at h
    obtain ⟨first, others⟩ := List.append_eq_nil_iff.1 h
    rw [List.map_eq_nil_iff.1 others]
    refine .inr ⟨call, rfl, ?_⟩
    by_contra hp
    simp [hp] at first

/-- The wrapped call of such a template is the one that is provided. -/
theorem providedForm?_eq {t : Node} (numbered : t.Numbered) (h : misuses store t = []) {m : Node}
    (hm : m ∈ t.preorder) : providedForm? (provided? store t) m = wrappedForm? store m := by
  have asks {x : Node} (hx : x ∈ t.preorder) :
      x ∈ wrappedCalls store t ↔ (wrappedForm? store x).isSome := by
    simp [wrappedCalls, hx]
  rcases wrappedCalls_of_misuses h with hw | ⟨call, hw, hp⟩
  · have none : wrappedForm? store m = none := by
      simpa [hw] using (asks hm).symm
    simp [provided?, hw, providedForm?, none]
  · have hcall : call ∈ t.preorder := mem_preorder_of_mem_wrappedCalls (hw ▸ List.mem_singleton_self _)
    obtain ⟨form, hform⟩ := Option.isSome_iff_exists.1
      ((asks hcall).1 (hw ▸ List.mem_singleton_self _))
    have provided : provided? store t = some (call.id, form) := by simp [provided?, hw, hform, hp]
    rw [provided, providedForm?]
    by_cases he : m = call
    · simp [he, hform]
    · have other : call.id ≠ m.id := fun hid => he (numbered.eq_of_id hm hcall hid.symm)
      have none : wrappedForm? store m = none := by
        simpa [hw, he] using (asks hm).symm
      simp [other, none]

/-- Classifying keeps the numbers and the layout. -/
theorem Pristine.classified {n : Node} (h : Pristine n) (hc : classify store env n = .ok c) :
    c.tree.Numbered ∧ c.tree.Laid := by
  obtain ⟨st, hs⟩ := stamped_of_classify hc
  refine ⟨hs.numbered h.numbered, ?_⟩
  obtain ⟨inherited, htree⟩ := hs
  rw [htree]
  exact (recast_stamp st inherited n).laid h.laid

/-- The wrapped calls of a text that compiles can be provided. -/
theorem Accepted.orderly (h : Accepted env text store c) {t : Node} (ht : t ∈ c.tree.nodes)
    (silent : misuses store t = []) : Orderly store (provided? store t) t := by
  obtain ⟨read, annotated, hread, -, hlearn, hstage⟩ := h.stages
  have pristine := pristine_of_learn hread 0 hlearn
  obtain ⟨numbered, laid⟩ := pristine.classified hstage
  obtain ⟨st, htree, -, -, records⟩ :=
    (pristine.meaningful hstage h.silent).exists_records hstage
  have htt := Node.mem_preorder_of_mem_nodes c.tree.mem_preorder_self ht
  have inside {m : Node} (hm : m ∈ t.preorder) := Node.preorder_trans htt hm
  refine ⟨numbered.below htt, laid.below htt, fun m hm => (h.lawful (inside hm)).1.1,
    fun m hm => (h.lawful (inside hm)).2, fun m hm => (h.staged (inside hm)).2.2,
    fun m hm => h.isExpression_of_splice (inside hm),
    fun m hm => providedForm?_eq (numbered.below htt) silent hm, fun m hm hw => ?_,
    fun s hs hk d call hd hcall hw => ?_⟩
  · have asked : m ∈ wrappedCalls store t :=
      List.mem_filter.2 ⟨hm, Option.isSome_iff_ne_none.2 hw⟩
    rcases wrappedCalls_of_misuses silent with none | ⟨call, only, hp⟩
    · rw [none] at asked
      cases asked
    · rw [only, List.mem_singleton] at asked
      exact (isProvidable_iff (numbered.below htt) (laid.below htt) hm).1 (asked ▸ hp)
  · have stamped : Stamped st annotated c.tree := ⟨.either, htree⟩
    obtain ⟨s₀, hs₀, hstamp⟩ := (mem_of_forall₂ (stamped_preorder stamped)).2 s (inside hs)
    have children := hstamp.forall₂_nodes (R := Stamped st) fun _ _ _ h => h
    rw [hd] at children
    obtain ⟨d₀, rest, hd₀, hrest, hnodes⟩ := List.forall₂_cons_right_iff.1 children
    cases hrest
    have values := hd₀.forall₂_nodes (R := Stamped st) fun _ _ _ h => h
    rw [hcall] at values
    obtain ⟨call₀, rest, hcall₀, hrest, hvalues⟩ := List.forall₂_cons_right_iff.1 values
    cases hrest
    obtain ⟨steps, habove⟩ := pristine.numbered.exists_above hs₀
    have hk₀ : s₀.kind = .localDeclaration := hstamp.kind ▸ hk
    obtain ⟨-, -, wrapped⟩ := records s₀ hs₀ (by rw [hk₀]; rfl) steps habove
    refine hstamp.stage (wrapped hk₀ d₀ call₀ hnodes hvalues ?_)
    rwa [← wrappedForm?_stamped hcall₀, Option.isSome_iff_ne_none]

/-- Where nothing is reported each generator gives the wrapped call as often as it is asked for. -/
theorem Accepted.givesOnce (h : Accepted env text store c)
    (silent : (quoteTemplates store c.tree).diagnostics = []) {t : Node} (ht : t ∈ c.tree.nodes) :
    GivesOnce store t (quoteTemplate store t).1.program := by
  obtain ⟨hk, templates⟩ := h.templates
  have used : misuses store t = [] := by
    obtain ⟨ds, reports, -⟩ := reports_quoteTemplate store t
    have none : (quoteTemplate store t).2 = [] := by
      simp only [quoteTemplates, hk, reduceCtorEq, if_false, List.flatMap_eq_nil_iff,
        List.forall_mem_map] at silent
      exact silent t (List.mem_filter.2 ⟨ht, by simp [templates t ht]⟩)
    rw [none] at reports
    exact (List.append_eq_nil_iff.1 reports.symm).1
  refine givesOnce_quoteTemplate (h.orderly ht used) (templates t ht) ?_
  rcases wrappedCalls_of_misuses used with hw | ⟨call, hw, -⟩ <;> simp [hw]

/-- Quoting a classified text reports of the wrapped calls of a template all but the first, and the
first if it is neither returned nor what a variable declared alone is initialized with. Where a text
compiles without a report, each generator gives the wrapped call exactly as often as its template
asks for it, once or never, and no placeholder stands for it. -/
theorem wrapped_calls_given_once {text : String} {read : Node}
    (hread : Source.parseUnit text = .ok read) (store : FactStore) (next : Nat)
    (env env' : Environment) :
    (∃ annotated store' c, store.learn env (read.number next).1 = .ok (annotated, store') ∧
      classify store' env' annotated = .ok c ∧ ∀ t ∈ c.tree.nodes,
        ∃ misplaced, ReportsMisuses store' t (quoteTemplate store' t).2 misplaced) ∧
    ∀ g, compile env text = .ok g → g.diagnostics = [] →
      ∃ store' c, Accepted env text store' c ∧ g = quoteTemplates store' c.tree ∧
        ∀ t ∈ c.tree.nodes, GivesOnce store' t (quoteTemplate store' t).1.program := by
  constructor
  · obtain ⟨annotated, store', c, hlearn, pristine, hc⟩ :=
      exists_classification hread store next env env'
    obtain ⟨numbered, laid⟩ := pristine.classified hc
    refine ⟨annotated, store', c, hlearn, hc, fun t ht => ?_⟩
    have htt := Node.mem_preorder_of_mem_nodes c.tree.mem_preorder_self ht
    exact reportsMisuses_quoteTemplate store' (numbered.below htt) (laid.below htt)
  · intro g hg hd
    obtain ⟨store', c, accepted, rfl⟩ := exists_accepted hg hd
    exact ⟨store', c, accepted, rfl, fun t ht => accepted.givesOnce hd ht⟩

/-- What a text is accepted with is determined by it. -/
theorem Accepted.unique {store' : FactStore} {c' : Classification} (h : Accepted env text store c)
    (h' : Accepted env text store' c') : store' = store ∧ c' = c := by
  obtain ⟨read, annotated, hread, -, hlearn, hstage⟩ := h.stages
  obtain ⟨read', annotated', hread', -, hlearn', hstage'⟩ := h'.stages
  cases hread.symm.trans hread'
  cases hlearn.symm.trans hlearn'
  cases hstage.symm.trans hstage'
  exact ⟨rfl, rfl⟩

/-- A template that returns the call it wraps from the middle of a loop of the generator. -/
def logged : String :=
  "template Logged() \x7b foreach (var p in meta.Target.Parameters) \x7b " ++
  "if (this.F) \x7b return meta.ProceedAsync(); \x7d log(p.Name); \x7d \x7d"

/-- A template that asks twice, and first where the call cannot be provided. -/
def twice : String := "template Twice() \x7b log(meta.Proceed()); return meta.ProceedAsync(); \x7d"

/-- The generator of the first text gives the call it wraps; in the second text both calls are
reported. -/
theorem wrapped_calls_given_once_logged :
    (∃ g store c t, compile .standard logged = .ok g ∧ g.diagnostics = [] ∧
      Accepted .standard logged store c ∧ c.tree.nodes = [t] ∧
      (wrappedCalls store t).map (wrappedForm? store) = [some .awaitable] ∧
      GivesOnce store t (quoteTemplate store t).1.program) ∧
    ∃ read annotated store c t misplaced, Source.parseUnit twice = .ok read ∧
      FactStore.empty.learn .standard (read.number 0).1 = .ok (annotated, store) ∧
      classify store .standard annotated = .ok c ∧ c.tree.nodes = [t] ∧
      (quoteTemplate store t).2.map Diagnostic.span = [⟨23, 37⟩, ⟨47, 66⟩] ∧
      ReportsMisuses store t (quoteTemplate store t).2 misplaced := by
  constructor
  · have characters : logged.toList = _ := toList_append String.toList_ofList String.toList_ofList
    obtain ⟨-, g, c, s, -, hg, hd, hc, hcalls⟩ := exists_of_accepts
      (p := fun _ _ c store => c.tree.nodes.map (fun t =>
        (wrappedCalls store t).map (wrappedForm? store)) == [[some .awaitable]])
      Environment.standard_eq characters (by decide +kernel)
    obtain ⟨accepted, -⟩ := Accepted.of_compile hg hd hc
    obtain ⟨t, ht, calls⟩ := List.map_eq_singleton_iff.1 (beq_iff_eq.1 hcalls)
    obtain ⟨read, -, hread, -⟩ := accepted.stages
    obtain ⟨-, given⟩ := wrapped_calls_given_once hread .empty 0 .standard .standard
    obtain ⟨store', c', accepted', -, once⟩ := given g hg hd
    obtain ⟨rfl, rfl⟩ := accepted.unique accepted'
    exact ⟨g, s.store, c', t, hg, hd, accepted, ht, calls, once t (by simp [ht])⟩
  · obtain ⟨read, annotated, store, c, hread, hlearn, hc, checked⟩ := exists_of_classifies
      (p := fun _ store c => c.tree.nodes.map (fun t =>
        (quoteTemplate store t).2.map Diagnostic.span) == [[⟨23, 37⟩, ⟨47, 66⟩]])
      Environment.standard_eq (show twice.toList = _ from String.toList_ofList) (by decide +kernel)
    obtain ⟨⟨annotated', store', c', hlearn', hc', reported⟩, -⟩ :=
      wrapped_calls_given_once hread .empty 0 .standard .standard
    cases hlearn.symm.trans hlearn'
    cases hc.symm.trans hc'
    obtain ⟨t, ht, spans⟩ := List.map_eq_singleton_iff.1 (beq_iff_eq.1 checked)
    obtain ⟨misplaced, reports⟩ := reported t (by simp [ht])
    exact ⟨read, annotated, store, c, t, misplaced, hread, hlearn, hc, ht, spans, reports⟩

end Stencil
