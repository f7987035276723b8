import Stencil.Proofs.Session.Evaluating
import Stencil.Proofs.Staging.Steps

/-!
# Constructs without a staged meaning

Loops but `foreach`, lambdas, queries and their like have no meaning in a template. The classifier
reports each of them once and goes on below it. It comes to every one of them: the only nodes it
does not enter are those that it refused, as values needed too early, and what stands below them.

Results:

* `Pristine.tells` – what the reports about a tree tell of its constructs;
* `unsupported_reported_once` – the same for every text that was read, in any environments.
-/
namespace Stencil

open Staging

/-- The reports `ds` about a tree tell of the constructs `told`, each once, where it stands and by
its name, and refuse the expressions `refused`. No construct is missing that does not stand below a
refused node. -/
structure TellsConstructs (n : Node) (ds : List Diagnostic) (told : List (Node × String))
    (refused : List Node) : Prop where
  reports : ds.filter (·.complaint = .unsupported) = told.map fun e => unsupportedAt e.1 e.2
  constructs : ∀ e ∈ told, e.1 ∈ n.preorder ∧ construct? e.1 = some e.2
  once : (told.map Prod.fst).Nodup
  refusals : (ds.filter (·.complaint = .forcedTooEarly)).map Diagnostic.span =
    refused.map Node.span
  expressions : ∀ m ∈ refused, m ∈ n.preorder ∧ m.kind.isExpression
  refusedOnce : refused.Nodup
  complete : ∀ m ∈ n.preorder, construct? m ≠ none →
    m ∈ told.map Prod.fst ∨ ∃ y ∈ refused, m ∈ y.preorder

/-- What the reports of a swept run tell. -/
theorem Staging.Logs.tells {n : Node} {W : Set Node} (hW : W ⊆ {m | m ∈ n.preorder})
    (hu : Distinct n) {log : List (Node × Diagnostic)} {st : State} (h : Logs W log st)
    (told : ∀ m ∈ n.preorder, Told n st m) :
    TellsConstructs n st.diagnostics
      ((entries .unsupported log).map fun e => (e.1, (construct? e.1).getD ""))
      ((entries .forcedTooEarly log).map Prod.fst) := by
  have entry {c : Complaint} {e : Node × Diagnostic} (he : e ∈ entries c log) :
      e.1 ∈ n.preorder ∧ Fits e.1 e.2 ∧ e.2.complaint = c := by
    obtain ⟨he, hc⟩ := List.mem_filter.1 he
    exact ⟨hW (h.fits e he).1, (h.fits e he).2, by simpa using hc⟩
  have first : ((entries .unsupported log).map fun e => (e.1, (construct? e.1).getD "")).map
      Prod.fst = (entries .unsupported log).map Prod.fst := by
    rw [List.map_map]
    rfl
  refine ⟨?_, ?_, first ▸ (h.nodup _).of_map, ?_, ?_, (h.nodup _).of_map, fun m hm hc => ?_⟩
  · rw [h.reports, List.map_map]
    refine List.map_congr_left fun e he => ?_
    obtain ⟨-, fits, hc⟩ := entry he
    obtain ⟨name, hname, hd⟩ := fits.construct hc
    simp [hname, hd]
  · intro e' he'
    obtain ⟨e, he, rfl⟩ := List.mem_map.1 he'
    obtain ⟨hm, fits, hc⟩ := entry he
    obtain ⟨name, hname, -⟩ := fits.construct hc
    exact ⟨hm, by simp [hname]⟩
  · rw [h.reports, List.map_map, List.map_map]
    exact List.map_congr_left fun e he => (entry he).2.1.span
  · intro m hm
    obtain ⟨e, he, rfl⟩ := List.mem_map.1 hm
    obtain ⟨hm, fits, hc⟩ := entry he
    exact ⟨hm, fits.refused hc⟩
  · -- a report is found by the number of its node, which no other node has
    have found {c : Complaint} {y : Node} (hy : y ∈ n.preorder) (hr : (y.id, c) ∈ st.reported) :
        y ∈ (entries c log).map Prod.fst := by
      obtain ⟨e, he, hid⟩ := h.mem_reported.1 hr
      rw [← hu e.1 (entry he).1 y hy hid]
      exact List.mem_map_of_mem he
    rcases told m hm hc with hr | ⟨y, hy, hr, hx⟩
    · exact .inl (first ▸ found hm hr)
    · exact .inr ⟨y, found hy hr, hx⟩

/-- What the reports about a tree tell of its constructs without a staged meaning. -/
theorem Pristine.tells {n : Node} (h : Pristine n) {store : FactStore} {env : Environment}
    {c : Classification} (hc : classify store env n = .ok c) :
    ∃ told refused, TellsConstructs n c.diagnostics told refused := by
  have sweeps : Sweeps n (Within n n) ∅ (∅ ∪ Below [n]) (visit n store env n.size (.free []) n) :=
    sweeps_visit h.apart h.fresh n.size (.free []) n n.mem_preorder_self ∅
  unfold classify at hc
  cases hv : (visit n store env n.size (.free []) n).run .initial with
  | error e => rw [hv] at hc; cases hc
  | ok r =>
    rw [hv] at hc
    cases hc
    obtain ⟨steps, swept⟩ := sweeps _ r.1 r.2 hv
    have start : Swept n .initial := fun m _ known => by simp [State.Knows, State.initial] at known
    obtain ⟨-, told⟩ := swept start fun _ hx => absurd hx (Set.notMem_empty _)
    obtain ⟨log, logs⟩ := steps.exists_log
    exact ⟨_, _, logs.tells (fun m => mem_preorder_of_within n.mem_preorder_self) h.apart
      fun m hm => told m (.inr (mem_below_singleton.2 hm))⟩

/-- Every text that was read is classified, in any environments, and each of its constructs without
a staged meaning is reported exactly once, where it stands and by its name; below a node that was
refused it is reported at most once. No other node is reported so. -/
theorem unsupported_reported_once {text : String} {read : Node}
    (hread : Source.parseUnit text = .ok read) (store : FactStore) (next : Nat)
    (env env' : Environment) :
    ∃ annotated store' c, store.learn env (read.number next).1 = .ok (annotated, store') ∧
      classify store' env' annotated = .ok c ∧
      ∃ told refused, TellsConstructs annotated c.diagnostics told refused := by
  obtain ⟨annotated, store', c, hlearn, pristine, hc⟩ :=
    exists_classification hread store next env env'
  exact ⟨annotated, store', c, hlearn, hc, pristine.tells hc⟩

/-- A template that waits for a generated value where a name is needed, and locks in a loop. -/
def waiting : String :=
  "template Waiting() \x7b var n = meta.Target.Parameters[await this.F].Name; " ++
  "while (true) \x7b lock (this) \x7b \x7d \x7d \x7d"

/-- The `await` is refused, so it need not be reported a second time. -/
theorem unsupported_reported_once_waiting : ∃ read annotated store c,
    Source.parseUnit waiting = .ok read ∧
    FactStore.empty.learn .standard (read.number 0).1 = .ok (annotated, store) ∧
    classify store .standard annotated = .ok c ∧
    c.diagnostics.map (fun d => (d.complaint, d.span)) =
      [(.forcedTooEarly, ⟨52, 64⟩), (.unsupported, ⟨72, 104⟩), (.unsupported, ⟨87, 102⟩)] ∧
    ∃ told refused, TellsConstructs annotated c.diagnostics told refused := by
  have characters : waiting.toList = _ := toList_append String.toList_ofList String.toList_ofList
  obtain ⟨read, annotated, store, c, hread, hlearn, hclass, reports⟩ := exists_of_classifies
    (p := fun _ _ c => c.diagnostics.map (fun d => (d.complaint, d.span)) ==
      [(.forcedTooEarly, ⟨52, 64⟩), (.unsupported, ⟨72, 104⟩), (.unsupported, ⟨87, 102⟩)])
    Environment.standard_eq characters (by decide +kernel)
  obtain ⟨annotated', store', c', hlearn', hclass', tells⟩ :=
    unsupported_reported_once hread .empty 0 .standard .standard
  cases hlearn.symm.trans hlearn'
  cases hclass.symm.trans hclass'
  exact ⟨read, annotated, store, c, hread, hlearn, hclass, by simpa using reports, tells⟩

end Stencil
