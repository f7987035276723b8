import Stencil.Proofs.Quotation.Requests
import Stencil.Proofs.Quotation.Simulation
import Stencil.Proofs.Session.Classified

/-!
# Reports about wrapped calls

Quoting a template reports the first call of what it wraps if that stands in a wrong place, and all
further ones. Nothing else that the quoter reports is about wrapped calls.

Results:

* `isProvidable_iff` – where a wrapped call can be provided;
* `lifting_of_asks` – the quoter itself only reports values that no literal stands for;
* `reportsMisuses_quoteTemplate` – what is reported about the wrapped calls of a template.
-/
namespace Stencil.Quotation

/-! ## Places of wrapped calls -/

/-- The node is the value of a `return`, or of a variable that is declared alone. -/
def IsSoleValue (template n : Node) : Prop :=
  (∃ p ∈ template.preorder, p.kind = .returnStatement ∧ n ∈ p.nodes) ∨
    ∃ s ∈ template.preorder, s.kind = .localDeclaration ∧ ∃ d, s.nodes = [d] ∧ n ∈ d.nodes

/-- Only declarations hold declarators. -/
theorem kind_of_declarator {p d : Node} (hp : p.FitsKind) (hd : d ∈ p.nodes)
    (hk : d.kind = .declarator) : p.kind = .localDeclaration := by
  by_contra hne
  have closed : (places p.kind).all fun place => !place.slot.admits (.node .declarator) := by
    generalize p.kind = k at hne
    cases k <;> first | rfl | contradiction
  have other := hp.forall_node (P := fun k => k ≠ .declarator) (fun place hplace k hadmits he => by
    have refused := List.all_eq_true.1 closed place hplace
    rw [← he, hadmits] at refused
    cases refused) d.kind (List.mem_map_of_mem (f := Child.outline) (Node.mem_nodes.1 hd))
  exact other hk

/-- Declarations hold declarators only. -/
theorem isDeclarator_of_mem {p d : Node} (hp : p.FitsKind) (hk : p.kind = .localDeclaration)
    (hd : d ∈ p.nodes) : d.kind = .declarator :=
  hp.forall_node (P := fun k => k = .declarator) (fun place hplace k hadmits => by
    rw [hk] at hplace
    simp only [places, List.mem_cons, List.not_mem_nil, or_false] at hplace
    rcases hplace with rfl | rfl <;> simpa [Place.slot, Slot.admits] using hadmits) d.kind
    (List.mem_map_of_mem (f := Child.outline) (Node.mem_nodes.1 hd))

theorem isProvidable_iff {t n : Node} (numbered : t.Numbered) (laid : t.Laid)
    (hn : n ∈ t.preorder) : isProvidable t n ↔ IsSoleValue t n := by
  constructor
  · intro h
    rcases Node.exists_parent hn with rfl | ⟨p, hp, hm⟩
    · rw [isProvidable, Node.above_self] at h
      cases h
    · obtain ⟨steps, hs⟩ := numbered.exists_above hp
      rw [isProvidable, numbered.above_of_mem_nodes hp hm, hs] at h
      simp only [Option.map_some] at h
      split at h
      · next hk => exact .inl ⟨p, hp, hk, hm⟩
      · next declaration d rest hk =>
        rcases Node.exists_parent hp with rfl | ⟨q, hq, hpq⟩
        · rw [Node.above_self] at hs
          cases hs
        · obtain ⟨above, ha⟩ := numbered.exists_above hq
          rw [numbered.above_of_mem_nodes hq hpq, ha] at hs
          cases hs
          obtain ⟨only, hnodes⟩ := List.length_eq_one_iff.1 (beq_iff_eq.1 h)
          obtain rfl : p = only := by simpa [hnodes] using hpq
          exact .inr ⟨declaration, hq, kind_of_declarator (laid _ hq) hpq hk, p, hnodes, hm⟩
      · cases h
  · rintro (⟨p, hp, hk, hm⟩ | ⟨s, hs, hk, d, hnodes, hm⟩)
    · obtain ⟨steps, ha⟩ := numbered.exists_above hp
      rw [isProvidable, numbered.above_of_mem_nodes hp hm, ha]
      simp [hk]
    · have hds : d ∈ s.nodes := by simp [hnodes]
      have hd := Node.mem_preorder_of_mem_nodes hs hds
      obtain ⟨steps, ha⟩ := numbered.exists_above hs
      rw [isProvidable, numbered.above_of_mem_nodes hd hm, numbered.above_of_mem_nodes hs hds, ha]
      simp [isDeclarator_of_mem (laid s hs) hk hds, hnodes]

/-! ## What the quoter itself reports -/

/-- All that was reported is about values that no literal stands for. -/
def State.Lifting (s : State) : Prop := ∀ d ∈ s.diagnostics, d.complaint = .notSerializable

/-- Quoting reports nothing else. -/
theorem lifting_of_asks {α : Type} {act : Quoter α} {s : State} {rs : List Request}
    (h : Asks act s rs) (hs : s.Lifting) : (act.run s).2.Lifting := by
  induction h with
  | pure | accumulator | declare => exact hs
  | bind _ _ ih ih' => exact ih' (ih hs)
  | @nested _ build s _ _ ih =>
    have built : (build.run s.enter).2.Lifting := ih hs
    rw [run_nested, State.leave]
    split <;> exact built
  | held h =>
    rw [run_heldOr_some h]
    exact hs
  | notHeld h _ ih =>
    rw [run_heldOr_none h]
    exact ih hs
  | report hd => exact List.forall_mem_append.2 ⟨hs, List.forall_mem_singleton.2 hd⟩

/-! ## Reports about a template -/

/-- The reports `ds` about a template tell of its wrapped calls: of the first one if it is neither
returned nor what a variable declared alone is initialized with, and of each further one that there
may be only one. -/
structure ReportsMisuses (store : FactStore) (t : Node) (ds : List Diagnostic)
    (misplaced : List Node) : Prop where
  reports : ds.filter (·.complaint = .wrappedCall) =
    misplaced.map (misuse store ·
      "must be the initializer of a single variable or the value of a `return`") ++
    (wrappedCalls store t).tail.map (misuse store · "can be used only once per template")
  first : ∀ n, n ∈ misplaced ↔ (wrappedCalls store t).head? = some n ∧ ¬IsSoleValue t n
  once : misplaced.length ≤ 1

theorem complaint_of_mem_misuses {store : FactStore} {t : Node} {d : Diagnostic}
    (hd : d ∈ misuses store t) : d.complaint = .wrappedCall := by
  unfold misuses at hd
  split at hd
  · cases hd
  · rcases List.mem_append.1 hd with hd | hd
    · split at hd
      · cases hd
      · rw [List.mem_singleton.1 hd]
        rfl
    · obtain ⟨n, -, rfl⟩ := List.mem_map.1 hd
      rfl

theorem mem_preorder_of_mem_wrappedCalls {store : FactStore} {t n : Node}
    (h : n ∈ wrappedCalls store t) : n ∈ t.preorder := (List.mem_filter.1 h).1

/-- What the quoter itself reports is not about wrapped calls. -/
theorem reports_quoteTemplate (store : FactStore) (t : Node) :
    ∃ ds, (quoteTemplate store t).2 = misuses store t ++ ds ∧
      ∀ d ∈ ds, d.complaint = .notSerializable := by
  refine ⟨_, rfl, ?_⟩
  cases t.nodeOfKind? .block with
  | none => exact nofun
  | some body =>
    obtain ⟨rs, hrs⟩ := (asked store (provided? store t) body).statements .initial
    exact lifting_of_asks hrs nofun

theorem reportsMisuses_quoteTemplate (store : FactStore) {t : Node} (numbered : t.Numbered)
    (laid : t.Laid) : ∃ misplaced, ReportsMisuses store t (quoteTemplate store t).2 misplaced := by
  obtain ⟨ds, hds, others⟩ := reports_quoteTemplate store t
  have about : (quoteTemplate store t).2.filter (·.complaint = .wrappedCall) = misuses store t := by
    rw [hds, List.filter_append,
      List.filter_eq_self.2 fun d hd => by simp [complaint_of_mem_misuses hd],
      List.filter_eq_nil_iff.2 fun d hd => by simp [others d hd], List.append_nil]
  unfold misuses at about
  cases hw : wrappedCalls store t with
  | nil =>
    rw [hw] at about
    exact ⟨[], by simpa [hw] using about, by simp [hw], by simp⟩
  | cons n rest =>
    have hn : n ∈ t.preorder := mem_preorder_of_mem_wrappedCalls (hw ▸ List.mem_cons_self)
    have sole := isProvidable_iff numbered laid hn
    rw [hw] at about
    by_cases h : isProvidable t n
    · refine ⟨[], by simpa [hw, h] using about, fun m => ?_, by simp⟩
      simp only [hw, List.head?_cons, Option.some.injEq, List.not_mem_nil, false_iff,
        not_and_not_right]
      rintro rfl
      exact sole.1 h
    · refine ⟨[n], by simpa [hw, h] using about, fun m => ?_, by simp⟩
      simp only [hw, List.head?_cons, Option.some.injEq, List.mem_singleton]
      refine ⟨?_, fun hm => hm.1.symm⟩
      rintro rfl
      exact ⟨rfl, fun hs => h (sole.2 hs)⟩

end Stencil.Quotation
