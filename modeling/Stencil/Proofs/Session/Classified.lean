import Stencil.Proofs.Facts.Resolving
import Stencil.Proofs.Session.Accepted
import Stencil.Proofs.Staging.Restamping
import Stencil.Proofs.Tree.Paths
import Stencil.Proofs.Tree.Printable

/-!
# Texts that are classified

A text that was read can be annotated and classified, whatever the classification then reports:
annotation leaves a tree that follows the grammar, can be printed everywhere, and has distinct
numbers and no stages.

Results:

* `pristine_of_learn` – what annotation leaves of a text;
* `exists_classification` – every text that was read can be annotated and classified.
-/
namespace Stencil

/-- The tree of a text as annotation leaves it: numbered apart, laid out by the grammar and without
stages. -/
structure Pristine (n : Node) : Prop where
  numbered : n.Numbered
  unstaged : ∀ m ∈ n.preorder, m.stage? = none
  rules : ∀ m ∈ n.preorder, Rule m.kind m.outline
  laid : n.Laid

namespace Pristine

variable {n : Node}

theorem apart (h : Pristine n) : Staging.Distinct n := fun _ hm _ => h.numbered.eq_of_id hm

theorem fresh (h : Pristine n) :
    ∀ m ∈ n.preorder, m.stage? = none ∧ Rule m.kind m.outline :=
  fun m hm => ⟨h.unstaged m hm, h.rules m hm⟩

/-- Nothing that the classifier wants to print stops it. -/
theorem classifies (h : Pristine n) (store : FactStore) (env : Environment) :
    ∃ c, classify store env n = .ok c := by
  cases hc : classify store env n with
  | ok c => exact ⟨c, rfl⟩
  | error d =>
    obtain ⟨m, shown, hd⟩ := exists_shown_of_error hc
    obtain ⟨s, hs⟩ := (h.laid.below shown.1).renders .compact
    cases hd.symm.trans hs

end Pristine

variable {text : String} {read annotated : Node} {store store' : FactStore} {env : Environment}

/-- What annotation leaves of a text that was read. -/
theorem pristine_of_learn (hread : Source.parseUnit text = .ok read) (next : Nat)
    (hlearn : store.learn env (read.number next).1 = .ok (annotated, store')) :
    Pristine annotated := by
  obtain ⟨resolve, rfl⟩ := annotated_of_learn hlearn
  have numbered := recast_number next read
  have recast := recast_annotate resolve store (read.number next).1
  obtain ⟨hrules, -⟩ := Source.isRead_parseUnit hread
  refine ⟨?_, fun m hm => ?_, fun m hm => ?_, recast.laid (numbered.laid hrules.laid)⟩
  · rw [Node.Numbered, recast.ids fun _ _ h => h.1]
    exact (nodup_number next read).2.1
  · obtain ⟨b, hb, -, -, -, hstage, -⟩ := recast.source hm
    obtain ⟨r, hr, -, -, hmarks⟩ := numbered.source hb
    rw [hstage, Node.stage?, hmarks, (hrules r hr).1]
    rfl
  · obtain ⟨b, hb, hk, ho, -⟩ := recast.source hm
    obtain ⟨r, hr, hk', ho', -⟩ := numbered.source hb
    rw [hk, hk', ho, ho']
    exact (hrules r hr).2.1

/-- A text that was read can be annotated and classified, in any environments. -/
theorem exists_classification (hread : Source.parseUnit text = .ok read) (store : FactStore)
    (next : Nat) (env env' : Environment) :
    ∃ annotated store' c, store.learn env (read.number next).1 = .ok (annotated, store') ∧
      Pristine annotated ∧ classify store' env' annotated = .ok c := by
  have laid := (recast_number next read).laid (Source.isRead_parseUnit hread).1.laid
  obtain ⟨findings, hf⟩ := laid.resolves env
  have hlearn : ∃ r, store.learn env (read.number next).1 = .ok r := by
    rw [FactStore.learn, hf]
    exact ⟨_, rfl⟩
  obtain ⟨⟨annotated, store'⟩, hlearn⟩ := hlearn
  have pristine := pristine_of_learn hread next hlearn
  obtain ⟨c, hc⟩ := pristine.classifies store' env'
  exact ⟨annotated, store', c, hlearn, pristine, hc⟩

end Stencil
