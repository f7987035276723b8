import Stencil.Facts.Resolution
import Stencil.Facts.Store

/-!
# Annotating trees

Resolution finds the facts and the store keeps them: `FactStore.learn` does both for one tree.
-/
namespace Stencil

/-- Resolves the names of a numbered tree and keeps what was found. -/
def FactStore.learn (s : FactStore) (e : Environment) (n : Node) :
    Except Defect (Node × FactStore) := do
  let findings ← e.resolve n
  return s.annotate (findings.of ·.id) n

/-- What is learned of a tree is what resolving it found. -/
theorem FactStore.exists_of_learn {s s' : FactStore} {e : Environment} {n n' : Node}
    (h : s.learn e n = .ok (n', s')) :
    ∃ findings : Findings, e.resolve n = .ok findings ∧
      s.annotate (findings.of ·.id) n = (n', s') := by
  unfold learn at h
  cases hf : e.resolve n with
  | error d => rw [hf] at h; cases h
  | ok findings =>
    rw [hf] at h
    exact ⟨findings, rfl, Except.ok.inj h⟩

end Stencil
