import Stencil.Defect

/-!
# What a pass stops for

The passes over trees carry a state and stop where a tree is not what they expect. `StopsFor Q` says
of an action of such a pass that it stops for the reasons in `Q` only, and composes along the steps
of the pass.
-/
namespace Stencil

theorem eq_ok_of_toOption {ε α : Type} {r : Except ε α} {a : α} (h : r.toOption = some a) :
    r = .ok a := by
  cases r with
  | error e => cases h
  | ok b => cases h; rfl

/-- Actions with a state of type `σ` that may find a defect. -/
abbrev Pass (σ : Type) := StateT σ (Except Defect)

/-- A sequence that ends well goes through a state between its parts. -/
theorem Pass.exists_of_bind {σ α β : Type} {act : Pass σ α} {k : α → Pass σ β} {st st' : σ} {b : β}
    (h : (act >>= k).run st = .ok (b, st')) :
    ∃ a mid, act.run st = .ok (a, mid) ∧ (k a).run mid = .ok (b, st') := by
  rw [StateT.run_bind] at h
  cases ha : act.run st with
  | error d => rw [ha] at h; cases h
  | ok r => rw [ha] at h; exact ⟨r.1, r.2, rfl, h⟩

theorem Pass.discard_eq {σ α : Type} (act : Pass σ α) :
    Functor.discard act = act >>= fun _ => pure ⟨⟩ := by
  rw [bind_pure_comp]
  rfl

/-- The action stops for the reasons in `Q` only. -/
def StopsFor (Q : Defect → Prop) {σ α : Type} (act : Pass σ α) : Prop :=
  ∀ st d, act.run st = .error d → Q d

namespace StopsFor

variable {Q : Defect → Prop} {σ α β : Type}

theorem bind {act : Pass σ α} {k : α → Pass σ β} (h : StopsFor Q act)
    (hk : ∀ a, StopsFor Q (k a)) : StopsFor Q (act >>= k) := by
  intro st d hr
  rw [StateT.run_bind] at hr
  cases ha : act.run st with
  | error e =>
    rw [ha] at hr
    cases hr
    exact h st d ha
  | ok r =>
    rw [ha] at hr
    exact hk r.1 r.2 d hr

theorem pure (a : α) : StopsFor Q (Pure.pure a : Pass σ α) := nofun

theorem get : StopsFor Q (get : Pass σ σ) := nofun

theorem modify (f : σ → σ) : StopsFor Q (modify f : Pass σ PUnit) := nofun

theorem lift {x : Except Defect α} (h : ∀ d, x = .error d → Q d) :
    StopsFor Q (liftM x : Pass σ α) := by
  intro st d hr
  cases x with
  | error e =>
    cases hr
    exact h d rfl
  | ok a => cases hr

theorem map {act : Pass σ α} (f : α → β) (h : StopsFor Q act) : StopsFor Q (f <$> act) := by
  rw [← bind_pure_comp]
  exact .bind h fun _ => .pure _

theorem discard {act : Pass σ α} (h : StopsFor Q act) : StopsFor Q (discard act) := by
  rw [Pass.discard_eq]
  exact .bind h fun _ => .pure _

theorem mapM {f : α → Pass σ β} (xs : List α) (h : ∀ x ∈ xs, StopsFor Q (f x)) :
    StopsFor Q (xs.mapM f) := by
  induction xs with
  | nil => exact .pure _
  | cons x xs ih =>
    rw [List.mapM_cons]
    refine .bind (h x List.mem_cons_self) fun b => ?_
    exact .bind (ih fun y hy => h y (List.mem_cons_of_mem _ hy)) fun bs => .pure _

theorem forM {f : α → Pass σ PUnit} (xs : List α) (h : ∀ x ∈ xs, StopsFor Q (f x)) :
    StopsFor Q (xs.forM f) := by
  induction xs with
  | nil => exact .pure _
  | cons x xs ih =>
    exact .bind (h x List.mem_cons_self) fun _ => ih fun y hy => h y (List.mem_cons_of_mem _ hy)

theorem anyM {f : α → Pass σ Bool} (xs : List α) (h : ∀ x ∈ xs, StopsFor Q (f x)) :
    StopsFor Q (xs.anyM f) := by
  induction xs with
  | nil => exact .pure _
  | cons x xs ih =>
    rw [List.anyM]
    refine .bind (h x List.mem_cons_self) fun found => ?_
    split
    · exact .pure _
    · exact ih fun y hy => h y (List.mem_cons_of_mem _ hy)

theorem foldlM {f : β → α → Pass σ β} (xs : List α) (b : β)
    (h : ∀ b, ∀ x ∈ xs, StopsFor Q (f b x)) : StopsFor Q (xs.foldlM f b) := by
  induction xs generalizing b with
  | nil => exact .pure _
  | cons x xs ih =>
    rw [List.foldlM]
    exact .bind (h b x List.mem_cons_self) fun c => ih c fun b y hy =>
      h b y (List.mem_cons_of_mem _ hy)

end StopsFor

end Stencil
