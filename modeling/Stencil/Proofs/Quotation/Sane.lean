import Stencil.Proofs.Quotation.Hygiene
import Stencil.Proofs.Tree.Suited

/-!
# Machines that gather suited code

A machine is sane if it is tame, runs for a target with a result of the given shape, and all that
its accumulators hold are statements that suit such a target. `Later` says what of one machine is
still so in another, and `Yields` of a run from a sane machine that, if it gives an answer, the
machine is sane and later, and what holds of both.

Results:

* `Yields.bind`, `Yields.inOrder`, `Yields.forEachItem` – such runs compose;
* `Yields.of_after` – runs that leave the blocks under construction alone;
* `yields_opening`, `yields_addTo`, `yields_inNestedScope`, `yields_returnStatement` – runs that
  work on them, or on the context.
-/
namespace Stencil.Quotation

open Expansion

/-! ## Sane machines -/

/-- The value is a tree whose kind is `K` and that suits the method. -/
def IsTree (shape : ResultShape) (K : NodeKind → Prop) (v : Value) : Prop :=
  ∃ t, v = .node t ∧ K t.kind ∧ t.Suits shape.Permits

theorem IsTree.mono {shape : ResultShape} {K K' : NodeKind → Prop} {v : Value}
    (h : IsTree shape K v) (hK : ∀ k, K k → K' k) : IsTree shape K' v := by
  obtain ⟨t, hv, hk, ht⟩ := h
  exact ⟨t, hv, hK _ hk, ht⟩

/-- The value may stand in a block. -/
abbrev IsStep (shape : ResultShape) : Value → Prop := IsTree shape fun k => k.isStatement

structure Sane (own : Nat) (shape : ResultShape) (m : Machine) : Prop where
  tame : Tame own m
  target : ∃ c, m.contexts[own]? = some c ∧ c.target.result = shape
  /-- what is under construction suits the target -/
  blocks : ∀ p items, m.lists[p]? = some items → Held m p → ∀ v ∈ items, IsStep shape v

/-- What a machine that comes after another still has of it: scopes are only added, lists too, and
no list that the template can reach becomes a block. -/
structure Later (own : Nat) (m n : Machine) : Prop where
  scopes : ∀ c, m.contexts[own]? = some c → ∃ c', n.contexts[own]? = some c' ∧
    c.scopes.scopes.length ≤ c'.scopes.scopes.length
  lists : m.lists.size ≤ n.lists.size
  apart : ∀ p < m.lists.size, Held n p → Held m p

section

variable {own : Nat} {shape : ResultShape} {r : Reach} {m n k : Machine}

theorem Later.refl (own : Nat) (m : Machine) : Later own m m :=
  ⟨fun c hc => ⟨c, hc, Nat.le_refl _⟩, Nat.le_refl _, fun _ _ hp => hp⟩

theorem Later.trans (h : Later own m n) (h' : Later own n k) : Later own m k where
  scopes c hc := by
    obtain ⟨c', hc', hle⟩ := h.scopes c hc
    obtain ⟨c'', hc'', hle'⟩ := h'.scopes c' hc'
    exact ⟨c'', hc'', Nat.le_trans hle hle'⟩
  lists := Nat.le_trans h.lists h'.lists
  apart p hp hh := h.apart p hp (h'.apart p (Nat.lt_of_lt_of_le hp h.lists) hh)

theorem Onward.later (h : Onward own r m n) : Later own m n where
  scopes c hc := by
    obtain ⟨c', hc', -, -, -, hg⟩ := h.context c hc
    exact ⟨c', hc', hg.length⟩
  lists := h.lists
  apart := h.apart

theorem Bare.later {v : Value} (hv : Bare m v) (h : Later own m n) : Bare n v := by
  cases v with
  | list p => exact ⟨Nat.lt_of_lt_of_le hv.1 h.lists, fun hp => hv.2 (h.apart p hv.1 hp)⟩
  | _ => exact hv

/-- A tame machine for the same target with the same blocks is as sane. -/
theorem Sane.of_blocks (h : Sane own shape m) (hn : Tame own n) (ho : Onward own r m n)
    (hb : ∀ p, Held n p → Held m p ∧ n.lists[p]? = m.lists[p]?) : Sane own shape n := by
  refine ⟨hn, ?_, fun p items hp hh => ?_⟩
  · obtain ⟨c, hc, rfl⟩ := h.target
    obtain ⟨c', hc', ht, -⟩ := ho.context c hc
    exact ⟨c', hc', by rw [ht]⟩
  · obtain ⟨hh', hl⟩ := hb p hh
    exact h.blocks p items (hl ▸ hp) hh'

theorem Sane.idle (h : Sane own shape m) (hn : Tame own n) (ho : Onward own .idle m n) :
    Sane own shape n :=
  h.of_blocks hn ho fun p hp =>
    have held := ho.closed rfl p hp
    ⟨held, ho.held p held fun hr => nomatch hr⟩

end

/-! ## Runs -/

/-- If the run gives an answer from `m`, and `m` is sane, the machine is sane afterwards, and `Q`
holds of the answer and the machine. -/
def Yields {α : Type} (own : Nat) (shape : ResultShape) (m : Machine) (run : Run α)
    (Q : α → Machine → Prop) : Prop :=
  Sane own shape m → ∀ a n, run m = .ok a n → Sane own shape n ∧ Later own m n ∧ Q a n

namespace Yields

variable {α β γ : Type} {own : Nat} {shape : ResultShape} {m : Machine} {Q : α → Machine → Prop}
  {R : β → Machine → Prop}

theorem pure {a : α} (h : Q a m) : Yields own shape m (pure a) Q := by
  intro hm b n hn
  cases hn
  exact ⟨hm, .refl own m, h⟩

theorem throw (e : Stop) : Yields own shape m (throw e) Q := nofun

theorem fail (f : Fault) : Yields own shape m (fail f) Q := nofun

theorem bind {run : Run α} {k : α → Run β} (h : Yields own shape m run Q)
    (hk : ∀ a n, Later own m n → Q a n → Yields own shape n (k a) R) :
    Yields own shape m (run >>= k) R := by
  intro hm b n hn
  rw [run_bind] at hn
  cases hr : run m with
  | error e n' => rw [hr] at hn; cases hn
  | ok a n' =>
    rw [hr] at hn
    obtain ⟨sane, later, hq⟩ := h hm a n' hr
    obtain ⟨sane', later', hr'⟩ := hk a n' later hq sane b n hn
    exact ⟨sane', later.trans later', hr'⟩

theorem mono {Q' : α → Machine → Prop} {run : Run α} (h : Yields own shape m run Q)
    (hQ : ∀ a n, Q a n → Q' a n) : Yields own shape m run Q' := by
  intro hm a n hn
  obtain ⟨sane, later, hq⟩ := h hm a n hn
  exact ⟨sane, later, hQ a n hq⟩

/-- What leaves the blocks under construction alone. -/
theorem of_after {run : Run α} (h : Tame own m → After own .idle m run Q) :
    Yields own shape m run Q := by
  intro hm a n hn
  obtain ⟨tame, onward, hq⟩ := h hm.tame a n hn
  exact ⟨hm.idle tame onward, onward.later, hq⟩

/-- A condition on the machine that runs start from. -/
theorem sane {run : Run α} (h : Sane own shape m → Yields own shape m run Q) :
    Yields own shape m run Q := fun hm => h hm hm

/-- Statements of a generator hand nothing on: only the last of a body returns. -/
def GoesOn (flow : Flow) (_ : Machine) : Prop := ∀ v, flow ≠ .returned v

theorem inOrder {run : γ → Run Flow} (xs : List γ)
    (h : ∀ x ∈ xs, ∀ n, Later own m n → Yields own shape n (run x) GoesOn) :
    Yields own shape m (Expansion.inOrder run xs) GoesOn := by
  induction xs generalizing m with
  | nil => exact .pure (fun v h => nomatch h)
  | cons x xs ih =>
    rw [Expansion.inOrder]
    refine .bind (h x List.mem_cons_self m (.refl own m)) fun flow n ho hf => ?_
    cases flow with
    | ongoing => exact ih fun y hy k hk => h y (List.mem_cons_of_mem _ hy) k (ho.trans hk)
    | _ => exact .pure hf

theorem forEachItem {run : Value → Run Flow} (items : List Value) (hi : ∀ v ∈ items, Bare m v)
    (h : ∀ v n, Later own m n → Bare n v → Yields own shape n (run v) GoesOn) :
    Yields own shape m (Expansion.forEachItem run items) GoesOn := by
  rw [forEachItem_eq]
  refine .bind (.inOrder items fun v hv n ho => ?_) fun flow _ _ hf => ?_
  · exact .bind (h v n ho ((hi v hv).later ho)) fun flow _ _ hf => .pure (by simpa [GoesOn] using hf)
  · exact .pure (by simpa [GoesOn] using hf)

end Yields

export Yields (GoesOn)

/-! ## Blocks under construction -/

section

variable {own : Nat} {shape : ResultShape} {m n : Machine}

theorem held_opened {a p : Nat} : Held (opened a m) p → p = m.lists.size ∨ Held m p := by
  rintro ⟨f, k, hv⟩
  rw [look_opened] at hv
  split at hv
  · cases hv
    exact .inl rfl
  · exact .inr ⟨f, k, hv⟩

theorem sane_opened (hm : Sane own shape m) (a : Nat) : Sane own shape (opened a m) := by
  refine ⟨tame_opened hm.tame a, hm.target, fun p items hp hh v hv => ?_⟩
  rcases held_opened hh with rfl | hh
  · have empty : (opened a m).lists[m.lists.size]? = some #[] := by
      change (m.lists.push #[])[m.lists.size]? = _
      simp
    cases Option.some.inj (empty.symm.trans hp)
    simp at hv
  · rw [lists_opened a m (hm.tame.lt_of_held hh)] at hp
    exact hm.blocks p items hp hh v hv

theorem yields_opening (a b : Nat) (env : Scoping) :
    Yields own shape m (do
      let inner ← nestedIn env
      let flow ← exec own b inner (openAccumulator (accumulatorName a))
      return (inner, flow)) fun out _ => out.2 = .ongoing := by
  intro hm out n hn
  obtain ⟨-, -, rfl, rfl⟩ := after_opening hm.tame a b env out n hn
  exact ⟨sane_opened hm a, (onward_opened hm.tame a).later, rfl⟩

/-- A block under construction takes one more statement. -/
theorem yields_addTo {p : Nat} {v : Value} (hp : Held m p) (hv : IsStep shape v) :
    Yields own shape m (appendTo p [v]) fun _ _ => True := by
  intro hm out n hn
  obtain ⟨tame, onward, list⟩ := after_accumulate hm.tame (f := 0) hp [v] out n hn
  cases hn
  refine ⟨⟨tame, hm.target, fun q items hq hh w hw => ?_⟩, onward.later, trivial⟩
  have held : Held m q := hh
  by_cases hqp : q = p
  · subst hqp
    obtain ⟨old, hold, rfl⟩ := Option.map_eq_some_iff.1 (list.symm.trans hq)
    rw [← Array.mem_toList_iff, Array.appendList_eq_append, Array.toList_appendList,
      List.mem_append, Array.mem_toList_iff, List.mem_singleton] at hw
    rcases hw with hw | rfl
    · exact hm.blocks q old hold held w hw
    · exact hv
  · have kept : (m.lists.modify p (·.appendList [v]))[q]? = m.lists[q]? := by
      rw [Array.getElem?_modify, if_neg (Ne.symm hqp)]
    exact hm.blocks q items (kept.symm.trans hq) held w hw

/-- The variable that holds the name of a generated local. -/
theorem yields_defineHolder (hint : String) (i : Nat) {t : Token} (ht : t.kind = .identifier)
    (env : Scoping) :
    Yields own shape m (define env (holderName hint i) (.token t)) fun _ _ => True := by
  intro hm out n hn
  cases env with
  | nil =>
    cases hn
    exact ⟨hm, .refl own m, trivial⟩
  | cons f env =>
    by_cases hf : f < m.frames.size
    · obtain ⟨tame, onward, rfl⟩ :=
        after_defineHolder (p := 0) hm.tame hf hint i ht out n hn
      refine ⟨hm.of_blocks tame onward fun p hp => ⟨?_, rfl⟩, onward.later, trivial⟩
      obtain ⟨g, k, hv⟩ := hp
      refine ⟨g, k, ?_⟩
      rwa [look_update m hf, if_neg fun h => holderName_ne_accumulatorName hint i k h.2.symm] at hv
    · change EStateM.Result.ok () (m.update f (holderName hint i) (.token t)) = _ at hn
      rw [update_of_le m (by omega)] at hn
      cases hn
      exact ⟨hm, .refl own m, trivial⟩

end

/-! ## The context -/

section

variable {own : Nat} {shape : ResultShape} {m n : Machine}

theorem yields_contextAt : Yields own shape m (contextAt own)
    fun c n => n = m ∧ c.target.result = shape := by
  intro hm c n hn
  obtain ⟨-, -, rfl, hc⟩ := after_contextAt (r := .idle) hm.tame own c n hn
  obtain ⟨c', hc', hs⟩ := hm.target
  obtain rfl := Option.some.inj (hc.symm.trans hc')
  exact ⟨hm, .refl own n, rfl, hs⟩

/-- What the context makes of a `return`. -/
theorem yields_returnStatement (value : Option Node)
    (hv : ∀ v, value = some v → v.Suits shape.Permits ∧ v.kind.isExpression) (dynamic : Bool) :
    Yields own shape m (onContext own (Context.returnStatement value dynamic) >>= newNode)
      fun v _ => IsStep shape v := by
  have lowered : Yields own shape m (onContext own (Context.returnStatement value dynamic))
      fun t _ => t.Suits shape.Permits ∧ t.kind.isStatement := by
    refine .sane fun hm => .of_after fun tame => after_onContext tame fun c hc hn hs => ?_
    obtain ⟨c', hc', rfl⟩ := hm.target
    obtain rfl := Option.some.inj (hc.symm.trans hc')
    exact ⟨advances_lowerReturn hn hs c.target.result value dynamic,
      fun _ _ _ => suits_lowerReturn Context.freshName c.target.result hv dynamic c⟩
  refine .bind lowered fun t n _ ⟨hs, hk⟩ => ?_
  exact .of_after fun tame => .bind (after_newIdentity tame) fun i _ hn _ _ =>
    .pure hn ⟨_, rfl, hk, hs.of_same rfl rfl⟩

/-- A machine that differs in the scope of its context only. -/
theorem Sane.of_same (h : Sane own shape m) (hl : n.lists = m.lists) (hf : n.frames = m.frames)
    (ha : n.active = m.active) (hc : ∃ c, n.contexts[own]? = some c ∧ c.scopes.Nested ∧
      c.scope < c.scopes.scopes.length ∧ c.target.result = shape) : Sane own shape n := by
  obtain ⟨c, hc, hn, hs, ht⟩ := hc
  refine ⟨h.tame.of_same hl hf ha ⟨c, hc, hn, hs⟩, ⟨c, hc, ht⟩, fun p items hp hh => ?_⟩
  obtain ⟨f, k, hv⟩ := hh
  refine h.blocks p items (hl ▸ hp) ⟨f, k, ?_⟩
  rwa [look, hf] at hv

theorem yields_inNestedScope {α : Type} {act : Run α} {Q : α → Machine → Prop}
    (h : ∀ k, Yields own shape k act Q)
    (hQ : ∀ a n n', n'.frames = n.frames → Q a n → Q a n') :
    Yields own shape m (inNestedScope own act) Q := by
  intro hm a n hn
  obtain ⟨c, hc, hnested, hscope⟩ := hm.tame.context
  obtain ⟨_, hc', ht⟩ := hm.target
  obtain rfl := Option.some.inj (hc.symm.trans hc')
  -- the scope is opened, and closed again when the run ends
  have pushed := contexts_withContext hc (Context.pushScope.run c).2
  have enter : Sane own shape (withContext own (Context.pushScope.run c).2 m) :=
    hm.of_same rfl rfl rfl ⟨_, pushed, hnested.push hscope, Nat.lt_of_lt_of_eq
      (Nat.lt_succ_self _) Scopes.length_push.symm, ht⟩
  rw [inNestedScope, run_bind, onContext_eq hc] at hn
  change ensuring act (fun m => { m with contexts := m.contexts.modify own (·.popScope c.scope) })
    (withContext own (Context.pushScope.run c).2 m) = _ at hn
  unfold ensuring at hn
  cases hact : act (withContext own (Context.pushScope.run c).2 m) with
  | error e n' => rw [hact] at hn; cases hn
  | ok a' n' =>
    rw [hact] at hn
    cases hn
    obtain ⟨sane, later, hq⟩ := h _ enter a n' hact
    obtain ⟨c₁, hc₁, hlength⟩ := later.scopes _ pushed
    obtain ⟨c₂, hc₂, hnested', -⟩ := sane.tame.context
    obtain ⟨c₃, hc₃, ht'⟩ := sane.target
    obtain rfl := Option.some.inj (hc₁.symm.trans hc₂)
    obtain rfl := Option.some.inj (hc₁.symm.trans hc₃)
    have left : (n'.contexts.modify own (·.popScope c.scope))[own]? =
        some (c₁.popScope c.scope) := by
      rw [Array.getElem?_modify, if_pos rfl, hc₁]
      rfl
    have grown : c.scopes.scopes.length ≤ c₁.scopes.scopes.length :=
      Nat.le_trans Scopes.grows_push.length hlength
    refine ⟨sane.of_same rfl rfl rfl ⟨_, left, hnested', Nat.lt_of_lt_of_le hscope grown, ht'⟩,
      ⟨fun c₀ hc₀ => ?_, later.lists, later.apart⟩, hQ a n' _ rfl hq⟩
    obtain rfl := Option.some.inj (hc.symm.trans hc₀)
    exact ⟨_, left, grown⟩

end

end Stencil.Quotation
