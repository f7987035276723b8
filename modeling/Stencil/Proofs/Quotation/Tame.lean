import Stencil.Proofs.Expansion.Following
import Stencil.Proofs.Quotation.Names
import Stencil.Proofs.Tree.Shadowing

/-!
# Machines that run generators

While a generator runs, its accumulators hold the lists of the blocks under construction, its other
variables hold the names of generated locals, and what the template's own code can reach stays apart
from both: plain data, single names as trees, and lists that no accumulator holds.

`Tame own m` says this of a machine, `Onward own r m n` says what a run of the generator leaves as
it was, and `After own r m run Q` says of a run from `m` that, if it gives an answer, the machine is
still tame, only what `r` allows has changed, and `Q` holds.

Results:

* `After.bind`, `After.mapM` – such runs compose;
* `reframed`, `relisted`, `after_define`, `after_nestedIn` – the elementary steps.
-/
namespace Stencil.Quotation

open Expansion

/-! ## Variables and values -/

/-- The value of a variable of one frame. -/
def look (m : Machine) (f : Nat) (name : String) : Option Value :=
  (m.frames[f]?).bind (·.lookup name)

theorem valueOf?_eq (m : Machine) (env : Scoping) (name : String) :
    m.valueOf? env name = env.findSome? (look m · name) := rfl

theorem lt_of_look {m : Machine} {f : Nat} {name : String} {v : Value}
    (h : look m f name = some v) : f < m.frames.size := by
  by_contra hf
  rw [look, Array.getElem?_eq_none (by omega)] at h
  cases h

/-- An accumulator holds the list at the place. -/
def Held (m : Machine) (p : Nat) : Prop :=
  ∃ f k, look m f (accumulatorName k) = some (.list p)

/-- A value that the template's own code can come across. -/
def Bare (m : Machine) : Value → Prop
  | .closure .. => False
  | .builtin b => b = .math
  | .list p => p < m.lists.size ∧ ¬Held m p
  | .node n => n.IsAtom
  | _ => True

/-- What a variable may hold. -/
inductive Fitting (m : Machine) : String → Value → Prop
  | plain {name : String} {v : Value} (hn : isOpenName name) (hv : Bare m v) : Fitting m name v
  | accumulator {k p : Nat} (hp : p < m.lists.size) : Fitting m (accumulatorName k) (.list p)
  | holder {hint : String} {k : Nat} {t : Token} (ht : t.kind = .identifier) :
    Fitting m (holderName hint k) (.token t)

/-- The generator's own data and what the template can reach are kept apart. -/
structure Tame (own : Nat) (m : Machine) : Prop where
  context : ∃ c, m.contexts[own]? = some c ∧ c.scopes.Nested ∧ c.scope < c.scopes.scopes.length
  active : m.active.head? = some own
  lists : ∀ p items, m.lists[p]? = some items → ¬Held m p → ∀ v ∈ items, Bare m v
  fitting : ∀ f name v, look m f name = some v → Fitting m name v

/-! ## What runs leave alone -/

/-- What a run may change of the generator's own data: the holders of a frame, and the list at a
place. -/
structure Reach where
  frame? : Option Nat
  place? : Option Nat
  /-- whether no new block may be opened -/
  closed : Bool

/-- Nothing, but blocks of its own may be opened. -/
def Reach.none : Reach := ⟨.none, .none, false⟩

/-- What belongs to the block whose accumulator holds the list at `p`. -/
def Reach.block (f p : Nat) : Reach := ⟨some f, some p, false⟩

/-- Nothing, and no block is opened. -/
def Reach.idle : Reach := ⟨.none, .none, true⟩

/-- `n` comes after `m`, in a run that changes what `r` allows. -/
structure Onward (own : Nat) (r : Reach) (m n : Machine) : Prop where
  context : ∀ c, m.contexts[own]? = some c → ∃ c', n.contexts[own]? = some c' ∧
    c'.target = c.target ∧ c'.arguments = c.arguments ∧ c'.scope = c.scope ∧
    c.scopes.Grows c'.scopes
  active : n.active = m.active
  lists : m.lists.size ≤ n.lists.size
  frames : m.frames.size ≤ n.frames.size
  /-- reserved variables keep their values, but for holders of the frame in reach -/
  kept : ∀ f < m.frames.size, ∀ name, Reserved.isReserved name →
    (r.frame? = some f → ∃ k, name = accumulatorName k) → look n f name = look m f name
  /-- no list that the template can reach becomes a block -/
  apart : ∀ p < m.lists.size, Held n p → Held m p
  closed : r.closed → ∀ p, Held n p → Held m p
  /-- blocks under construction keep their statements, but for the one in reach -/
  held : ∀ p, Held m p → r.place? ≠ some p → n.lists[p]? = m.lists[p]?

section

variable {own : Nat} {r : Reach} {m n : Machine}

theorem Onward.look_accumulator (h : Onward own r m n) {f k : Nat} {v : Value}
    (hv : look m f (accumulatorName k) = some v) : look n f (accumulatorName k) = some v := by
  rw [h.kept f (lt_of_look hv) _ (isReserved_accumulatorName k) fun _ => ⟨k, rfl⟩, hv]

theorem Held.onward {p : Nat} (hp : Held m p) (h : Onward own r m n) : Held n p := by
  obtain ⟨f, k, hv⟩ := hp
  exact ⟨f, k, h.look_accumulator hv⟩

theorem Bare.onward {v : Value} (hv : Bare m v) (h : Onward own r m n) : Bare n v := by
  cases v with
  | list p => exact ⟨Nat.lt_of_lt_of_le hv.1 h.lists, fun hp => hv.2 (h.apart p hv.1 hp)⟩
  | _ => exact hv

theorem Fitting.onward {name : String} {v : Value} (hv : Fitting m name v)
    (h : Onward own r m n) : Fitting n name v := by
  cases hv with
  | plain hn hv => exact .plain hn (hv.onward h)
  | accumulator hp => exact .accumulator (Nat.lt_of_lt_of_le hp h.lists)
  | holder ht => exact .holder ht

theorem Onward.refl (own : Nat) (r : Reach) (m : Machine) : Onward own r m m :=
  ⟨fun c hc => ⟨c, hc, rfl, rfl, rfl, .refl _⟩, rfl, Nat.le_refl _, Nat.le_refl _,
    fun _ _ _ _ _ => rfl, fun _ _ hp => hp, fun _ _ hp => hp, fun _ _ _ => rfl⟩

/-- One run after another changes what either may, but what was opened or made only meanwhile does
not count. -/
theorem Onward.compose {k : Machine} {r' r'' : Reach} (h : Onward own r m n)
    (h' : Onward own r' n k)
    (hf : ∀ f < m.frames.size, r.frame? = some f ∨ r'.frame? = some f → r''.frame? = some f)
    (hp : ∀ p, Held m p → r.place? = some p ∨ r'.place? = some p → r''.place? = some p)
    (hc : r''.closed → r.closed ∧ r'.closed) : Onward own r'' m k where
  context c hc := by
    obtain ⟨c', hc', ht, ha, hs, hg⟩ := h.context c hc
    obtain ⟨c'', hc'', ht', ha', hs', hg'⟩ := h'.context c' hc'
    exact ⟨c'', hc'', ht'.trans ht, ha'.trans ha, hs'.trans hs, hg.trans hg'⟩
  active := h'.active.trans h.active
  lists := Nat.le_trans h.lists h'.lists
  frames := Nat.le_trans h.frames h'.frames
  kept f hlt name hn hr :=
    (h'.kept f (Nat.lt_of_lt_of_le hlt h.frames) name hn fun hr' => hr (hf f hlt (.inr hr'))).trans
      (h.kept f hlt name hn fun hr' => hr (hf f hlt (.inl hr')))
  apart p hlt hh := h.apart p hlt (h'.apart p (Nat.lt_of_lt_of_le hlt h.lists) hh)
  closed hr p hh := h.closed (hc hr).1 p (h'.closed (hc hr).2 p hh)
  held p hh hr :=
    (h'.held p (hh.onward h) fun hr' => hr (hp p hh (.inr hr'))).trans
      (h.held p hh fun hr' => hr (hp p hh (.inl hr')))

theorem Onward.trans {k : Machine} (h : Onward own r m n) (h' : Onward own r n k) :
    Onward own r m k :=
  h.compose h' (fun _ _ hr => hr.elim id id) (fun _ _ hr => hr.elim id id) fun hr => ⟨hr, hr⟩

theorem Onward.look_eq (h : Onward own .none m n) {f : Nat} (hf : f < m.frames.size)
    {name : String} (hn : Reserved.isReserved name) : look n f name = look m f name :=
  h.kept f hf name hn nofun

theorem Onward.list_eq (h : Onward own .none m n) {p : Nat} (hp : Held m p) :
    n.lists[p]? = m.lists[p]? :=
  h.held p hp nofun

/-- A run that changes nothing of the generator's is within any reach of a block. -/
theorem Onward.weaken (h : Onward own .none m n) (f p : Nat) : Onward own (.block f p) m n :=
  ⟨h.context, h.active, h.lists, h.frames, fun _ hf _ hn _ => h.look_eq hf hn, h.apart, nofun,
    fun _ hp _ => h.list_eq hp⟩

theorem Tame.lt_of_held {p : Nat} (hm : Tame own m) (hp : Held m p) : p < m.lists.size := by
  obtain ⟨f, k, hv⟩ := hp
  have fits := hm.fitting f _ _ hv
  generalize hname : accumulatorName k = name at fits
  cases fits with
  | plain hn hv => exact hv.1
  | accumulator hp => exact hp

/-- The block of a frame and a list that are new is nobody else's. -/
theorem Onward.leaveBlock {k : Machine} {f p : Nat} (hm : Tame own m)
    (h : Onward own .none m n) (h' : Onward own (.block f p) n k) (hf : m.frames.size ≤ f)
    (hp : m.lists.size ≤ p) : Onward own .none m k := by
  refine h.compose h' (fun g hg hr => ?_) (fun q hq hr => ?_)
    fun hc => absurd hc Bool.false_ne_true
  · rcases hr with hr | hr
    · cases hr
    · cases hr
      omega
  · have := hm.lt_of_held hq
    rcases hr with hr | hr
    · cases hr
    · cases hr
      omega

/-- A block that goes on in a new frame is still the same block. -/
theorem Onward.leaveFrame {k : Machine} {f f' p : Nat} (h : Onward own .none m n)
    (h' : Onward own (.block f' p) n k) (hf : m.frames.size ≤ f') :
    Onward own (.block f p) m k := by
  refine h.compose h' (fun g hg hr => ?_) (fun q _ hr => ?_)
    fun hc => absurd hc Bool.false_ne_true
  · rcases hr with hr | hr
    · cases hr
    · cases hr
      omega
  · exact hr.elim nofun id

end

/-! ## Runs -/

/-- If the run gives an answer from `m`, the machine is tame, what is out of reach is as it was, and
`Q` holds of the answer and the machine. -/
def After {α : Type} (own : Nat) (r : Reach) (m : Machine) (run : Run α)
    (Q : α → Machine → Prop) : Prop :=
  ∀ a n, run m = .ok a n → Tame own n ∧ Onward own r m n ∧ Q a n

namespace After

variable {α β γ : Type} {own : Nat} {r : Reach} {m : Machine} {Q : α → Machine → Prop}
  {R : β → Machine → Prop}

theorem pure {a : α} (hm : Tame own m) (h : Q a m) : After own r m (pure a) Q := by
  intro b n hn
  cases hn
  exact ⟨hm, .refl _ _ _, h⟩

theorem throw (e : Stop) : After own r m (throw e) Q := nofun

theorem fail (f : Fault) : After own r m (fail f) Q := nofun

theorem bind {run : Run α} {k : α → Run β} (h : After own r m run Q)
    (hk : ∀ a n, Tame own n → Onward own r m n → Q a n → After own r n (k a) R) :
    After own r m (run >>= k) R := by
  intro b n hn
  rw [run_bind] at hn
  cases hr : run m with
  | error e n' => rw [hr] at hn; cases hn
  | ok a n' =>
    rw [hr] at hn
    obtain ⟨tame, onward, hq⟩ := h a n' hr
    obtain ⟨tame', onward', hr'⟩ := hk a n' tame onward hq b n hn
    exact ⟨tame', onward.trans onward', hr'⟩

theorem mono {Q' : α → Machine → Prop} {run : Run α} (h : After own r m run Q)
    (hQ : ∀ a n, Onward own r m n → Q a n → Q' a n) : After own r m run Q' := by
  intro a n hn
  obtain ⟨tame, onward, hq⟩ := h a n hn
  exact ⟨tame, onward, hQ a n onward hq⟩

theorem tame {run : Run α} (h : After own r m run Q) :
    After own r m run fun a n => Tame own n ∧ Q a n := by
  intro a n hn
  obtain ⟨tame, onward, hq⟩ := h a n hn
  exact ⟨tame, onward, tame, hq⟩

theorem weaken {run : Run α} (h : After own .none m run Q) (f p : Nat) :
    After own (.block f p) m run Q := by
  intro a n hn
  obtain ⟨tame, onward, hq⟩ := h a n hn
  exact ⟨tame, onward.weaken f p, hq⟩

theorem map {run : Run α} {g : α → β} (h : After own r m run Q)
    (hg : ∀ a n, Q a n → R (g a) n) : After own r m (g <$> run) R := by
  rw [← bind_pure_comp]
  exact bind h fun a n hn _ hq => .pure hn (hg a n hq)

/-- `S` says of the machines at both ends of a sequence of runs what their answers are, and `P` says
it of one run. -/
theorem sequence {f : γ → Run α} {P : Machine → α → Machine → Prop}
    {S : Machine → List α → Machine → Prop} (xs : List γ) (hm : Tame own m)
    (nil : ∀ n, Tame own n → S n [] n)
    (cons : ∀ n n' k a as, Onward own r n n' → Onward own r n' k → P n a n' → S n' as k →
      S n (a :: as) k)
    (h : ∀ x ∈ xs, ∀ n, Tame own n → Onward own r m n → After own r n (f x) (P n)) :
    After own r m (xs.mapM f) (S m) := by
  induction xs generalizing m with
  | nil =>
    rw [List.mapM_nil]
    exact .pure hm (nil m hm)
  | cons x xs ih =>
    rw [List.mapM_cons]
    refine .bind (h x List.mem_cons_self m hm (.refl _ _ _)) fun a n hn ho ha => ?_
    have later := ih hn fun y hy n' hn' ho' => h y (List.mem_cons_of_mem _ hy) n' hn' (ho.trans ho')
    exact .bind later fun as k hk ho' has => .pure hk (cons m n k a as ho ho' ha has)

/-- Each run keeps what the runs before it have shown. -/
theorem mapM {f : γ → Run α} {P : Machine → α → Prop} (xs : List γ) (hm : Tame own m)
    (hP : ∀ n n' a, Onward own r n n' → P n a → P n' a)
    (h : ∀ x ∈ xs, ∀ n, Tame own n → Onward own r m n → After own r n (f x) fun a n' => P n' a) :
    After own r m (xs.mapM f) fun as n => ∀ a ∈ as, P n a :=
  sequence (P := fun _ a n => P n a) (S := fun _ as n => ∀ a ∈ as, P n a) xs hm (by simp)
    (fun _ _ _ _ _ _ ho ha has => List.forall_mem_cons.2 ⟨hP _ _ _ ho ha, has⟩) h

end After

/-! ## Elementary steps -/

section

variable {own : Nat} {r : Reach} {m n : Machine}

/-- A machine that differs in its variables, where those that changed are no accumulators and hold
what they may. -/
theorem reframed (hm : Tame own m) (hl : n.lists = m.lists) (hc : n.contexts = m.contexts)
    (ha : n.active = m.active) (hs : m.frames.size ≤ n.frames.size)
    (h : ∀ f name, look n f name = look m f name ∨
      (∀ k, name ≠ accumulatorName k) ∧ (Reserved.isReserved name → r.frame? = some f) ∧
        ∃ v, look n f name = some v ∧ Fitting m name v) :
    Tame own n ∧ Onward own r m n := by
  have accumulators (f k : Nat) :
      look n f (accumulatorName k) = look m f (accumulatorName k) := by
    rcases h f (accumulatorName k) with h | h
    · exact h
    · exact absurd rfl (h.1 k)
  have held (p : Nat) : Held n p ↔ Held m p := by
    simp only [Held, accumulators]
  have onward : Onward own r m n := by
    refine ⟨fun c hc' => ⟨c, hc ▸ hc', rfl, rfl, rfl, .refl _⟩, ha, hl ▸ Nat.le_refl _, hs, ?_,
      fun p _ hp => (held p).1 hp, fun _ p hp => (held p).1 hp, fun p _ _ => by rw [hl]⟩
    intro f _ name hn hr
    rcases h f name with h | ⟨hk, hf, -⟩
    · exact h
    · obtain ⟨k, rfl⟩ := hr (hf hn)
      exact absurd rfl (hk k)
  refine ⟨⟨hc ▸ hm.context, ha ▸ hm.active, ?_, ?_⟩, onward⟩
  · intro p items hp hh v hv
    rw [hl] at hp
    exact (hm.lists p items hp (fun hh' => hh ((held p).2 hh')) v hv).onward onward
  · intro f name v hv
    rcases h f name with h | ⟨-, -, w, hw, fits⟩
    · exact (hm.fitting f name v (h ▸ hv)).onward onward
    · obtain rfl : v = w := Option.some.inj (hv.symm.trans hw)
      exact fits.onward onward

/-- A machine that differs in numbers only. -/
theorem renumbered (hm : Tame own m) (hl : n.lists = m.lists) (hf : n.frames = m.frames)
    (hc : n.contexts = m.contexts) (ha : n.active = m.active) : Tame own n ∧ Onward own r m n :=
  reframed hm hl hc ha (hf ▸ Nat.le_refl _) fun f name => .inl (by rw [look, hf]; rfl)

/-- A machine that differs in the list in reach, and in lists of bare values that no accumulator
holds. -/
theorem relisted (hm : Tame own m) (hf : n.frames = m.frames) (hc : n.contexts = m.contexts)
    (ha : n.active = m.active) (hs : m.lists.size ≤ n.lists.size)
    (h : ∀ p, n.lists[p]? = m.lists[p]? ∨ Held m p ∧ r.place? = some p ∨
      ¬Held m p ∧ ∀ items, n.lists[p]? = some items → ∀ v ∈ items, Bare m v) :
    Tame own n ∧ Onward own r m n := by
  have looks (f : Nat) (name : String) : look n f name = look m f name := by
    rw [look, hf]
    rfl
  have held (p : Nat) : Held n p ↔ Held m p := by
    simp only [Held, looks]
  have onward : Onward own r m n := by
    refine ⟨fun c hc' => ⟨c, hc ▸ hc', rfl, rfl, rfl, .refl _⟩, ha, hs, hf ▸ Nat.le_refl _,
      fun f _ name _ _ => looks f name, fun p _ hp => (held p).1 hp,
      fun _ p hp => (held p).1 hp, fun p hp hr => ?_⟩
    rcases h p with h | ⟨-, hp'⟩ | ⟨hh, -⟩
    · exact h
    · exact absurd hp' hr
    · exact absurd hp hh
  refine ⟨⟨hc ▸ hm.context, ha ▸ hm.active, ?_, ?_⟩, onward⟩
  · intro p items hp hh v hv
    rcases h p with h | ⟨hh', -⟩ | ⟨-, h⟩
    · exact (hm.lists p items (h ▸ hp) (fun hh' => hh ((held p).2 hh')) v hv).onward onward
    · exact absurd ((held p).2 hh') hh
    · exact (h items hp v hv).onward onward
  · intro f name v hv
    exact (hm.fitting f name v (looks f name ▸ hv)).onward onward

theorem after_newIdentity (hm : Tame own m) : After own r m newIdentity fun _ n =>
    n.lists = m.lists := by
  intro a n hn
  cases hn
  obtain ⟨tame, onward⟩ := renumbered (r := r) (n := { m with identities := m.identities + 1 }) hm
    rfl rfl rfl rfl
  exact ⟨tame, onward, rfl⟩

theorem after_newPlace (hm : Tame own m) {items : Array Value} (hi : ∀ v ∈ items, Bare m v) :
    After own r m (newPlace items) fun p n => Bare n (.list p) := by
  intro p n hn
  cases hn
  have free : ¬Held m m.lists.size := fun hh => Nat.lt_irrefl _ (hm.lt_of_held hh)
  obtain ⟨tame, onward⟩ := relisted (r := r) (n := { m with lists := m.lists.push items }) hm
    rfl rfl rfl (by simp) fun p => by
      rw [Array.getElem?_push]
      split
      · next hp =>
        subst hp
        refine .inr (.inr ⟨free, fun l hl v hv => ?_⟩)
        cases hl
        exact hi v hv
      · exact .inl rfl
  refine ⟨tame, onward, by simp, ?_⟩
  exact free

theorem after_listAt (hm : Tame own m) {p : Nat} (hp : Bare m (.list p)) :
    After own r m (listAt p) fun items n => ∀ v ∈ items, Bare n v := by
  intro items n hn
  cases hn
  refine ⟨hm, .refl _ _ _, fun v hv => ?_⟩
  cases hl : m.lists[p]? with
  | none => simp [hl] at hv
  | some l =>
    rw [hl] at hv
    exact hm.lists p l hl hp.2 v hv

theorem after_appendTo (hm : Tame own m) {p : Nat} (hp : Bare m (.list p)) {items : List Value}
    (hi : ∀ v ∈ items, Bare m v) : After own r m (appendTo p items) fun _ _ => True := by
  intro _ n hn
  cases hn
  obtain ⟨tame, onward⟩ := relisted (r := r)
    (n := { m with lists := m.lists.modify p (·.appendList items) }) hm rfl rfl rfl (by simp)
    fun q => by
      by_cases hq : q = p
      · subst hq
        refine .inr (.inr ⟨hp.2, fun l hl v hv => ?_⟩)
        rcases mem_of_appended hl hv with ⟨old, ho, hv⟩ | ⟨-, hv⟩
        · exact hm.lists q old ho hp.2 v hv
        · exact hi v hv
      · exact .inl (by rw [Array.getElem?_modify, if_neg (Ne.symm hq)])
  exact ⟨tame, onward, trivial⟩

/-- Adding to a block under construction. -/
theorem after_accumulate (hm : Tame own m) {f p : Nat} (hp : Held m p) (items : List Value) :
    After own (.block f p) m (appendTo p items)
      fun _ n => n.lists[p]? = (m.lists[p]?).map (·.appendList items) := by
  intro _ n hn
  cases hn
  obtain ⟨tame, onward⟩ := relisted (r := .block f p)
    (n := { m with lists := m.lists.modify p (·.appendList items) }) hm rfl rfl rfl (by simp)
    fun q => by
      rw [Array.getElem?_modify]
      split
      · next hq => exact .inr (.inl ⟨hq ▸ hp, congrArg some hq⟩)
      · exact .inl rfl
  refine ⟨tame, onward, ?_⟩
  change (m.lists.modify p (·.appendList items))[p]? = _
  rw [Array.getElem?_modify, if_pos rfl]

/-! ### Variables -/

theorem look_openFrame (f : Nat) (name : String) : look m.openFrame f name = look m f name := by
  unfold look Machine.openFrame
  rw [Array.getElem?_push]
  split
  · next hf =>
    subst hf
    simp
  · rfl

/-- A frame that was just opened is empty, so what it adds is found behind it. -/
theorem after_nestedIn (hm : Tame own m) (env : Scoping) :
    After own r m (nestedIn env) fun inner n => inner = m.frames.size :: env ∧ n = m.openFrame := by
  intro inner n hn
  cases hn
  obtain ⟨tame, onward⟩ := reframed (r := r) (n := m.openFrame) hm rfl rfl rfl
    (by simp [Machine.openFrame]) fun f name => .inl (look_openFrame f name)
  exact ⟨tame, onward, rfl, rfl⟩

theorem look_update (m : Machine) {frame : Nat} (hf : frame < m.frames.size) (name : String)
    (v : Value) (f : Nat) (other : String) :
    look (m.update frame name v) f other =
      if f = frame ∧ other = name then some v else look m f other := by
  by_cases hframe : f = frame
  · subst hframe
    have held := Array.getElem?_eq_getElem hf
    rw [look, m.frames_update_self, look, held]
    simp only [Option.map_some, Option.bind_some, updated, List.lookup_cons, true_and]
    by_cases hother : other = name
    · simp [hother]
    · rw [beq_eq_false_iff_ne.2 hother, if_neg hother]
      exact lookup_filter_ne hother _
  · rw [look, m.frames_update_of_ne (Ne.symm hframe), if_neg (by simp [hframe])]
    rfl

theorem update_of_le (m : Machine) {frame : Nat} (hf : m.frames.size ≤ frame) (name : String)
    (v : Value) : m.update frame name v = m := by
  have same : m.frames.modify frame (updated name v) = m.frames := by
    apply Array.ext_getElem?
    intro i
    rw [Array.getElem?_modify]
    split
    · next hi =>
      subst hi
      rw [Array.getElem?_eq_none hf]
      rfl
    · rfl
  rw [Machine.update, same]

/-- An open variable of any frame may take a bare value. -/
theorem updated_open (hm : Tame own m) {name : String} {v : Value} (hn : isOpenName name)
    (hv : Bare m v) (frame : Nat) :
    Tame own (m.update frame name v) ∧ Onward own r m (m.update frame name v) := by
  by_cases hf : frame < m.frames.size
  · refine reframed hm rfl rfl rfl (by simp [Machine.update]) fun f other => ?_
    rw [look_update m hf]
    split
    · next h =>
      obtain ⟨rfl, rfl⟩ := h
      have hr : Reserved.isReserved other = false := by
        simp only [isOpenName, Bool.and_eq_true, Bool.not_eq_true'] at hn
        exact hn.1
      refine .inr ⟨?_, by simp [hr], v, rfl, .plain hn hv⟩
      rintro k rfl
      simp [isReserved_accumulatorName] at hr
    · exact .inl rfl
  · rw [update_of_le m (by omega)]
    exact ⟨hm, .refl _ _ _⟩

theorem after_define (hm : Tame own m) {name : String} {v : Value} (hn : isOpenName name)
    (hv : Bare m v) (env : Scoping) :
    After own r m (define env name v) fun _ _ => True := by
  cases env with
  | nil => exact .pure hm trivial
  | cons frame env =>
    intro _ n hr
    cases hr
    obtain ⟨tame, onward⟩ := updated_open (r := r) hm hn hv frame
    exact ⟨tame, onward, trivial⟩

theorem after_assignVariable (hm : Tame own m) {name : String} {v : Value} (hn : isOpenName name)
    (hv : Bare m v) (env : Scoping) :
    After own r m (assignVariable env name v) fun _ _ => True := by
  intro _ n hr
  rw [assignVariable_eq] at hr
  split at hr
  · cases hr
    exact ⟨hm, .refl _ _ _, trivial⟩
  · next frame _ =>
    cases hr
    obtain ⟨tame, onward⟩ := updated_open (r := r) hm hn hv frame
    exact ⟨tame, onward, trivial⟩

end

end Stencil.Quotation
