import Mathlib.Data.List.Forall2
import Stencil.Proofs.Expansion.Frames
import Stencil.Reserved

/-!
# Two runs side by side

A generator program and the template it was made from run the same generation-time code, but the
program has frames of its own around it: for its blocks, and for the accumulators of generated
code. A list of layers says how the frames that the two see belong together: a layer is a frame
that both have, or one that only the program has.

`Follows own L L' Q f g` says that `f`, run with the frames of the program, and `g`, run with those
of the template, end alike from all machines that agree along `L`, and agree along `L'` afterwards.

Results:

* `Follows.bind`, `Follows.inOrder`, `Follows.forEachItem` – such runs compose;
* `Follows.nestedLeft`, `Follows.nestedBoth` – opening a frame adds a layer;
* `follows_eval` – evaluating an expression without lambdas and reserved names follows itself.
-/
namespace Stencil.Expansion

/-! ## Layers -/

/-- A frame that both runs have, or one with these variables that only the first has. -/
inductive Layer where
  | both (f g : Nat)
  | left (f : Nat) (vars : List (String × Value))

namespace Layer

/-- The frames that the first run sees. -/
def lefts : List Layer → Scoping
  | [] => []
  | .both f _ :: L => f :: lefts L
  | .left f _ :: L => f :: lefts L

/-- The frames that the second run sees. -/
def rights : List Layer → Scoping
  | [] => []
  | .both _ g :: L => g :: rights L
  | .left _ _ :: L => rights L

end Layer

open Layer

/-- The globals that generator programs use by name. -/
def programGlobals : List String := ["Syntax", "Context", "TokenKind", "DeferredCallForm"]

/-- Those are no variables of the quoter. -/
theorem not_isReserved_of_mem_programGlobals {name : String} (h : name ∈ programGlobals) :
    Reserved.isReserved name = false := by
  have each : ∀ s ∈ programGlobals, Reserved.isReserved s = false := by decide +kernel
  exact each name h

/-- Whether a template variable of that name leaves alone what generator programs use. -/
def isOpenName (name : String) : Bool :=
  !Reserved.isReserved name && !programGlobals.contains name

/-- Along the layers, frames that both runs have hold the same plain variables with open names,
and frames of the first run alone hold reserved ones. No frame occurs twice. -/
def Layered (m m' : Machine) : List Layer → Prop
  | [] => True
  | .both f g :: L => f ∉ lefts L ∧ g ∉ rights L ∧
    (∃ vars, m.frames[f]? = some vars ∧ m'.frames[g]? = some vars ∧
      ∀ e ∈ vars, isOpenName e.1 ∧ e.2.isPlain) ∧ Layered m m' L
  | .left f vars :: L => f ∉ lefts L ∧ m.frames[f]? = some vars ∧
    (∀ e ∈ vars, Reserved.isReserved e.1) ∧ Layered m m' L

/-- The machines are alike but for their frames, which belong together along `L`. -/
structure Agree (own : Nat) (L : List Layer) (m m' : Machine) : Prop where
  alike : Alike own m m'
  layered : Layered m m' L

theorem Layered.congr {m m' n n' : Machine} {L : List Layer} (h : Layered m m' L)
    (hl : ∀ f ∈ lefts L, n.frames[f]? = m.frames[f]?)
    (hr : ∀ g ∈ rights L, n'.frames[g]? = m'.frames[g]?) : Layered n n' L := by
  induction L with
  | nil => trivial
  | cons layer L ih => cases layer with
    | both f g =>
      obtain ⟨hf, hg, ⟨vars, hm, hm', hv⟩, hL⟩ := h
      refine ⟨hf, hg, ⟨vars, ?_, ?_, hv⟩, ih hL ?_ ?_⟩
      · rw [hl f (by simp [lefts]), hm]
      · rw [hr g (by simp [rights]), hm']
      · exact fun x hx => hl x (by simp [lefts, hx])
      · exact fun x hx => hr x (by simp [rights, hx])
    | left f vars =>
      obtain ⟨hf, hm, hv, hL⟩ := h
      refine ⟨hf, ?_, hv, ih hL ?_ ?_⟩
      · rw [hl f (by simp [lefts]), hm]
      · exact fun x hx => hl x (by simp [lefts, hx])
      · exact fun x hx => hr x (by simpa [rights] using hx)

theorem Layered.lt_left {m m' : Machine} {L : List Layer} (h : Layered m m' L) {f : Nat}
    (hf : f ∈ lefts L) : f < m.frames.size := by
  induction L with
  | nil => simp [lefts] at hf
  | cons layer L ih => cases layer with
    | both f' g =>
      obtain ⟨-, -, ⟨vars, hm, -⟩, hL⟩ := h
      rcases List.mem_cons.1 hf with rfl | hf
      · exact (Array.getElem?_eq_some_iff.1 hm).1
      · exact ih hL hf
    | left f' vars =>
      obtain ⟨-, hm, -, hL⟩ := h
      rcases List.mem_cons.1 hf with rfl | hf
      · exact (Array.getElem?_eq_some_iff.1 hm).1
      · exact ih hL hf

theorem Layered.lt_right {m m' : Machine} {L : List Layer} (h : Layered m m' L) {g : Nat}
    (hg : g ∈ rights L) : g < m'.frames.size := by
  induction L with
  | nil => simp [rights] at hg
  | cons layer L ih => cases layer with
    | both f g' =>
      obtain ⟨-, -, ⟨vars, -, hm, -⟩, hL⟩ := h
      rcases List.mem_cons.1 hg with rfl | hg
      · exact (Array.getElem?_eq_some_iff.1 hm).1
      · exact ih hL hg
    | left f vars => exact ih h.2.2.2 hg

theorem Layered.tail {m m' : Machine} {layer : Layer} {L : List Layer}
    (h : Layered m m' (layer :: L)) : Layered m m' L := by
  cases layer with
  | both f g => exact h.2.2.2
  | left f vars => exact h.2.2.2

/-! ## Variables along layers -/

theorem lookup_eq_none_of_forall {name : String} {vars : List (String × Value)} {p : String → Bool}
    (h : ∀ e ∈ vars, p e.1) (hn : p name = false) : vars.lookup name = none := by
  rw [List.lookup_eq_none_iff]
  intro e he
  have := h e he
  simp only [ne_eq, bne_iff_ne]
  rintro rfl
  simp [hn] at this

theorem mem_of_lookup {name : String} {vars : List (String × Value)} {v : Value}
    (h : vars.lookup name = some v) : (name, v) ∈ vars := by
  obtain ⟨before, after, rfl, -⟩ := List.lookup_eq_some_iff.1 h
  simp

/-- A name that is not reserved means the same to both runs. -/
theorem Layered.valueOf? {m m' : Machine} {L : List Layer} (h : Layered m m' L) {name : String}
    (hn : Reserved.isReserved name = false) :
    m.valueOf? (lefts L) name = m'.valueOf? (rights L) name ∧
      ∀ v, m.valueOf? (lefts L) name = some v → isOpenName name ∧ v.isPlain := by
  induction L with
  | nil => simp [Machine.valueOf?, lefts, rights]
  | cons layer L ih => cases layer with
    | both f g =>
      obtain ⟨-, -, ⟨vars, hm, hm', hv⟩, hL⟩ := h
      obtain ⟨ihe, ihp⟩ := ih hL
      simp only [Machine.valueOf?, lefts, rights, List.findSome?_cons, hm, hm', Option.bind_some]
      cases hl : vars.lookup name with
      | none => exact ⟨ihe, ihp⟩
      | some w =>
        refine ⟨rfl, fun v hvw => ?_⟩
        cases hvw
        exact hv (name, w) (mem_of_lookup hl)
    | left f vars =>
      obtain ⟨-, hm, hv, hL⟩ := h
      have hnone := lookup_eq_none_of_forall hv hn
      simpa only [Machine.valueOf?, lefts, rights, List.findSome?_cons, hm, Option.bind_some, hnone]
        using ih hL

/-- The frame that holds the variable an assignment changes. -/
def holderFrame? (m : Machine) (env : Scoping) (name : String) : Option Nat :=
  env.find? fun frame => ((m.frames[frame]?).bind (·.lookup name)).isSome

/-- What an assignment leaves of a frame. -/
def updated (name : String) (v : Value) (vars : List (String × Value)) : List (String × Value) :=
  (name, v) :: vars.filter (·.1 ≠ name)

theorem lookup_filter_ne {name other : String} (h : other ≠ name) (vars : List (String × Value)) :
    (vars.filter (·.1 ≠ name)).lookup other = vars.lookup other := by
  induction vars with
  | nil => rfl
  | cons e vars ih =>
    obtain ⟨x, v⟩ := e
    by_cases hx : x = name
    · subst hx
      rw [List.filter_cons_of_neg (by simp), ih, List.lookup_cons, beq_eq_false_iff_ne.2 h]
    · rw [List.filter_cons_of_pos (by simpa using hx), List.lookup_cons, List.lookup_cons, ih]

/-- The machine after a frame was changed by an assignment. -/
def Machine.update (m : Machine) (frame : Nat) (name : String) (v : Value) : Machine :=
  { m with frames := m.frames.modify frame (updated name v) }

theorem Machine.frames_update_self (m : Machine) (frame : Nat) (name : String) (v : Value) :
    (m.update frame name v).frames[frame]? = (m.frames[frame]?).map (updated name v) := by
  simp only [update, Array.getElem?_modify, if_pos]

theorem Machine.frames_update_of_ne (m : Machine) {frame other : Nat} (h : frame ≠ other)
    (name : String) (v : Value) :
    (m.update frame name v).frames[other]? = m.frames[other]? := by
  simp only [update, Array.getElem?_modify, if_neg h]

theorem Machine.frames_update_outside (m : Machine) {frame : Nat} {env : Scoping}
    (h : frame ∉ env) (name : String) (v : Value) :
    ∀ x ∈ env, (m.update frame name v).frames[x]? = m.frames[x]? := by
  intro x hx
  refine m.frames_update_of_ne ?_ name v
  rintro rfl
  exact h hx

theorem Alike.update {own : Nat} {m m' : Machine} (h : Alike own m m') (f g : Nat)
    (name : String) (v : Value) : Alike own (m.update f name v) (m'.update g name v) :=
  ⟨h.lists, h.identities, h.contexts, h.active, h.plain, h.owned⟩

theorem assignVariable_eq (env : Scoping) (name : String) (v : Value) (m : Machine) :
    assignVariable env name v m = match holderFrame? m env name with
      | none => .ok false m
      | some frame => .ok true (m.update frame name v) := by
  change (match holderFrame? m env name with
    | none => (pure false : Run Bool)
    | some frame => (do set (m.update frame name v); return true)) m = _
  cases holderFrame? m env name <;> rfl

/-- Both runs find the variable in frames that belong together, or neither finds it. -/
theorem Layered.assign {m m' : Machine} {L : List Layer} (h : Layered m m' L) {name : String}
    {v : Value} (hn : Reserved.isReserved name = false) (hv : v.isPlain) :
    (holderFrame? m (lefts L) name = none ∧ holderFrame? m' (rights L) name = none) ∨
      ∃ f g, holderFrame? m (lefts L) name = some f ∧ holderFrame? m' (rights L) name = some g ∧
        Layered (m.update f name v) (m'.update g name v) L := by
  induction L with
  | nil => exact .inl ⟨rfl, rfl⟩
  | cons layer L ih => cases layer with
    | both f g =>
      obtain ⟨hf, hg, ⟨vars, hm, hm', hvars⟩, hL⟩ := h
      simp only [holderFrame?, lefts, rights, List.find?_cons, hm, hm', Option.bind_some]
      cases hl : vars.lookup name with
      | some w =>
        refine .inr ⟨f, g, rfl, rfl, hf, hg, ⟨updated name v vars, ?_, ?_, ?_⟩, hL.congr ?_ ?_⟩
        · rw [m.frames_update_self, hm, Option.map_some]
        · rw [m'.frames_update_self, hm', Option.map_some]
        · intro e he
          rcases List.mem_cons.1 he with rfl | he
          · exact ⟨(hvars _ (mem_of_lookup hl)).1, hv⟩
          · exact hvars e (List.mem_filter.1 he).1
        · exact m.frames_update_outside hf name v
        · exact m'.frames_update_outside hg name v
      | none =>
        rcases ih hL with hnone | ⟨f', g', hf', hg', hL'⟩
        · exact .inl hnone
        · have hne : f' ≠ f := fun e => hf (e ▸ List.mem_of_find?_eq_some hf')
          have hne' : g' ≠ g := fun e => hg (e ▸ List.mem_of_find?_eq_some hg')
          refine .inr ⟨f', g', hf', hg', hf, hg, ⟨vars, ?_, ?_, hvars⟩, hL'⟩
          · rw [m.frames_update_of_ne hne, hm]
          · rw [m'.frames_update_of_ne hne', hm']
    | left f vars =>
      obtain ⟨hf, hm, hvars, hL⟩ := h
      have hnone := lookup_eq_none_of_forall hvars hn
      simp only [holderFrame?, lefts, rights, List.find?_cons, hm, Option.bind_some, hnone,
        Option.isSome_none]
      rcases ih hL with hnone' | ⟨f', g', hf', hg', hL'⟩
      · exact .inl hnone'
      · have hne : f' ≠ f := fun e => hf (e ▸ List.mem_of_find?_eq_some hf')
        refine .inr ⟨f', g', hf', hg', hf, ?_, hvars, hL'⟩
        rw [m.frames_update_of_ne hne, hm]

/-- The machine with a new frame. -/
def Machine.openFrame (m : Machine) : Machine := { m with frames := m.frames.push [] }

theorem Machine.frames_openFrame_of_lt {m : Machine} {f : Nat} (h : f < m.frames.size) :
    m.openFrame.frames[f]? = m.frames[f]? := by
  simp [openFrame, Array.getElem?_push, Nat.ne_of_lt h]

theorem Agree.openBoth {own : Nat} {L : List Layer} {m m' : Machine} (h : Agree own L m m') :
    Agree own (.both m.frames.size m'.frames.size :: L) m.openFrame m'.openFrame := by
  refine ⟨⟨h.alike.lists, h.alike.identities, h.alike.contexts, h.alike.active, h.alike.plain,
    h.alike.owned⟩, ?_, ?_, ⟨[], ?_, ?_, ?_⟩, h.layered.congr (fun f hf => ?_) fun g hg => ?_⟩
  · exact fun hf => Nat.lt_irrefl _ (h.layered.lt_left hf)
  · exact fun hg => Nat.lt_irrefl _ (h.layered.lt_right hg)
  · simp [Machine.openFrame]
  · simp [Machine.openFrame]
  · simp
  · exact Machine.frames_openFrame_of_lt (h.layered.lt_left hf)
  · exact Machine.frames_openFrame_of_lt (h.layered.lt_right hg)

theorem Agree.openLeft {own : Nat} {L : List Layer} {m m' : Machine} (h : Agree own L m m') :
    Agree own (.left m.frames.size [] :: L) m.openFrame m' := by
  refine ⟨⟨h.alike.lists, h.alike.identities, h.alike.contexts, h.alike.active, h.alike.plain,
    h.alike.owned⟩, ?_, ?_, ?_, h.layered.congr (fun f hf => ?_) fun _ _ => rfl⟩
  · exact fun hf => Nat.lt_irrefl _ (h.layered.lt_left hf)
  · simp [Machine.openFrame]
  · simp
  · exact Machine.frames_openFrame_of_lt (h.layered.lt_left hf)

/-! ## Runs that follow each other -/

/-- From machines that agree along `L` both runs stop for one reason, or give answers related by
`Q` and machines that agree along `L'`. -/
def Follows {α β : Type} (own : Nat) (L L' : List Layer) (Q : α → β → Prop)
    (f : Run α) (g : Run β) : Prop :=
  ∀ m m', Agree own L m m' → Ends (fun a b n n' => Q a b ∧ Agree own L' n n') (f m) (g m')

namespace Follows

variable {own : Nat} {α β γ δ : Type} {L L' L'' : List Layer} {Q : α → β → Prop} {R : γ → δ → Prop}

theorem bind {f : Run α} {g : Run β} {k : α → Run γ} {k' : β → Run δ} (h : Follows own L L' Q f g)
    (hk : ∀ a b, Q a b → Follows own L' L'' R (k a) (k' b)) :
    Follows own L L'' R (f >>= k) (g >>= k') := by
  intro m m' hm
  exact (h m m' hm).bind fun a b n n' hr => hk a b hr.1 n n' hr.2

theorem pure {a : α} {b : β} (h : Q a b) : Follows own L L Q (pure a) (pure b) :=
  fun _ _ hm => ⟨h, hm⟩

theorem fail (f : Fault) : Follows own L L' Q (fail f) (Expansion.fail f) := fun _ _ _ => rfl

theorem mapRight {f : Run α} {g : Run β} {t : β → δ} {R : α → δ → Prop}
    (h : Follows own L L' Q f g) (ht : ∀ a b, Q a b → R a (t b)) :
    Follows own L L' R f (t <$> g) := by
  rw [← bind_pure f, ← bind_pure_comp]
  exact bind h fun a b hq => .pure (ht a b hq)

/-- The outer layers still agree when an inner one is left. -/
theorem leave (layer : Layer) {f : Run α} {g : Run β} (h : Follows own L (layer :: L') Q f g) :
    Follows own L L' Q f g :=
  fun m m' hm => (h m m' hm).mono fun _ _ _ _ hr => ⟨hr.1, hr.2.alike, hr.2.layered.tail⟩

theorem of_steady {P : α → Prop} {f : Run α} (h : Steady own P f) :
    Follows own L L (fun a b => a = b ∧ P a) f f := by
  intro m m' hm
  refine (h m m' hm.alike).mono ?_
  rintro a b n n' ⟨hab, ha, hn, hf, hf'⟩
  exact ⟨⟨hab, ha⟩, hn, hm.layered.congr (fun f _ => by rw [hf]) (fun g _ => by rw [hf'])⟩

/-- A steady run that both make, and what each does with its answer. -/
theorem steady {P : α → Prop} {f : Run α} {k : α → Run γ} {k' : α → Run δ} (h : Steady own P f)
    (hk : ∀ a, P a → Follows own L L' R (k a) (k' a)) : Follows own L L' R (f >>= k) (f >>= k') :=
  bind (of_steady h) fun a _ hab => hab.1 ▸ hk a hab.2

/-- A frame that only the first run opens. -/
theorem nestedLeft {k : Scoping → Run γ} {g : Run δ}
    (h : ∀ f, Follows own (.left f [] :: L) L' R (k (f :: lefts L)) g) :
    Follows own L L' R (nestedIn (lefts L) >>= k) g :=
  fun _ _ hm => h _ _ _ hm.openLeft

/-- A frame that both open. -/
theorem nestedBoth {k : Scoping → Run γ} {k' : Scoping → Run δ}
    (h : ∀ f g, Follows own (.both f g :: L) L' R (k (f :: lefts L)) (k' (g :: rights L))) :
    Follows own L L' R (nestedIn (lefts L) >>= k) (nestedIn (rights L) >>= k') :=
  fun _ _ hm => h _ _ _ _ hm.openBoth

/-- A reserved variable that only the first run defines. -/
theorem defineLeft {f : Nat} {vars : List (String × Value)} {name : String} {v : Value}
    {k : Unit → Run γ} {g : Run δ} (hn : Reserved.isReserved name)
    (h : Follows own (.left f (updated name v vars) :: L) L' R (k ()) g) :
    Follows own (.left f vars :: L) L' R (define (f :: lefts L) name v >>= k) g := by
  intro m m' hm
  obtain ⟨hf, hv, hr, hL⟩ := hm.layered
  refine h (m.update f name v) m' ⟨⟨hm.alike.lists, hm.alike.identities, hm.alike.contexts,
    hm.alike.active, hm.alike.plain,
      hm.alike.owned⟩, hf, ?_, ?_, ?_⟩
  · rw [m.frames_update_self, hv, Option.map_some]
  · intro e he
    rcases List.mem_cons.1 he with rfl | he
    · exact hn
    · exact hr e (List.mem_filter.1 he).1
  · exact hL.congr (m.frames_update_outside hf name v) fun _ _ => rfl

/-- An open variable that both define. -/
theorem defineBoth {f g : Nat} {name : String} {v : Value} (hn : isOpenName name)
    (hv : v.isPlain) :
    Follows own (.both f g :: L) (.both f g :: L) (fun _ _ => True)
      (define (f :: lefts L) name v) (define (g :: rights L) name v) := by
  intro m m' hm
  obtain ⟨hf, hg, ⟨vars, hm1, hm2, hvars⟩, hL⟩ := hm.layered
  refine ⟨trivial, hm.alike.update f g name v, hf, hg,
    ⟨updated name v vars, ?_, ?_, ?_⟩, hL.congr ?_ ?_⟩
  · exact (m.frames_update_self f name v).trans (by rw [hm1, Option.map_some])
  · exact (m'.frames_update_self g name v).trans (by rw [hm2, Option.map_some])
  · intro e he
    rcases List.mem_cons.1 he with rfl | he
    · exact ⟨hn, hv⟩
    · exact hvars e (List.mem_filter.1 he).1
  · exact m.frames_update_outside hf name v
  · exact m'.frames_update_outside hg name v

theorem mapM {as : List γ} {bs : List δ} {f : γ → Run α} {g : δ → Run β}
    (h : List.Forall₂ (fun a b => Follows own L L Q (f a) (g b)) as bs) :
    Follows own L L (List.Forall₂ Q) (as.mapM f) (bs.mapM g) := by
  induction h with
  | nil => exact .pure .nil
  | cons hab _ ih =>
    rw [List.mapM_cons, List.mapM_cons]
    exact .bind hab fun a b hq => .bind ih fun as bs hqs => .pure (.cons hq hqs)

theorem mapM_same {P : α → Prop} {f g : γ → Run α} (xs : List γ)
    (h : ∀ x ∈ xs, Follows own L L (fun a b => a = b ∧ P a) (f x) (g x)) :
    Follows own L L (fun as bs => as = bs ∧ ∀ a ∈ as, P a) (xs.mapM f) (xs.mapM g) := by
  induction xs with
  | nil => exact .pure ⟨rfl, by simp⟩
  | cons x xs ih =>
    rw [List.mapM_cons, List.mapM_cons]
    refine .bind (h x List.mem_cons_self) ?_
    rintro a _ ⟨rfl, ha⟩
    refine .bind (ih fun y hy => h y (List.mem_cons_of_mem _ hy)) ?_
    rintro as _ ⟨rfl, has⟩
    exact .pure ⟨rfl, by simpa using ⟨ha, has⟩⟩

/-- Both ways of ending a statement are the same, and it is no return. -/
def SameFlow (x y : Flow) : Prop := x = y ∧ ∀ v, x ≠ .returned v

theorem inOrder {as : List γ} {bs : List δ} {f : γ → Run Flow} {g : δ → Run Flow}
    (h : List.Forall₂ (fun a b => Follows own L L SameFlow (f a) (g b)) as bs) :
    Follows own L L SameFlow (Expansion.inOrder f as) (Expansion.inOrder g bs) := by
  induction h with
  | nil => exact .pure ⟨rfl, by simp⟩
  | cons hab _ ih =>
    rw [Expansion.inOrder, Expansion.inOrder]
    refine .bind hab ?_
    rintro x y ⟨rfl, hx⟩
    cases x with
    | ongoing => exact ih
    | _ => exact .pure ⟨rfl, hx⟩

theorem forEachItem {f g : Value → Run Flow} (items : List Value) (hi : ∀ v ∈ items, v.isPlain)
    (h : ∀ v, v.isPlain → Follows own L L SameFlow (f v) (g v)) :
    Follows own L L SameFlow (Expansion.forEachItem f items) (Expansion.forEachItem g items) := by
  rw [forEachItem_eq, forEachItem_eq]
  refine .bind (.inOrder (List.forall₂_same.2 fun v hv => .bind (h v (hi v hv)) ?_)) ?_
  · rintro x _ ⟨rfl, hx⟩
    exact .pure ⟨rfl, by simpa using hx⟩
  · rintro x _ ⟨rfl, hx⟩
    exact .pure ⟨rfl, by simpa using hx⟩

theorem ensuring {f : Run α} {g : Run β} (h : Follows own L L' Q f g) {cleanUp : Machine → Machine}
    (hc : ∀ n n', Agree own L' n n' → Agree own L' (cleanUp n) (cleanUp n')) :
    Follows own L L' Q (Expansion.ensuring f cleanUp) (Expansion.ensuring g cleanUp) := by
  intro m m' hm
  have h := h m m' hm
  unfold Expansion.ensuring
  cases hr : f m with
  | error e n => cases hr' : g m' with
    | error e' n' => rw [hr, hr'] at h; exact h
    | ok b n' => rw [hr, hr'] at h; exact h.elim
  | ok a n => cases hr' : g m' with
    | error e' n' => rw [hr, hr'] at h; exact h.elim
    | ok b n' =>
      rw [hr, hr'] at h
      exact ⟨h.1, hc n n' h.2⟩

theorem inNestedScope {context : Nat} {f : Run α} {g : Run β} (h : Follows own L L' Q f g) :
    Follows own L L' Q (Expansion.inNestedScope context f) (Expansion.inNestedScope context g) := by
  refine steady (steady_onContext _ _) fun outer _ => ensuring h fun n n' hn => ?_
  refine ⟨⟨hn.alike.lists, hn.alike.identities, ?_, hn.alike.active, hn.alike.plain, ?_⟩, ?_⟩
  · simp only [hn.alike.contexts]
  · exact Nat.lt_of_lt_of_eq hn.alike.owned Array.size_modify.symm
  · exact hn.layered.congr (fun _ _ => rfl) fun _ _ => rfl

end Follows

/-! ## Generation-time expressions -/

/-- The node and all below it are neither lambdas nor queries, and use no reserved name. -/
def IsDirect (n : Node) : Prop :=
  ∀ m ∈ n.preorder, m.kind ≠ .lambda ∧ m.kind ≠ .query ∧
    ∀ t ∈ m.tokens, t.kind = .identifier → Reserved.isReserved t.text = false

theorem IsDirect.child {n m : Node} (h : IsDirect n) (hm : m ∈ n.nodes) : IsDirect m :=
  fun x hx => h x (Node.preorder_subset hm hx)

theorem IsDirect.name {n : Node} (h : IsDirect n) : Reserved.isReserved n.nameOrEmpty = false := by
  unfold Node.nameOrEmpty Node.name? Node.tokenOfKind?
  cases ht : n.tokens.find? (·.kind == .identifier) with
  | none => decide
  | some t =>
    have hk := List.find?_some ht
    exact (h n n.mem_preorder_self).2.2 t (List.mem_of_find?_eq_some ht) (by simpa using hk)

theorem run_get (m : Machine) : (get : Run Machine) m = .ok m m := rfl

theorem valueNamed_some {own : Nat} {env : Scoping} {name : String} {m : Machine} {v : Value}
    (h : m.valueOf? env name = some v) : valueNamed own env name m = .ok v m := by
  rw [valueNamed, run_bind, run_get]
  simp only [h]
  rfl

theorem valueNamed_none {own : Nat} {env : Scoping} {name : String} {m : Machine}
    (h : m.valueOf? env name = none) :
    valueNamed own env name m = (contextAt own >>= fun c => globalNamed c.target name) m := by
  rw [valueNamed, run_bind, run_get]
  simp only [h]

/-- Both runs read the same plain value from a variable or a global. -/
theorem follows_variable {L : List Layer} (own : Nat) {name : String}
    (hn : Reserved.isReserved name = false) :
    Follows own L L (fun v w => v = w ∧ v.isPlain)
      (valueNamed own (lefts L) name) (valueNamed own (rights L) name) := by
  intro m m' hm
  obtain ⟨heq, hplain⟩ := hm.layered.valueOf? hn
  cases hv : m.valueOf? (lefts L) name with
  | some v =>
    rw [valueNamed_some hv, valueNamed_some (heq ▸ hv)]
    exact ⟨⟨rfl, (hplain v hv).2⟩, hm⟩
  | none =>
    rw [valueNamed_none hv, valueNamed_none (heq ▸ hv)]
    exact Follows.of_steady (.bind (steady_contextAt own) fun c _ => steady_globalNamed _ name)
      m m' hm

theorem follows_assignTo {own : Nat} {L : List Layer} {target : Node} {v : Value}
    (hd : IsDirect target) (hv : v.isPlain) : Follows own L L (fun _ _ => True)
      (assignTo (lefts L) target v) (assignTo (rights L) target v) := by
  unfold assignTo
  split
  · exact .fail _
  · have found : Follows own L L Eq (assignVariable (lefts L) target.nameOrEmpty v)
        (assignVariable (rights L) target.nameOrEmpty v) := by
      intro m m' hm
      rw [assignVariable_eq, assignVariable_eq]
      rcases hm.layered.assign hd.name hv with ⟨hl, hr⟩ | ⟨f, g, hl, hr, hL⟩
      · rw [hl, hr]; exact ⟨rfl, hm⟩
      · rw [hl, hr]; exact ⟨rfl, hm.alike.update f g _ v, hL⟩
    refine .bind found ?_
    rintro x y rfl
    cases x with
    | true => exact .pure trivial
    | false => exact .fail _

/-- Evaluation follows itself, whatever budgets the two runs have beyond the size of the
expression. -/
theorem follows_eval {L : List Layer} (own : Nat) {b b' : Nat} {n : Node} (hd : IsDirect n)
    (hb : n.size ≤ b) (hb' : n.size ≤ b') :
    Follows own L L (fun v w => v = w ∧ v.isPlain) (eval own b (lefts L) n)
      (eval own b' (rights L) n) := by
  induction b generalizing b' n with
  | zero => have := n.size_pos; omega
  | succ b ih =>
    obtain ⟨b', rfl⟩ : ∃ c, b' = c + 1 := ⟨b' - 1, by have := n.size_pos; omega⟩
    have part {m : Node} (hm : m ∈ n.nodes) :
        Follows own L L (fun v w => v = w ∧ v.isPlain) (eval own b (lefts L) m)
          (eval own b' (rights L) m) := by
      have := Node.size_lt_of_mem hm
      exact ih (hd.child hm) (by omega) (by omega)
    -- the parts are asked for by index and evaluated one after another
    have childAt {γ : Type} {R : γ → γ → Prop} (i : Nat) {k k' : Value → Run γ}
        (hk : ∀ v, v.isPlain → Follows own L L R (k v) (k' v)) :
        Follows own L L R (childOf n i >>= fun m => eval own b (lefts L) m >>= k)
          (childOf n i >>= fun m => eval own b' (rights L) m >>= k') :=
      .steady (steady_childOf n i) fun m hm => .bind (part (Node.mem_of_node? hm)) fun v w hvw =>
        hvw.1 ▸ hk v hvw.2
    have done {run : Run Value} (h : Steady own (fun v => v.isPlain) run) :
        Follows own L L (fun v w => v = w ∧ v.isPlain) run run := .of_steady h
    rw [eval, eval]
    cases hk : n.kind with
    | literal => exact done (steady_literalValue n)
    | identifier => exact follows_variable own hd.name
    | parenthesized =>
      exact .steady (steady_childOf n 0) fun m hm => part (Node.mem_of_node? hm)
    | binary =>
      refine .steady (steady_operatorOf n) fun operator _ => childAt 0 fun l _ => ?_
      split
      · refine .steady (steady_typed _) fun chosen _ => ?_
        split
        · exact .pure ⟨rfl, rfl⟩
        · exact childAt 1 fun r _ => .steady (steady_typed _) fun _ _ => .pure ⟨rfl, rfl⟩
      · exact childAt 1 fun r _ => done (steady_binary operator l r)
    | unary =>
      refine childAt 0 fun v _ => .steady (steady_operatorOf n) fun operator _ => ?_
      split
      · exact .steady (steady_typed _) fun _ _ => .pure ⟨rfl, rfl⟩
      · exact .pure ⟨rfl, rfl⟩
      · exact .pure ⟨rfl, rfl⟩
      · exact .fail _
    | step =>
      refine .steady (steady_childOf n 0) fun target ht => ?_
      have hm := Node.mem_of_node? ht
      refine .bind (part hm) ?_
      rintro old _ ⟨rfl, hold⟩
      refine .steady (steady_operatorOf n) fun operator _ => ?_
      refine .steady (steady_binary _ old (.int 1)) fun v hv => ?_
      exact .bind (follows_assignTo (hd.child hm) hv) fun _ _ _ => .pure ⟨rfl, hold⟩
    | assignment =>
      refine .steady (steady_childOf n 0) fun target ht => childAt 1 fun v hv => ?_
      have hm := Node.mem_of_node? ht
      have assigned {w : Value} (hw : w.isPlain) : Follows own L L (fun v w => v = w ∧ v.isPlain)
          (assignTo (lefts L) target w >>= fun _ => pure w)
          (assignTo (rights L) target w >>= fun _ => pure w) :=
        .bind (follows_assignTo (hd.child hm) hw) fun _ _ _ => .pure ⟨rfl, hw⟩
      have combined (operator : TokenKind) : Follows own L L (fun v w => v = w ∧ v.isPlain)
          (eval own b (lefts L) target >>= fun old => binary operator old v >>= fun w =>
            assignTo (lefts L) target w >>= fun _ => pure w)
          (eval own b' (rights L) target >>= fun old => binary operator old v >>= fun w =>
            assignTo (rights L) target w >>= fun _ => pure w) := by
        refine .bind (part hm) ?_
        rintro old _ ⟨rfl, -⟩
        exact .steady (steady_binary _ _ _) fun w hw => assigned hw
      refine .steady (steady_operatorOf n) fun operator _ => ?_
      dsimp only
      split
      · exact combined .plus
      · exact combined .minus
      · exact assigned hv
    | conditional =>
      refine childAt 0 fun v _ => .steady (steady_typed _) fun chosen _ => ?_
      split
      · exact .steady (steady_childOf n 1) fun m hm => part (Node.mem_of_node? hm)
      · exact .steady (steady_childOf n 2) fun m hm => part (Node.mem_of_node? hm)
    | invocation =>
      refine .steady (steady_childOf n 0) fun callee hc => ?_
      have hc := Node.mem_of_node? hc
      refine .bind (.mapM_same n.nodes.tail fun m hm => part (List.mem_of_mem_tail hm)) ?_
      rintro vs _ ⟨rfl, hvs⟩
      split
      · refine .steady (steady_childOf callee 0) fun receiver hr => ?_
        have hr := Node.mem_of_node? hr
        have h1 := Node.size_lt_of_mem hr
        have h2 := Node.size_lt_of_mem hc
        refine .bind (ih ((hd.child hc).child hr) (by omega) (by omega)) ?_
        rintro v _ ⟨rfl, -⟩
        exact done (steady_callMethod hvs _ _)
      · refine .bind (part hc) ?_
        rintro v _ ⟨rfl, hv⟩
        cases v with
        | closure id c => cases hv
        | _ => exact .fail _
    | memberAccess => exact childAt 0 fun v _ => done (steady_memberOf v _)
    | elementAccess =>
      refine childAt 0 fun receiver _ => childAt 1 fun v _ => .steady (steady_typed _) fun i _ => ?_
      exact .steady (steady_itemsOf receiver) fun items hi => done (steady_itemAt i hi)
    | cast =>
      exact .steady (steady_childOf n 0) fun type _ => childAt 1 fun v hv =>
        done (steady_castTo _ hv)
    | list =>
      refine .bind (.mapM_same n.nodes fun m hm => part hm) ?_
      rintro vs _ ⟨rfl, hvs⟩
      exact done (steady_newList (by simpa using hvs))
    | lambda => exact absurd hk (hd n n.mem_preorder_self).1
    | query => exact absurd hk (hd n n.mem_preorder_self).2.1
    | _ => exact .fail _

end Stencil.Expansion
