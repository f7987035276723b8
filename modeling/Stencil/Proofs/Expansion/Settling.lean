import Mathlib.Data.Fintype.Pigeonhole
import Mathlib.Logic.Relation
import Stencil.Proofs.Expansion.Following

/-!
# Runs that settle

Built-in functions look through nested lists, and that is all for which they need a budget: they
run out of it only if a list contains itself. Such functions are *calm*.

The values of a program that does not keep closures are plain, and so is all that built-in
functions make of plain values. Two runs *agree* if on a machine of plain values they do the same,
and the first of them keeps the machine plain and is calm there.

Results:

* `knotted_of_toNode`, `knotted_of_toChildren` – what runs out has met a list that contains itself;
* `Settles.bind`, `Settles.mapM` – agreement goes through sequences of runs;
* `Settles.of_steady` – a built-in function agrees with itself;
* `settles_define`, `settles_assignTo`, `settles_inNestedScope` – the steps that change variables and
  scopes.
-/
namespace Stencil.Expansion

/-! ## Lists that contain themselves -/

/-- The list at `p` has the list at `q` among its items. -/
def Holds (lists : Array (Array Value)) (p q : Nat) : Prop :=
  ∃ items, lists[p]? = some items ∧ Value.list q ∈ items

/-- Some list contains itself, by itself or through other lists. -/
def Knotted (lists : Array (Array Value)) : Prop := ∃ p, Relation.TransGen (Holds lists) p p

section

variable {lists : Array (Array Value)} {α : Type}

/-- From a list to one that many steps later is among its items. -/
theorem transGen_of_chain {f : Nat → Nat} {d : Nat} (h : ∀ i < d, Holds lists (f i) (f (i + 1)))
    (i k : Nat) (hk : i + k < d) : Relation.TransGen (Holds lists) (f i) (f (i + k + 1)) := by
  induction k with
  | zero => exact .single (h i hk)
  | succ k ih => exact .tail (ih (by omega)) (h (i + k + 1) (by omega))

/-- A chain that is longer than there are lists meets one of them twice. -/
theorem knotted_of_chain {f : Nat → Nat}
    (h : ∀ i < nesting lists, Holds lists (f i) (f (i + 1))) : Knotted lists := by
  have bound (i : Nat) (hi : i < nesting lists) : f i < lists.size := by
    obtain ⟨items, hitems, -⟩ := h i hi
    exact (Array.getElem?_eq_some_iff.1 hitems).1
  have meet {i j : Nat} (hij : i < j) (hj : j < nesting lists) (he : f i = f j) :
      Knotted lists := by
    have loop := transGen_of_chain h i (j - i - 1) (by omega)
    rw [show i + (j - i - 1) + 1 = j by omega, ← he] at loop
    exact ⟨f i, loop⟩
  let place (i : Fin (nesting lists)) : Fin lists.size := ⟨f i, bound i i.isLt⟩
  obtain ⟨i, j, hne, he⟩ := Fintype.exists_ne_map_eq_of_card_lt place
    (by
    rw [Fintype.card_fin, Fintype.card_fin]
    exact Nat.lt_succ_self _)
  have he : f i = f j := congrArg Fin.val he
  rcases Nat.lt_or_gt_of_ne (fun h => hne (Fin.ext h)) with hlt | hlt
  · exact meet hlt j.isLt he
  · exact meet hlt i.isLt he.symm

theorem exists_of_mapM_error {β ε : Type} {f : β → Except ε α} {xs : List β} {e : ε}
    (h : xs.mapM f = .error e) : ∃ x ∈ xs, f x = .error e := by
  induction xs with
  | nil => cases h
  | cons x xs ih =>
    rw [List.mapM_cons] at h
    cases hx : f x with
    | error e' =>
      rw [hx] at h
      cases h
      exact ⟨x, by simp, hx⟩
    | ok a =>
      cases hxs : xs.mapM f with
      | error e' =>
        rw [hx, hxs] at h
        cases h
        obtain ⟨y, hy, he⟩ := ih hxs
        exact ⟨y, List.mem_cons_of_mem _ hy, he⟩
      | ok as =>
        rw [hx, hxs] at h
        cases h

/-- Running out means that lists are nested as deep as the depth that was given. -/
theorem chain_of_spread {leaf : Value → Except Fault α} {join : List α → α} {d : Nat} {v : Value}
    (h : spread lists leaf join d v = .error .exhausted) :
    ∃ f : Nat → Nat, v = .list (f 0) ∧ ∀ i < d, Holds lists (f i) (f (i + 1)) := by
  have leafless {v : Value} : (leaf v).mapError Stop.fault ≠ .error .exhausted := by
    cases leaf v <;> nofun
  induction d generalizing v with
  | zero =>
    cases v with
    | list p => exact ⟨fun _ => p, rfl, by omega⟩
    | _ => exact absurd h leafless
  | succ d ih =>
    cases v with
    | list p =>
      rw [spread] at h
      cases hitems : (((lists[p]?).getD #[]).toList).mapM (spread lists leaf join d) with
      | ok as =>
        simp only [hitems] at h
        cases h
      | error e =>
        simp only [hitems] at h
        cases h
        obtain ⟨v, hv, he⟩ := exists_of_mapM_error hitems
        obtain ⟨f, rfl, hf⟩ := ih he
        cases hp : lists[p]? with
        | none => simp [hp] at hv
        | some items =>
          refine ⟨fun i => i.casesOn p f, rfl, fun i hi => ?_⟩
          cases i with
          | zero => exact ⟨items, hp, by simpa [hp] using hv⟩
          | succ i => exact hf i (by omega)
    | _ => exact absurd h leafless

theorem knotted_of_spread {leaf : Value → Except Fault α} {join : List α → α} {v : Value}
    (h : spread lists leaf join (nesting lists) v = .error .exhausted) : Knotted lists := by
  obtain ⟨f, -, hf⟩ := chain_of_spread h
  exact knotted_of_chain hf

theorem knotted_of_toNode {v : Value} (h : toNode lists v = .error .exhausted) : Knotted lists :=
  knotted_of_spread h

theorem knotted_of_toChildren {v : Value} (h : toChildren lists v = .error .exhausted) :
    Knotted lists :=
  knotted_of_spread h

end

/-! ## Calm runs -/

/-- The run needs no budget unless a list contains itself. -/
def Calm {α : Type} (run : Run α) : Prop :=
  ∀ m n, run m = .error .exhausted n → Knotted n.lists

namespace Calm

variable {α β γ : Type}

theorem of_total {run : Run α} (h : ∀ m, ∃ a n, run m = .ok a n) : Calm run := by
  intro m _ hn
  obtain ⟨a, n', ha⟩ := h m
  rw [ha] at hn
  cases hn

theorem pure (a : α) : Calm (pure a : Run α) := of_total fun _ => ⟨_, _, rfl⟩

theorem fail (f : Fault) : Calm (fail f : Run α) := nofun

theorem of_computes {P : α → Prop} {run : Run α} (h : Computes P run) : Calm run := by
  intro m n hn
  rcases h with ⟨a, -, ha⟩ | ⟨e, hne, he⟩
  · rw [ha] at hn
    cases hn
  · rw [he] at hn
    cases hn
    exact absurd rfl hne

theorem bind {f : Run α} {k : α → Run β} (hf : Calm f) (hk : ∀ a, Calm (k a)) :
    Calm (f >>= k) := by
  intro m n hn
  rw [run_bind] at hn
  cases hm : f m with
  | ok a n' =>
    rw [hm] at hn
    exact hk a n' n hn
  | error e n' =>
    rw [hm] at hn
    cases hn
    exact hf m n hm

theorem map {f : Run α} {g : α → β} (hf : Calm f) : Calm (g <$> f) := bind hf fun _ => pure _

theorem mapM {f : γ → Run α} (xs : List γ) (h : ∀ x ∈ xs, Calm (f x)) : Calm (xs.mapM f) := by
  induction xs with
  | nil => exact pure []
  | cons x xs ih =>
    rw [List.mapM_cons]
    refine bind (h x (by simp)) fun a => bind (ih fun y hy => h y (by simp [hy])) fun as => pure _

end Calm

section

variable {α : Type}

theorem calm_typed (e : Except TypeFault α) : Calm (typed e) := .of_computes (computes_typed e)

theorem calm_sound (e : Except Defect α) : Calm (sound e) := .of_computes (computes_sound e)

theorem calm_newNode (n : Node) : Calm (newNode n) := .of_total fun _ => ⟨_, _, rfl⟩

theorem calm_newObject (o : TargetObject) : Calm (newObject o) := .of_total fun _ => ⟨_, _, rfl⟩

theorem calm_newList (items : Array Value) : Calm (newList items) := .of_total fun _ => ⟨_, _, rfl⟩

theorem calm_itemsOf (v : Value) : Calm (itemsOf v) := by
  unfold itemsOf
  split
  · exact .of_total fun _ => ⟨_, _, rfl⟩
  · exact .pure _
  · exact .fail _

theorem calm_expect (f : Fault) (a : Option α) : Calm (expect f a) := by
  cases a with
  | none => exact .fail _
  | some a => exact .pure _

theorem calm_contextAt (context : Nat) : Calm (contextAt context) :=
  .bind (.of_total fun _ => ⟨_, _, rfl⟩) fun _ => calm_expect _ _

theorem calm_currentContext : Calm currentContext :=
  .bind (.of_total fun _ => ⟨_, _, rfl⟩) fun _ => calm_expect _ _

theorem calm_onContext (context : Nat) (act : StateM Context α) : Calm (onContext context act) :=
  .bind (calm_contextAt context) fun _ => .of_total fun _ => ⟨_, _, rfl⟩

theorem calm_reading {read : Array (Array Value) → Except Stop α}
    (h : ∀ lists, read lists = .error .exhausted → Knotted lists) : Calm (reading read) := by
  intro m n hn
  change MonadExcept.ofExcept (m := Run) (read m.lists) m = _ at hn
  cases hr : read m.lists with
  | ok a =>
    rw [hr] at hn
    cases hn
  | error e =>
    rw [hr] at hn
    cases hn
    exact h _ hr

theorem calm_asNode (v : Value) : Calm (asNode v) := calm_reading fun _ => knotted_of_toNode

theorem calm_constructNode (kind : NodeKind) (arguments : List Value) :
    Calm (constructNode kind arguments) := by
  refine calm_reading fun lists h => ?_
  cases hc : arguments.mapM (toChildren lists) with
  | ok cs =>
    rw [hc] at h
    cases h
  | error e =>
    rw [hc] at h
    cases h
    obtain ⟨v, -, hv⟩ := exists_of_mapM_error hc
    exact knotted_of_toChildren hv

theorem calm_argument (arguments : List Value) (index : Nat) (function : String) :
    Calm (argument arguments index function) :=
  .of_computes (computes_argument arguments index function)

end

/-! ### Built-in functions -/

theorem calm_callNodes (name : String) (arguments : List Value) : Calm (callNodes name arguments) := by
  unfold callNodes
  split
  · exact calm_newList _
  · refine .bind (calm_argument _ _ _) fun v => ?_
    split
    · split
      · exact .bind (calm_typed _) fun _ => .pure _
      · exact .pure _
      · exact .fail _
    · exact .fail _
  · exact .bind (calm_argument _ _ _) fun v => .bind (calm_sound _) fun _ => .pure _
  · exact .bind (calm_argument _ _ _) fun v => .bind (calm_sound _) fun _ => .pure _
  · exact .bind (calm_argument _ _ _) fun v => .bind (calm_typed _) fun _ => .pure _
  · exact .bind (calm_argument _ _ _) fun v => .bind (calm_typed _) fun _ => .pure _
  · refine .bind (calm_argument _ _ _) fun v => ?_
    unfold splice
    split
    · exact .pure _
    · exact .bind (calm_asNode _) calm_newNode
  · exact .bind (calm_constructNode _ _) fun _ => calm_newNode _
  · split
    · exact .bind (calm_constructNode _ _) calm_newNode
    · exact .fail _

theorem calm_callContext (name : String) (arguments : List Value) :
    Calm (callContext name arguments) := by
  refine .bind calm_currentContext fun context => ?_
  split
  · refine .bind (calm_argument _ _ _) fun v => .bind (calm_typed _) fun hint => ?_
    exact .bind (calm_onContext _ _) fun _ => .pure _
  · have built (value : Option Node) (dynamic : Bool) :
        Calm (onContext context (Context.returnStatement value dynamic) >>= newNode) :=
      .bind (calm_onContext _ _) calm_newNode
    have typed' (value : Option Node) (type : Value) := Calm.bind (calm_typed type.asText) fun text =>
      built value (isDynamicText text)
    dsimp only
    split
    · refine .bind (.map (calm_asNode _)) fun value => ?_
      split
      · exact typed' _ _
      · exact built _ false
    · rw [pure_bind]
      split
      · exact typed' _ _
      · exact built _ false
  · refine .bind (calm_argument _ _ _) fun v => ?_
    split
    · refine .bind (calm_argument _ _ _) fun w => .bind (calm_typed _) fun form => ?_
      refine .bind (calm_contextAt _) fun c => ?_
      split
      · exact calm_newNode _
      · exact .fail _
    · exact .fail _
  · refine .bind (calm_argument _ _ _) fun v => .bind (calm_typed _) fun form => ?_
    refine .bind (calm_contextAt _) fun c => ?_
    split
    · exact .bind (calm_onContext _ _) calm_newNode
    · exact .fail _
  · exact .fail _

theorem calm_callMethod (receiver : Value) (name : String) (arguments : List Value) :
    Calm (callMethod receiver name arguments) := by
  unfold callMethod
  split
  · unfold callBuiltin
    split
    · exact calm_callNodes _ _
    · exact calm_callContext _ _
    · exact .of_computes (computes_callMath _ _)
    · exact .fail _
  · exact .of_total fun _ => ⟨_, _, rfl⟩
  · exact .pure _
  · exact .pure _
  · exact .fail _

theorem calm_globalNamed (target : Target) (name : String) : Calm (globalNamed target name) := by
  unfold globalNamed
  split
  · exact calm_newObject _
  · split
    · exact .pure _
    · exact .fail _

theorem calm_memberOf (receiver : Value) (name : String) : Calm (memberOf receiver name) := by
  unfold memberOf
  split
  · unfold builtinMember
    dsimp only
    split
    · exact .pure _
    · exact .fail _
  · exact .of_total fun _ => ⟨_, _, rfl⟩
  · exact .pure _
  · unfold objectMember
    split
    · exact calm_newObject _
    · exact calm_newNode _
    · exact calm_newObject _
    · exact .bind (.mapM _ fun _ _ => calm_newObject _) fun _ => calm_newList _
    · exact .pure _
    · exact .pure _
    · exact .pure _
    · exact .pure _
    · exact .pure _
    · exact calm_newNode _
    · exact .fail _
  · exact .fail _

/-! ## Runs on machines without closures -/

/-- The machine holds plain values only and has the context `own`. -/
structure Closureless (own : Nat) (m : Machine) : Prop where
  lists : ∀ (place : Nat) (items : Array Value), m.lists[place]? = some items →
    ∀ v ∈ items, v.isPlain
  frames : ∀ (frame : Nat) (vars : List (String × Value)), m.frames[frame]? = some vars →
    ∀ e ∈ vars, e.2.isPlain
  owned : own < m.contexts.size

/-- The run gave an answer with `P` and a machine without closures, or stopped, and if for want of
budget, then where a list contains itself. -/
def Settled {α : Type} (own : Nat) (P : α → Prop) : EStateM.Result Stop Machine α → Prop
  | .ok a n => P a ∧ Closureless own n
  | .error e n => e = .exhausted → Knotted n.lists

/-- Without closures the runs do the same, and settle. -/
def Settles {α : Type} (own : Nat) (P : α → Prop) (run run' : Run α) : Prop :=
  ∀ m, Closureless own m → Settled own P (run m) ∧ run' m = run m

variable {own : Nat}

namespace Settles

variable {α β γ : Type} {P : α → Prop} {Q : β → Prop}

theorem of_steady {run : Run α} (hs : Steady own P run) (hc : Calm run) : Settles own P run run := by
  intro m hm
  have alike : Alike own m m := ⟨rfl, rfl, rfl, rfl, hm.lists, hm.owned⟩
  have steady := hs m m alike
  refine ⟨?_, rfl⟩
  cases hr : run m with
  | ok a n =>
    rw [hr] at steady
    obtain ⟨-, hp, hn, hframes, -⟩ := steady
    exact ⟨hp, hn.plain, hframes ▸ hm.frames, hn.owned⟩
  | error e n =>
    rintro rfl
    exact hc m n hr

theorem of_computes {P' : α → Prop} {run : Run α} (h : Computes P run) (hP : ∀ a, P a → P' a) :
    Settles own P' run run :=
  of_steady (.of_computes h hP) (.of_computes h)

theorem pure {a : α} (h : P a) : Settles own P (pure a) (pure a) := fun _ hm => ⟨⟨h, hm⟩, rfl⟩

theorem fail (f : Fault) : Settles own P (fail f) (fail f) := fun _ _ => ⟨nofun, rfl⟩

theorem bind {f f' : Run α} {k k' : α → Run β} (hf : Settles own P f f')
    (hk : ∀ a, P a → Settles own Q (k a) (k' a)) : Settles own Q (f >>= k) (f' >>= k') := by
  intro m hm
  obtain ⟨settled, same⟩ := hf m hm
  rw [run_bind, run_bind, same]
  cases hr : f m with
  | ok a n =>
    rw [hr] at settled
    exact hk a settled.1 n settled.2
  | error e n =>
    rw [hr] at settled
    exact ⟨settled, rfl⟩

theorem mapM {f f' : γ → Run α} {xs ys : List γ}
    (h : List.Forall₂ (fun x y => Settles own P (f x) (f' y)) xs ys) :
    Settles own (fun as => ∀ a ∈ as, P a) (xs.mapM f) (ys.mapM f') := by
  induction h with
  | nil => exact pure (by simp)
  | cons hx _ ih =>
    rw [List.mapM_cons, List.mapM_cons]
    refine bind hx fun a ha => bind ih fun as has => pure ?_
    simpa using ⟨ha, has⟩

theorem forM {f f' : γ → Run PUnit} {xs ys : List γ}
    (h : List.Forall₂ (fun x y => Settles own (fun _ => True) (f x) (f' y)) xs ys) :
    Settles own (fun _ => True) (xs.forM f) (ys.forM f') := by
  induction h with
  | nil => exact pure trivial
  | cons hx _ ih =>
    exact bind hx fun _ _ => ih

end Settles

/-! ### Variables -/

/-- A machine whose variables hold plain values and which differs in nothing else that counts. -/
theorem Closureless.of_frames {m n : Machine} (hm : Closureless own m) (hl : n.lists = m.lists)
    (hc : n.contexts.size = m.contexts.size)
    (hf : ∀ (frame : Nat) (vars : List (String × Value)), n.frames[frame]? = some vars →
      ∀ e ∈ vars, e.2.isPlain) : Closureless own n :=
  ⟨hl ▸ hm.lists, hf, hc ▸ hm.owned⟩

theorem settles_nestedIn (env : Scoping) :
    Settles own (fun _ => True) (nestedIn env) (nestedIn env) := by
  intro m hm
  refine ⟨⟨trivial, hm.of_frames rfl rfl fun frame vars hv e he => ?_⟩, rfl⟩
  rw [Array.getElem?_push] at hv
  split at hv
  · cases hv
    cases he
  · exact hm.frames frame vars hv e he

/-- Giving a variable of some frame a plain value. -/
theorem Closureless.update {m : Machine} (hm : Closureless own m) {v : Value} (hv : v.isPlain)
    (frame : Nat) (name : String) : Closureless own (m.update frame name v) := by
  refine hm.of_frames rfl rfl fun other vars hvars e he => ?_
  rw [Machine.update, Array.getElem?_modify] at hvars
  split at hvars
  · obtain ⟨old, hold, rfl⟩ := Option.map_eq_some_iff.1 hvars
    rcases List.mem_cons.1 he with rfl | he
    · exact hv
    · exact hm.frames other old hold e (List.mem_filter.1 he).1
  · exact hm.frames other vars hvars e he

theorem settles_define (env : Scoping) (name : String) {v : Value} (hv : v.isPlain) :
    Settles own (fun _ => True) (define env name v) (define env name v) := by
  cases env with
  | nil => exact .pure trivial
  | cons frame env => exact fun m hm => ⟨⟨trivial, hm.update hv frame name⟩, rfl⟩

theorem settles_assignVariable (env : Scoping) (name : String) {v : Value} (hv : v.isPlain) :
    Settles own (fun _ => True) (assignVariable env name v) (assignVariable env name v) := by
  intro m hm
  refine ⟨?_, rfl⟩
  rw [assignVariable_eq]
  split
  · exact ⟨trivial, hm⟩
  · next frame _ => exact ⟨trivial, hm.update hv frame name⟩

theorem settles_assignTo (env : Scoping) {target target' : Node} {v : Value} (hv : v.isPlain)
    (hk : target'.kind = target.kind) (hn : target'.nameOrEmpty = target.nameOrEmpty) :
    Settles own (fun _ => True) (assignTo env target v) (assignTo env target' v) := by
  unfold assignTo
  rw [hk, hn]
  split
  · exact .fail _
  · refine .bind (settles_assignVariable env _ hv) fun found _ => ?_
    split
    · exact .fail _
    · exact .pure trivial

theorem isPlain_of_lookup {vars : List (String × Value)} {name : String} {v : Value}
    (h : ∀ e ∈ vars, e.2.isPlain) (hv : vars.lookup name = some v) : v.isPlain := by
  obtain ⟨_, _, rfl, -⟩ := List.lookup_eq_some_iff.1 hv
  exact h (name, v) (by simp)

theorem settles_valueNamed (env : Scoping) (name : String) :
    Settles own (fun v => v.isPlain) (valueNamed own env name) (valueNamed own env name) := by
  intro m hm
  refine ⟨?_, rfl⟩
  cases hv : m.valueOf? env name with
  | some v =>
    rw [valueNamed_some hv]
    obtain ⟨frame, -, hf⟩ := List.exists_of_findSome?_eq_some hv
    obtain ⟨vars, hvars, hlookup⟩ := Option.bind_eq_some_iff.1 hf
    exact ⟨isPlain_of_lookup (hm.frames frame vars hvars) hlookup, hm⟩
  | none =>
    rw [valueNamed_none hv]
    have found := Settles.of_steady (@steady_contextAt own own) (calm_contextAt own)
    exact (found.bind fun c _ =>
      Settles.of_steady (steady_globalNamed c.target name) (calm_globalNamed _ _)) m hm |>.1

/-! ### Scopes of generated code -/

theorem settles_inNestedScope {α : Type} {P : α → Prop} {act act' : Run α}
    (h : Settles own P act act') :
    Settles own P (inNestedScope own act) (inNestedScope own act') := by
  refine .bind (.of_steady (steady_onContext own _) (calm_onContext own _)) fun outer _ => ?_
  intro m hm
  obtain ⟨settled, same⟩ := h m hm
  unfold ensuring
  rw [same]
  refine ⟨?_, rfl⟩
  cases hr : act m with
  | ok a n =>
    rw [hr] at settled
    refine ⟨settled.1, settled.2.lists, settled.2.frames, ?_⟩
    simpa using settled.2.owned
  | error e n =>
    rw [hr] at settled
    exact settled

end Stencil.Expansion
