import Stencil.Proofs.Expansion.Loops

/-!
# Built-in functions and frames

Frames of variables belong to the program that runs; built-in functions neither read nor change
them. Two machines that differ in their frames only are *alike*, and a run is *steady* if alike
machines give it the same answer, stay alike and keep their frames. The values of a program
without lambdas hold no closure, which steadiness also keeps.

Results:

* `Steady.bind` – steady runs compose;
* `steady_callMethod`, `steady_memberOf`, `steady_binary`, `steady_globalNamed` – every built-in
  function is steady on plain values.
-/
namespace Stencil.Expansion

/-- Whether a value is anything but a closure. -/
def Value.isPlain : Value → Bool
  | .closure .. => false
  | _ => true

theorem Value.isPlain_of_isScalar {v : Value} (h : v.isScalar) : v.isPlain := by
  cases v <;> first | rfl | cases h

/-- Machines that differ at most in their frames and in how many closures they have made, hold
plain values in their lists, and have the context `own`. -/
structure Alike (own : Nat) (m m' : Machine) : Prop where
  lists : m'.lists = m.lists
  identities : m'.identities = m.identities
  contexts : m'.contexts = m.contexts
  active : m'.active = m.active
  plain : ∀ (place : Nat) (items : Array Value), m.lists[place]? = some items →
    ∀ v ∈ items, v.isPlain
  owned : own < m.contexts.size

/-- Two ways of ending that say the same: both stop for one reason, or both give an answer, and
`R` relates the answers and the machines. -/
def Ends {α β : Type} (R : α → β → Machine → Machine → Prop) :
    EStateM.Result Stop Machine α → EStateM.Result Stop Machine β → Prop
  | .ok a n, .ok b n' => R a b n n'
  | .error e _, .error e' _ => e = e'
  | _, _ => False

/-- The run does the same on alike machines, keeps their frames, and `P` holds of its answer. -/
def Steady {α : Type} (own : Nat) (P : α → Prop) (run : Run α) : Prop :=
  ∀ m m', Alike own m m' → Ends (fun a b n n' => a = b ∧ P a ∧ Alike own n n' ∧
    n.frames = m.frames ∧ n'.frames = m'.frames) (run m) (run m')

variable {own : Nat}

section

variable {α β : Type} {P : α → Prop} {Q : β → Prop}

/-! ## Composing steady runs -/

theorem Ends.bind {γ δ : Type} {R : α → β → Machine → Machine → Prop}
    {S : γ → δ → Machine → Machine → Prop} {f : Run α} {g : Run β} {k : α → Run γ}
    {k' : β → Run δ} {m m' : Machine} (h : Ends R (f m) (g m'))
    (hk : ∀ a b n n', R a b n n' → Ends S (k a n) (k' b n')) :
    Ends S ((f >>= k) m) ((g >>= k') m') := by
  rw [run_bind, run_bind]
  revert h
  cases f m <;> cases g m'
  · exact hk _ _ _ _
  · exact False.elim
  · exact False.elim
  · exact id

theorem Ends.mono {R S : α → β → Machine → Machine → Prop} {x : EStateM.Result Stop Machine α}
    {y : EStateM.Result Stop Machine β} (h : Ends R x y)
    (hR : ∀ a b n n', R a b n n' → S a b n n') : Ends S x y := by
  cases x <;> cases y
  · exact hR _ _ _ _ h
  · exact h
  · exact h
  · exact h

theorem Steady.bind {f : Run α} {k : α → Run β} (hf : Steady own P f)
    (hk : ∀ a, P a → Steady own Q (k a)) : Steady own Q (f >>= k) := by
  intro m m' h
  refine (hf m m' h).bind ?_
  rintro a _ n n' ⟨rfl, ha, hn, hm, hm'⟩
  have := hk a ha n n' hn
  rwa [hm, hm'] at this

theorem Steady.pure {a : α} (h : P a) : Steady own P (pure a) :=
  fun _ _ hm => ⟨rfl, h, hm, rfl, rfl⟩

theorem Steady.throw (e : Stop) : Steady own P (throw e) := fun _ _ _ => rfl

theorem Steady.fail (f : Fault) : Steady own P (fail f) := fun _ _ _ => rfl

theorem Steady.of_computes {P' : α → Prop} {f : Run α} (h : Computes P f)
    (hP : ∀ a, P a → P' a) : Steady own P' f := by
  intro m m' hm
  rcases h with ⟨a, hp, ha⟩ | ⟨e, -, he⟩
  · rw [ha, ha]
    exact ⟨rfl, hP a hp, hm, rfl, rfl⟩
  · rw [he, he]
    exact rfl

/-- Looking at a part of the machine that alike machines share. -/
theorem Steady.look {γ : Type} (part : Machine → γ) {k : γ → Run α}
    (hp : ∀ m m', Alike own m m' → part m' = part m) (hk : ∀ c, Steady own P (k c)) :
    Steady own P (get >>= fun m => k (part m)) := by
  intro m m' h
  change Ends _ (k (part m) m) (k (part m') m')
  rw [hp m m' h]
  exact hk (part m) m m' h

theorem Steady.map {f : Run α} {g : α → β} (hf : Steady own P f) (hg : ∀ a, P a → Q (g a)) :
    Steady own Q (g <$> f) :=
  Steady.bind hf fun a ha => Steady.pure (hg a ha)

theorem Steady.mapM {γ : Type} {f : γ → Run α} (xs : List γ) (hf : ∀ x ∈ xs, Steady own P (f x)) :
    Steady own (fun as => ∀ a ∈ as, P a) (xs.mapM f) := by
  induction xs with
  | nil => rw [List.mapM_nil]; exact .pure (by simp)
  | cons x xs ih =>
    rw [List.mapM_cons]
    refine .bind (hf x (by simp)) fun a ha => .bind (ih fun y hy => hf y (by simp [hy])) ?_
    intro as has
    exact .pure (by simpa using ⟨ha, has⟩)

end

/-! ## Elementary runs -/

section

variable {α : Type}

theorem steady_typed (e : Except TypeFault α) : Steady own (fun _ => True) (typed e) :=
  .of_computes (computes_typed e) fun _ _ => trivial

theorem steady_sound (e : Except Defect α) : Steady own (fun _ => True) (sound e) :=
  .of_computes (computes_sound e) fun _ _ => trivial

theorem steady_newIdentity : Steady own (fun _ => True) newIdentity := by
  intro m m' h
  refine ⟨h.identities.symm, trivial, ⟨h.lists, ?_, h.contexts, h.active, h.plain, h.owned⟩, rfl,
    rfl⟩
  simp only [h.identities]

theorem steady_newNode (n : Node) : Steady own (fun v => v.isPlain) (newNode n) :=
  .bind steady_newIdentity fun _ _ => .pure rfl

theorem steady_newObject (o : TargetObject) : Steady own (fun v => v.isPlain) (newObject o) :=
  .bind steady_newIdentity fun _ _ => .pure rfl

theorem steady_newPlace {items : Array Value} (hi : ∀ v ∈ items, v.isPlain) :
    Steady own (fun _ => True) (newPlace items) := by
  intro m m' h
  refine ⟨by rw [h.lists], trivial,
    ⟨by simp only [h.lists], h.identities, h.contexts, h.active, ?_, h.owned⟩, rfl, rfl⟩
  intro place l hl v hv
  rw [Array.getElem?_push] at hl
  split at hl
  · cases hl; exact hi v hv
  · exact h.plain place l hl v hv

theorem steady_newList {items : Array Value} (hi : ∀ v ∈ items, v.isPlain) :
    Steady own (fun v => v.isPlain) (newList items) :=
  .bind (steady_newPlace hi) fun _ _ => .pure rfl

theorem steady_listAt (place : Nat) : Steady own (fun l => ∀ v ∈ l, v.isPlain) (listAt place) := by
  intro m m' h
  refine ⟨by simp only [h.lists], ?_, h, rfl, rfl⟩
  cases hl : m.lists[place]? with
  | none => simp
  | some l => exact h.plain place l hl

theorem steady_appendTo (place : Nat) {items : List Value} (hi : ∀ v ∈ items, v.isPlain) :
    Steady own (fun _ => True) (appendTo place items) := by
  intro m m' h
  refine ⟨rfl, trivial, ⟨by simp only [h.lists], h.identities, h.contexts, h.active, ?_, h.owned⟩,
    rfl, rfl⟩
  intro q l hl v hv
  rcases mem_of_appended hl hv with ⟨old, ho, hv⟩ | ⟨-, hv⟩
  · exact h.plain q old ho v hv
  · exact hi v hv

theorem steady_itemsOf (v : Value) : Steady own (fun vs => ∀ v ∈ vs, v.isPlain) (itemsOf v) := by
  unfold itemsOf
  split
  · exact .bind (steady_listAt _) fun l hl => .pure (by simpa using hl)
  · exact .pure (by simp [Value.isPlain])
  · exact .fail _

theorem steady_contextAt (context : Nat) : Steady own (fun _ => True) (contextAt context) := by
  refine .look (k := expect .noContext)
    (fun m => m.contexts[context]?) (fun m m' h => by simp only [h.contexts]) fun c => ?_
  cases c with
  | none => exact .fail _
  | some c => exact .pure trivial

theorem steady_onContext (context : Nat) (act : StateM Context α) :
    Steady own (fun _ => True) (onContext context act) := by
  refine .bind (steady_contextAt context) fun c _ => ?_
  intro m m' h
  refine ⟨rfl, trivial, ⟨h.lists, h.identities, ?_, h.active, h.plain, ?_⟩, rfl, rfl⟩
  · simp only [h.contexts]
  · exact Nat.lt_of_lt_of_eq h.owned (Array.size_setIfInBounds ..).symm

theorem steady_currentContext : Steady own (fun _ => True) currentContext := by
  refine .look (k := expect .noContext)
    (fun m => m.active.head?) (fun m m' h => by simp only [h.active]) fun context => ?_
  cases context with
  | none => exact .fail _
  | some context => exact .pure trivial

theorem steady_reading (read : Array (Array Value) → Except Stop α) :
    Steady own (fun _ => True) (reading read) := by
  refine .look (k := fun answer : Except Stop α => MonadExcept.ofExcept answer)
    (fun m => read m.lists) (fun m m' h => by simp only [h.lists]) fun answer => ?_
  cases answer with
  | error e => exact .throw e
  | ok a => exact .pure trivial

theorem steady_argument {arguments : List Value} (ha : ∀ v ∈ arguments, v.isPlain) (index : Nat)
    (function : String) : Steady own (fun v => v.isPlain) (argument arguments index function) :=
  .of_computes (computes_argument arguments index function) ha

end

/-! ## Functions of the globals -/

section

variable {arguments : List Value} (ha : ∀ v ∈ arguments, v.isPlain)
include ha

theorem steady_callNodes (name : String) :
    Steady own (fun v => v.isPlain) (callNodes name arguments) := by
  have first {β : Type} {Q : β → Prop} {k : Value → Run β} (function : String)
      (hk : ∀ v, v.isPlain → Steady own Q (k v)) :
      Steady own Q (argument arguments 0 function >>= k) :=
    .bind (steady_argument ha 0 function) hk
  unfold callNodes
  split
  · exact steady_newList (by simp)
  · refine first _ fun v _ => ?_
    split
    · split
      · exact .bind (steady_typed _) fun _ _ => .pure rfl
      · exact .pure rfl
      · exact .fail _
    · exact .fail _
  · exact first _ fun v _ => .bind (steady_sound _) fun _ _ => .pure rfl
  · exact first _ fun v _ => .bind (steady_sound _) fun _ _ => .pure rfl
  · exact first _ fun v _ => .bind (steady_typed _) fun _ _ => .pure rfl
  · exact first _ fun v _ => .bind (steady_typed _) fun _ _ => .pure rfl
  · refine first _ fun v _ => ?_
    unfold splice
    split
    · exact .pure rfl
    · exact .bind (steady_reading _) fun n _ => steady_newNode n
  · exact .bind (steady_reading _) fun n _ => steady_newNode _
  · split
    · exact .bind (steady_reading _) fun n _ => steady_newNode n
    · exact .fail _

theorem steady_callContext (name : String) :
    Steady own (fun v => v.isPlain) (callContext name arguments) := by
  refine .bind steady_currentContext fun context _ => ?_
  split
  · refine .bind (steady_argument ha 0 _) fun v _ => .bind (steady_typed _) fun hint _ => ?_
    exact .bind (steady_onContext _ _) fun _ _ => .pure rfl
  · have built (value : Option Node) (dynamic : Bool) : Steady own (fun v => v.isPlain)
        (onContext context (Context.returnStatement value dynamic) >>= newNode) :=
      .bind (steady_onContext _ _) fun n _ => steady_newNode n
    dsimp only
    split
    · refine .bind (.map (Q := fun _ => True) (steady_reading _) fun _ _ => trivial) fun v _ => ?_
      split
      · exact .bind (steady_typed _) fun _ _ => built v _
      · exact built v false
    · rw [pure_bind]
      split
      · exact .bind (steady_typed _) fun _ _ => built none _
      · exact built none false
  · refine .bind (steady_argument ha 0 _) fun v _ => ?_
    split
    · refine .bind (steady_argument ha 1 _) fun w _ => .bind (steady_typed _) fun form _ => ?_
      refine .bind (steady_contextAt _) fun c _ => ?_
      split
      · exact steady_newNode _
      · exact .fail _
    · exact .fail _
  · refine .bind (steady_argument ha 0 _) fun v _ => .bind (steady_typed _) fun form _ => ?_
    refine .bind (steady_contextAt _) fun c _ => ?_
    split
    · exact .bind (steady_onContext _ _) fun n _ => steady_newNode n
    · exact .fail _
  · exact .fail _

omit ha in
theorem steady_callMath (name : String) :
    Steady own (fun v => v.isPlain) (callMath name arguments) :=
  .of_computes (computes_callMath name arguments) fun _ => Value.isPlain_of_isScalar

theorem steady_callBuiltin (b : Builtin) (name : String) :
    Steady own (fun v => v.isPlain) (callBuiltin b name arguments) := by
  unfold callBuiltin
  split
  · exact steady_callNodes ha _
  · exact steady_callContext ha _
  · exact steady_callMath _
  · exact .fail _

theorem steady_callMethod (receiver : Value) (name : String) :
    Steady own (fun v => v.isPlain) (callMethod receiver name arguments) := by
  unfold callMethod
  split
  · exact steady_callBuiltin ha _ _
  · exact .bind (steady_appendTo _ ha) fun _ _ => .pure rfl
  · exact .pure rfl
  · exact .pure rfl
  · exact .fail _

end

/-! ## Globals, members and operators -/

theorem steady_globalNamed (target : Target) (name : String) :
    Steady own (fun v => v.isPlain) (globalNamed target name) := by
  unfold globalNamed
  split
  · exact steady_newObject _
  · split
    · exact .pure rfl
    · exact .fail _

theorem steady_builtinMember (b : Builtin) (name : String) :
    Steady own (fun v => v.isPlain) (builtinMember b name) := by
  unfold builtinMember
  cases b <;> simp only
  case tokenKinds => cases TokenKind.ofName? name <;> first | exact .pure rfl | exact .fail _
  case callForms => cases CallForm.ofName? name <;> first | exact .pure rfl | exact .fail _
  all_goals exact .fail _

theorem steady_objectMember (o : TargetObject) (name : String) :
    Steady own (fun v => v.isPlain) (objectMember o name) := by
  unfold objectMember
  split
  · exact steady_newObject _
  · exact steady_newNode _
  · exact steady_newObject _
  · refine .bind (.mapM _ fun p _ => steady_newObject _) fun objects ho => ?_
    exact steady_newList (by simpa using ho)
  · exact .pure rfl
  · exact .pure rfl
  · exact .pure rfl
  · exact .pure rfl
  · exact .pure rfl
  · exact steady_newNode _
  · exact .fail _

theorem steady_memberOf (receiver : Value) (name : String) :
    Steady own (fun v => v.isPlain) (memberOf receiver name) := by
  unfold memberOf
  split
  · exact steady_builtinMember _ _
  · exact .bind (steady_listAt _) fun _ _ => .pure rfl
  · exact .pure rfl
  · exact steady_objectMember _ _
  · exact .fail _

theorem steady_binary (operator : TokenKind) (l r : Value) :
    Steady own (fun v => v.isPlain) (binary operator l r) :=
  .of_computes (computes_binary operator l r) fun _ => Value.isPlain_of_isScalar

/-! ## Pieces of evaluation -/

theorem steady_childOf (n : Node) (index : Nat) :
    Steady own (fun m => n.node? index = some m) (childOf n index) :=
  .of_computes (computes_childOf n index) fun _ h => h

theorem steady_operatorOf (n : Node) : Steady own (fun _ => True) (operatorOf n) :=
  .of_computes (computes_operatorOf n) fun _ _ => trivial

theorem steady_literalValue (n : Node) : Steady own (fun v => v.isPlain) (literalValue n) :=
  .of_computes (computes_literalValue n) fun _ => Value.isPlain_of_isScalar

theorem steady_castTo (type : String) {v : Value} (hv : v.isPlain) :
    Steady own (fun v => v.isPlain) (castTo type v) := by
  refine .of_computes (computes_castTo type v) ?_
  rintro w (rfl | hw)
  · exact hv
  · exact Value.isPlain_of_isScalar hw

theorem steady_itemAt (index : Int64) {items : List Value} (hi : ∀ v ∈ items, v.isPlain) :
    Steady own (fun v => v.isPlain) (itemAt index items) :=
  .of_computes (computes_itemAt index items) hi

end Stencil.Expansion
