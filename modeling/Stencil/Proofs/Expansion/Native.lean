import Stencil.Proofs.Expansion.Settling

/-!
# What built-in functions report

Whether a name is defined and a jump has a loop to leave is up to the program that runs. Built-in
functions leave its variables alone and never stop for such a reason: they are *native*.

Results:

* `Native.bind`, `Native.mapM` – native runs compose;
* `native_callMethod`, `native_memberOf`, `native_binary`, `native_castTo` – every built-in function
  is native, whatever it is given.
-/
namespace Stencil.Expansion

/-- Faults of the names and jumps of the program itself. -/
def Fault.isLexical : Fault → Bool
  | .undefined _ | .strayJump _ => true
  | _ => false

/-- The run keeps the frames, also when it stops, and does not stop for a name or a jump. -/
def Native {α : Type} (run : Run α) : Prop :=
  ∀ m, match run m with
    | .ok _ n => n.frames = m.frames
    | .error e n => n.frames = m.frames ∧ ∀ f, e = .fault f → f.isLexical = false

namespace Native

variable {α β γ : Type}

theorem of_total {run : Run α} (h : ∀ m, ∃ a n, run m = .ok a n ∧ n.frames = m.frames) :
    Native run := by
  intro m
  obtain ⟨a, n, ha, hf⟩ := h m
  rw [ha]
  exact hf

theorem pure (a : α) : Native (pure a : Run α) := fun _ => rfl

theorem throw {e : Stop} (h : ∀ f, e = .fault f → f.isLexical = false) :
    Native (throw e : Run α) :=
  fun _ => ⟨rfl, h⟩

theorem fail {f : Fault} (h : f.isLexical = false) : Native (fail f : Run α) :=
  throw fun _ hf => Stop.fault.inj hf ▸ h

theorem bind {f : Run α} {k : α → Run β} (hf : Native f) (hk : ∀ a, Native (k a)) :
    Native (f >>= k) := by
  intro m
  have first := hf m
  rw [run_bind]
  cases hm : f m with
  | error e n =>
    rw [hm] at first
    exact first
  | ok a n =>
    rw [hm] at first
    have second := hk a n
    dsimp only
    cases hn : k a n <;> rw [hn] at second
    · exact Eq.trans second first
    · exact ⟨second.1.trans first, second.2⟩

theorem map {f : Run α} {g : α → β} (hf : Native f) : Native (g <$> f) := bind hf fun _ => pure _

theorem mapM {f : γ → Run α} (xs : List γ) (h : ∀ x ∈ xs, Native (f x)) :
    Native (xs.mapM f) := by
  induction xs with
  | nil => exact pure []
  | cons x xs ih =>
    rw [List.mapM_cons]
    refine bind (h x (by simp)) fun a => bind (ih fun y hy => h y (by simp [hy])) fun as => pure _

end Native

/-! ## Elementary runs -/

section

variable {α : Type}

theorem native_typed (e : Except TypeFault α) : Native (typed e) := by
  cases e with
  | ok a => exact .pure a
  | error f => exact .fail rfl

theorem native_sound (e : Except Defect α) : Native (sound e) := by
  cases e with
  | ok a => exact .pure a
  | error d => exact .throw fun _ h => by cases h

theorem native_expect {f : Fault} (h : f.isLexical = false) (a : Option α) :
    Native (expect f a) := by
  cases a with
  | none => exact .fail h
  | some a => exact .pure a

theorem native_newNode (n : Node) : Native (newNode n) := .of_total fun _ => ⟨_, _, rfl, rfl⟩

theorem native_newObject (o : TargetObject) : Native (newObject o) :=
  .of_total fun _ => ⟨_, _, rfl, rfl⟩

theorem native_newList (items : Array Value) : Native (newList items) :=
  .of_total fun _ => ⟨_, _, rfl, rfl⟩

theorem native_newClosure : Native newClosure := .of_total fun _ => ⟨_, _, rfl, rfl⟩

theorem native_itemsOf (v : Value) : Native (itemsOf v) := by
  unfold itemsOf
  split
  · exact .of_total fun _ => ⟨_, _, rfl, rfl⟩
  · exact .pure _
  · exact .fail rfl

theorem native_contextAt (context : Nat) : Native (contextAt context) :=
  .bind (.of_total fun _ => ⟨_, _, rfl, rfl⟩) fun _ => native_expect rfl _

theorem native_currentContext : Native currentContext :=
  .bind (.of_total fun _ => ⟨_, _, rfl, rfl⟩) fun _ => native_expect rfl _

theorem native_onContext (context : Nat) (act : StateM Context α) :
    Native (onContext context act) :=
  .bind (native_contextAt context) fun _ => .of_total fun _ => ⟨_, _, rfl, rfl⟩

theorem native_argument (arguments : List Value) (index : Nat) (function : String) :
    Native (argument arguments index function) := by
  unfold argument
  split
  · exact .pure _
  · exact .fail rfl

theorem native_operatorOf (n : Node) : Native (operatorOf n) := by
  unfold operatorOf
  split
  · exact .pure _
  · exact .fail rfl

theorem native_itemAt (index : Int64) (items : List Value) : Native (itemAt index items) := by
  unfold itemAt
  dsimp only
  split
  · exact .pure _
  · exact .fail rfl

end

/-! ## Values as code -/

/-- What a list comes to fails as one of its items does. -/
theorem isLexical_of_spread {α : Type} {lists : Array (Array Value)}
    {leaf : Value → Except Fault α} {join : List α → α}
    (hl : ∀ v f, leaf v = .error f → f.isLexical = false) {f : Fault} (d : Nat) {v : Value}
    (h : spread lists leaf join d v = .error (.fault f)) : f.isLexical = false := by
  have leafless {v : Value} (h : (leaf v).mapError Stop.fault = .error (.fault f)) :
      f.isLexical = false := by
    cases hv : leaf v with
    | ok a => rw [hv] at h; cases h
    | error f' =>
      rw [hv] at h
      cases h
      exact hl v f hv
  induction d generalizing v with
  | zero =>
    cases v with
    | list p => cases h
    | _ => exact leafless h
  | succ d ih =>
    cases v with
    | list p =>
      rw [spread] at h
      cases hitems : (((lists[p]?).getD #[]).toList).mapM (spread lists leaf join d) with
      | ok as =>
        simp only [hitems] at h
        cases h
      | error e =>
        simp only [hitems] at h
        cases h
        obtain ⟨w, -, he⟩ := exists_of_mapM_error hitems
        exact ih he
    | _ => exact leafless h

section

variable {α : Type}

theorem native_reading {read : Array (Array Value) → Except Stop α}
    (h : ∀ lists f, read lists = .error (.fault f) → f.isLexical = false) :
    Native (reading read) := by
  intro m
  change match MonadExcept.ofExcept (m := Run) (read m.lists) m with
    | .ok _ n => n.frames = m.frames
    | .error e n => n.frames = m.frames ∧ ∀ f, e = .fault f → f.isLexical = false
  cases hr : read m.lists with
  | ok a => exact rfl
  | error e => exact ⟨rfl, fun f hf => h m.lists f (hf ▸ hr)⟩

theorem isLexical_of_leafNode {v : Value} {f : Fault} (h : leafNode v = .error f) :
    f.isLexical = false := by
  unfold leafNode at h
  split at h
  case h_8 | h_9 =>
    split at h <;> cases h
    rfl
  all_goals cases h <;> rfl

theorem isLexical_of_leafChildren {v : Value} {f : Fault} (h : leafChildren v = .error f) :
    f.isLexical = false := by
  unfold leafChildren at h
  split at h <;> cases h
  rfl

theorem native_asNode (v : Value) : Native (asNode v) :=
  native_reading fun _ _ => isLexical_of_spread (fun _ _ => isLexical_of_leafNode) _

theorem native_constructNode (kind : NodeKind) (arguments : List Value) :
    Native (constructNode kind arguments) := by
  refine native_reading fun lists f h => ?_
  cases hc : arguments.mapM (toChildren lists) with
  | ok cs =>
    rw [hc] at h
    cases h
  | error e =>
    rw [hc] at h
    cases h
    obtain ⟨v, -, hv⟩ := exists_of_mapM_error hc
    exact isLexical_of_spread (fun _ _ => isLexical_of_leafChildren) _ hv

end

/-! ## Functions of the globals -/

theorem native_splice (v : Value) : Native (splice v) := by
  unfold splice
  split
  · exact .pure _
  · exact .bind (native_asNode _) native_newNode

theorem native_callNodes (name : String) (arguments : List Value) :
    Native (callNodes name arguments) := by
  have first {β : Type} {k : Value → Run β} (function : String) (hk : ∀ v, Native (k v)) :
      Native (argument arguments 0 function >>= k) := .bind (native_argument _ _ _) hk
  unfold callNodes
  split
  · exact native_newList _
  · refine first _ fun v => ?_
    split
    · split
      · exact .bind (native_typed _) fun _ => .pure _
      · exact .pure _
      · exact .fail rfl
    · exact .fail rfl
  · exact first _ fun v => .bind (native_sound _) fun _ => .pure _
  · exact first _ fun v => .bind (native_sound _) fun _ => .pure _
  · exact first _ fun v => .bind (native_typed _) fun _ => .pure _
  · exact first _ fun v => .bind (native_typed _) fun _ => .pure _
  · exact first _ native_splice
  · exact .bind (native_constructNode _ _) fun _ => native_newNode _
  · split
    · exact .bind (native_constructNode _ _) native_newNode
    · exact .fail rfl

theorem isLexical_of_provide {c : Context} {form : CallForm} {f : Fault}
    (h : c.provide form = .error f) : f.isLexical = false := by
  unfold Context.provide at h
  split at h
  · cases h
  · cases h
    rfl

theorem isLexical_of_assignWrapped {c : Context} {name : Token} {form : CallForm} {f : Fault}
    (h : c.assignWrapped name form = .error f) : f.isLexical = false := by
  unfold Context.assignWrapped at h
  cases hp : c.provide form with
  | ok n => rw [hp] at h; cases h
  | error f' =>
    rw [hp] at h
    cases h
    exact isLexical_of_provide hp

theorem native_callContext (name : String) (arguments : List Value) :
    Native (callContext name arguments) := by
  refine .bind native_currentContext fun context => ?_
  split
  · refine .bind (native_argument _ _ _) fun v => .bind (native_typed _) fun hint => ?_
    exact .bind (native_onContext _ _) fun _ => .pure _
  · have built (value : Option Node) (dynamic : Bool) :
        Native (onContext context (Context.returnStatement value dynamic) >>= newNode) :=
      .bind (native_onContext _ _) native_newNode
    have typed' (value : Option Node) (type : Value) :=
      Native.bind (native_typed type.asText) fun text => built value (isDynamicText text)
    dsimp only
    split
    · refine .bind (.map (native_asNode _)) fun value => ?_
      split
      · exact typed' _ _
      · exact built _ false
    · rw [pure_bind]
      split
      · exact typed' _ _
      · exact built _ false
  · refine .bind (native_argument _ _ _) fun v => ?_
    split
    · refine .bind (native_argument _ _ _) fun w => .bind (native_typed _) fun form => ?_
      refine .bind (native_contextAt _) fun c => ?_
      split
      · exact native_newNode _
      · next hf => exact .fail (isLexical_of_assignWrapped hf)
    · exact .fail rfl
  · refine .bind (native_argument _ _ _) fun v => .bind (native_typed _) fun form => ?_
    refine .bind (native_contextAt _) fun c => ?_
    split
    · exact .bind (native_onContext _ _) native_newNode
    · next hf => exact .fail (isLexical_of_provide hf)
  · exact .fail rfl

theorem native_callMath (name : String) (arguments : List Value) :
    Native (callMath name arguments) := by
  have two {β γ : Type} (e : Except TypeFault β) (e' : Except TypeFault γ) (k : β → γ → Value) :
      Native (typed e >>= fun a => typed e' >>= fun b => pure (k a b)) :=
    .bind (native_typed _) fun _ => .bind (native_typed _) fun _ => .pure _
  refine .bind (native_argument _ _ _) fun first => ?_
  dsimp only
  split
  · split <;> exact .bind (native_typed _) fun _ => .pure _
  · refine .bind (native_argument _ _ _) fun second => ?_
    split
    · exact two _ _ _
    · exact two _ _ _
  · refine .bind (native_argument _ _ _) fun second => ?_
    split
    · exact two _ _ _
    · exact two _ _ _
  · exact .fail rfl

theorem native_callMethod (receiver : Value) (name : String) (arguments : List Value) :
    Native (callMethod receiver name arguments) := by
  unfold callMethod
  split
  · unfold callBuiltin
    split
    · exact native_callNodes _ _
    · exact native_callContext _ _
    · exact native_callMath _ _
    · exact .fail rfl
  · exact .of_total fun _ => ⟨_, _, rfl, rfl⟩
  · exact .pure _
  · exact .pure _
  · exact .fail rfl

/-! ## Members and operators -/

theorem native_objectMember (o : TargetObject) (name : String) : Native (objectMember o name) := by
  unfold objectMember
  split
  · exact native_newObject _
  · exact native_newNode _
  · exact native_newObject _
  · exact .bind (.mapM _ fun _ _ => native_newObject _) fun _ => native_newList _
  · exact .pure _
  · exact .pure _
  · exact .pure _
  · exact .pure _
  · exact .pure _
  · exact native_newNode _
  · exact .fail rfl

theorem native_memberOf (receiver : Value) (name : String) : Native (memberOf receiver name) := by
  unfold memberOf
  split
  · unfold builtinMember
    dsimp only
    split
    · exact .pure _
    · exact .fail rfl
  · exact .of_total fun _ => ⟨_, _, rfl, rfl⟩
  · exact .pure _
  · exact native_objectMember _ _
  · exact .fail rfl

theorem native_binary (operator : TokenKind) (l r : Value) : Native (binary operator l r) := by
  unfold binary
  split
  · exact .pure _
  split
  · exact .pure _
  split
  · exact .bind (native_sound _) fun _ => .bind (native_sound _) fun _ => .pure _
  split
  · exact native_typed _
  · exact .fail rfl

theorem native_castTo (type : String) (v : Value) : Native (castTo type v) := by
  unfold castTo
  split
  · exact .pure _
  · exact .pure _
  · exact .pure _
  · exact .pure _
  · exact .pure _
  · exact .pure _
  · split
    · exact .pure _
    · exact .fail rfl
  · exact .bind (native_sound _) fun _ => .pure _
  · exact .pure _

theorem native_literalValue (n : Node) : Native (literalValue n) := by
  have read (t : Token) (v : Option Value) :
      Native (expect (.type (.malformedLiteral t.text)) v) := native_expect rfl v
  unfold literalValue
  split
  · exact .fail rfl
  · split
    · exact read _ _
    · exact read _ _
    · exact .pure _
    · exact read _ _
    · exact .pure _
    · exact .pure _
    · exact .pure _

end Stencil.Expansion
