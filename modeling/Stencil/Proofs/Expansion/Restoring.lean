import Stencil.Proofs.Expansion.Following

/-!
# What a run gives back

While a generator runs, two things about its surroundings change: which contexts are active, and in
which scope of the generated code a context defines names. A run *restores* them if it leaves them
as they were, whether it gives an answer or stops.

Only three steps change them at all. A context is made active and left again (`entering`), a scope
is opened and closed (`inNestedScope`), and both put things back by what they noted before, not by
what they find; so they restore if what runs inside does. All other steps of a context may name
things, but stay in the scope they are in.

Results:

* `Restores.bind`, `Restores.mapM`, `Restores.filterMapM` – runs that restore compose;
* `restores_inNestedScope`, `restores_entering` – the steps that put things back;
* `restores_call` – a call of a closure restores, and so does each statement and expression;
* `expandIn_restores` – a whole expansion restores, also if it fails.
-/
namespace Stencil.Expansion

/-- The scope in which the context of a number defines names. -/
def Machine.scopeOf? (m : Machine) (context : Nat) : Option Nat :=
  (m.contexts[context]?).map Context.scope

/-- The machine after a run, however it ended. -/
def machineAfter {α : Type} : EStateM.Result Stop Machine α → Machine
  | .ok _ n => n
  | .error _ n => n

/-- The second machine has the surroundings of the first: the same contexts are active, and each
context is in the scope in which it was. -/
structure Restored (m n : Machine) : Prop where
  active : n.active = m.active
  scopes : ∀ context, n.scopeOf? context = m.scopeOf? context

theorem Restored.refl (m : Machine) : Restored m m := ⟨rfl, fun _ => rfl⟩

theorem Restored.trans {l m n : Machine} (h : Restored l m) (h' : Restored m n) : Restored l n :=
  ⟨h'.active.trans h.active, fun context => (h'.scopes context).trans (h.scopes context)⟩

/-- Lists, frames and numbers are no surroundings. -/
theorem Restored.of_contexts {m n : Machine} (ha : n.active = m.active)
    (hc : n.contexts = m.contexts) : Restored m n :=
  ⟨ha, fun context => by rw [Machine.scopeOf?, Machine.scopeOf?, hc]⟩

/-- The run leaves the surroundings as they were, however it ends. -/
def Restores {α : Type} (run : Run α) : Prop := ∀ m, Restored m (machineAfter (run m))

variable {α β γ : Type}

/-! ## Composing runs that restore -/

namespace Restores

theorem pure (a : α) : Restores (pure a : Run α) := Restored.refl

theorem throw (e : Stop) : Restores (throw e : Run α) := Restored.refl

theorem fail (f : Fault) : Restores (fail f : Run α) := Restored.refl

theorem of_computes {P : α → Prop} {run : Run α} (h : Computes P run) : Restores run := by
  intro m
  rcases h with ⟨a, -, ha⟩ | ⟨e, -, he⟩
  · rw [ha]
    exact .refl m
  · rw [he]
    exact .refl m

/-- A step that gives an answer and changes neither contexts nor which are active. -/
theorem modifyGet {step : Machine → α × Machine} (ha : ∀ m, (step m).2.active = m.active)
    (hc : ∀ m, (step m).2.contexts = m.contexts) : Restores (modifyGet step : Run α) :=
  fun m => .of_contexts (ha m) (hc m)

theorem bind {f : Run α} {k : α → Run β} (hf : Restores f) (hk : ∀ a, Restores (k a)) :
    Restores (f >>= k) := by
  intro m
  have first := hf m
  rw [run_bind]
  cases hr : f m with
  | ok a n =>
    rw [hr] at first
    exact first.trans (hk a n)
  | error e n =>
    rw [hr] at first
    exact first

theorem ite {c : Prop} [Decidable c] {f g : Run α} (hf : Restores f) (hg : Restores g) :
    Restores (if c then f else g) := by
  split
  · exact hf
  · exact hg

/-- Looking at the machine changes nothing. -/
theorem look {k : Machine → Run α} (hk : ∀ m, Restores (k m)) :
    Restores (get >>= k) := bind Restored.refl hk

theorem map {f : Run α} {g : α → β} (hf : Restores f) : Restores (g <$> f) :=
  bind hf fun a => pure (g a)

theorem discard {f : Run α} (hf : Restores f) : Restores (Functor.discard f) := map hf

theorem mapM {f : γ → Run α} (xs : List γ) (hf : ∀ x ∈ xs, Restores (f x)) :
    Restores (xs.mapM f) := by
  induction xs with
  | nil =>
    rw [List.mapM_nil]
    exact pure []
  | cons x xs ih =>
    rw [List.mapM_cons]
    refine bind (hf x (by simp)) fun a => bind (ih fun y hy => hf y (by simp [hy])) fun as => ?_
    exact pure (a :: as)

theorem forM {f : γ → Run PUnit} (xs : List γ) (hf : ∀ x ∈ xs, Restores (f x)) :
    Restores (xs.forM f) := by
  induction xs with
  | nil => exact pure _
  | cons x xs ih => exact bind (hf x (by simp)) fun _ => ih fun y hy => hf y (by simp [hy])

theorem filterMapM {f : γ → Run (Option α)} (xs : List γ) (hf : ∀ x ∈ xs, Restores (f x)) :
    Restores (xs.filterMapM f) := by
  have loop (kept : List α) : Restores (List.filterMapM.loop f xs kept) := by
    induction xs generalizing kept with
    | nil => exact pure _
    | cons x xs ih =>
      rw [List.filterMapM.loop]
      refine bind (hf x (by simp)) fun a => ?_
      cases a with
      | none => exact ih (fun y hy => hf y (by simp [hy])) _
      | some b => exact ih (fun y hy => hf y (by simp [hy])) _
  exact loop []

end Restores

/-! ## Actions of a context -/

/-- The action of a context ends in the scope it began in. -/
def StaysInScope (act : StateM Context α) : Prop := ∀ c, (act.run c).2.scope = c.scope

theorem staysInScope_pure (a : α) : StaysInScope (pure a) := fun _ => rfl

theorem StaysInScope.bind {act : StateM Context α} {k : α → StateM Context β}
    (h : StaysInScope act) (hk : ∀ a, StaysInScope (k a)) : StaysInScope (act >>= k) :=
  fun c => (hk (act.run c).1 (act.run c).2).trans (h c)

theorem staysInScope_freshName (hint : String) : StaysInScope (Context.freshName hint) :=
  fun _ => rfl

theorem staysInScope_lowerReturn (shape : ResultShape) (value : Option Node) (dynamic : Bool) :
    StaysInScope (lowerReturn Context.freshName shape value dynamic) := by
  have named (hint : String) (build : String → Node) :
      StaysInScope (Context.freshName hint >>= fun name => pure (build name)) :=
    (staysInScope_freshName hint).bind fun name => staysInScope_pure (build name)
  unfold lowerReturn
  split
  · exact staysInScope_pure _
  · exact staysInScope_pure _
  · exact staysInScope_pure _
  · exact staysInScope_pure _
  · exact staysInScope_pure _
  · exact named _ _
  · exact named _ _
  · exact named _ _
  · exact named _ _

theorem staysInScope_returnStatement (value : Option Node) (dynamic : Bool) :
    StaysInScope (Context.returnStatement value dynamic) :=
  fun c => staysInScope_lowerReturn c.target.result value dynamic c

/-! ## Elementary runs -/

theorem restores_typed (e : Except TypeFault α) : Restores (typed e) :=
  .of_computes (computes_typed e)

theorem restores_sound (e : Except Defect α) : Restores (sound e) :=
  .of_computes (computes_sound e)

theorem restores_expect (f : Fault) (a : Option α) : Restores (expect f a) := by
  cases a with
  | none => exact .fail f
  | some a => exact .pure a

theorem restores_newNode (n : Node) : Restores (newNode n) :=
  .bind (.modifyGet (fun _ => rfl) fun _ => rfl) fun _ => .pure _

theorem restores_newObject (o : TargetObject) : Restores (newObject o) :=
  .bind (.modifyGet (fun _ => rfl) fun _ => rfl) fun _ => .pure _

theorem restores_newList (items : Array Value) : Restores (newList items) :=
  .bind (.modifyGet (fun _ => rfl) fun _ => rfl) fun _ => .pure _

theorem restores_listAt (place : Nat) : Restores (listAt place) := .look fun _ => .pure _

theorem restores_itemsOf (v : Value) : Restores (itemsOf v) := by
  unfold itemsOf
  split
  · exact .bind (restores_listAt _) fun _ => .pure _
  · exact .pure _
  · exact .fail _

theorem restores_nestedIn (env : Scoping) : Restores (nestedIn env) :=
  .modifyGet (fun _ => rfl) fun _ => rfl

theorem restores_define (env : Scoping) (name : String) (v : Value) :
    Restores (define env name v) := by
  cases env with
  | nil => exact .pure _
  | cons frame env => exact .modifyGet (fun _ => rfl) fun _ => rfl

theorem restores_assignTo (env : Scoping) (target : Node) (v : Value) :
    Restores (assignTo env target v) := by
  have assigned (name : String) : Restores (assignVariable env name v) := by
    intro m
    rw [assignVariable_eq]
    split
    · exact .refl m
    · exact .of_contexts rfl rfl
  unfold assignTo
  split
  · exact .fail _
  · refine .bind (assigned _) fun found => ?_
    split
    · exact .fail _
    · exact .pure _

theorem restores_contextAt (context : Nat) : Restores (contextAt context) :=
  .look fun _ => restores_expect _ _

theorem restores_currentContext : Restores currentContext := .look fun _ => restores_expect _ _

theorem restores_reading (read : Array (Array Value) → Except Stop α) :
    Restores (reading read) := by
  refine .look fun m => ?_
  cases read m.lists with
  | error e => exact .throw e
  | ok a => exact .pure a

theorem restores_argument (arguments : List Value) (index : Nat) (function : String) :
    Restores (argument arguments index function) := .of_computes (computes_argument ..)

/-! ## Steps that put things back -/

/-- Replacing a context by one in another scope changes the scope of that context only. -/
theorem scopeOf?_setIfInBounds (m : Machine) (context : Nat) (c : Context) (i : Nat) :
    ({ m with contexts := m.contexts.setIfInBounds context c }).scopeOf? i =
      if context = i then (m.scopeOf? i).map fun _ => c.scope else m.scopeOf? i := by
  unfold Machine.scopeOf?
  rw [Array.getElem?_setIfInBounds]
  split
  · next h =>
    subst h
    split
    · next hlt => simp [hlt]
    · next hlt => simp [hlt]
  · rfl

theorem scopeOf?_popScope (m : Machine) (context outer i : Nat) :
    ({ m with contexts := m.contexts.modify context (·.popScope outer) }).scopeOf? i =
      if context = i then (m.scopeOf? i).map fun _ => outer else m.scopeOf? i := by
  unfold Machine.scopeOf?
  rw [Array.getElem?_modify]
  split
  · rw [Option.map_map, Option.map_map]
    rfl
  · rfl

/-- What an action of a context makes of the machine. -/
theorem onContext_run (context : Nat) (act : StateM Context α) (m : Machine) :
    (m.contexts[context]? = none ∧ onContext context act m = .error (.fault .noContext) m) ∨
    ∃ c, m.contexts[context]? = some c ∧ onContext context act m = .ok (act.run c).1
      { m with contexts := m.contexts.setIfInBounds context (act.run c).2 } := by
  have found : contextAt context m = expect .noContext m.contexts[context]? m := rfl
  rw [onContext, run_bind, found]
  cases h : m.contexts[context]? with
  | none => exact .inl ⟨rfl, rfl⟩
  | some c => exact .inr ⟨c, rfl, rfl⟩

theorem restores_onContext (context : Nat) {act : StateM Context α} (h : StaysInScope act) :
    Restores (onContext context act) := by
  intro m
  obtain ⟨-, hr⟩ | ⟨c, hc, hr⟩ := onContext_run context act m
  · rw [hr]
    exact .refl m
  · rw [hr]
    refine ⟨rfl, fun i => ?_⟩
    rw [machineAfter, scopeOf?_setIfInBounds]
    split
    · next hi =>
      subst hi
      rw [Machine.scopeOf?, hc, h c]
      rfl
    · rfl

/-- The scope is closed again by the number it had outside, so it does not matter in which scope
what runs inside ends. -/
theorem restores_inNestedScope (context : Nat) {act : Run α} (h : Restores act) :
    Restores (inNestedScope context act) := by
  intro m
  rw [inNestedScope, run_bind]
  obtain ⟨-, hr⟩ | ⟨c, hc, hr⟩ := onContext_run context Context.pushScope m
  · rw [hr]
    exact .refl m
  · rw [hr]
    let inner := (Context.pushScope.run c).2
    let opened : Machine := { m with contexts := m.contexts.setIfInBounds context inner }
    have outer : (Context.pushScope.run c).1 = c.scope := rfl
    have inside := h opened
    have closed (n : Machine) (hn : Restored opened n) : Restored m
        { n with contexts := n.contexts.modify context (·.popScope c.scope) } := by
      refine ⟨hn.active, fun i => ?_⟩
      rw [scopeOf?_popScope, hn.scopes i, scopeOf?_setIfInBounds]
      split
      · next hi =>
        subst hi
        rw [Machine.scopeOf?, hc]
        rfl
      · rfl
    dsimp only
    rw [outer, ensuring]
    cases hact : act opened with
    | ok a n =>
      rw [hact] at inside
      exact closed n inside
    | error e n =>
      rw [hact] at inside
      exact closed n inside

theorem restores_entering (context : Nat) {act : Run α} (h : Restores act) :
    Restores (entering context act) := by
  intro m
  have entered : (modifyGet (·.enter context) : Run Nat) m =
      .ok m.active.length { m with active := context :: m.active } := rfl
  rw [entering, run_bind, entered]
  have inside := h { m with active := context :: m.active }
  have left (n : Machine) (hn : Restored { m with active := context :: m.active } n) :
      Restored m (n.leave m.active.length) := by
    refine ⟨?_, fun i => hn.scopes i⟩
    rw [Machine.leave, hn.active, List.length_cons, Nat.add_sub_cancel_left]
    rfl
  dsimp only
  rw [ensuring]
  cases hact : act { m with active := context :: m.active } with
  | ok a n =>
    rw [hact] at inside
    exact left n inside
  | error e n =>
    rw [hact] at inside
    exact left n inside

/-! ## Built-in functions -/

theorem restores_callNodes (name : String) (arguments : List Value) :
    Restores (callNodes name arguments) := by
  have first {k : Value → Run Value} (function : String) (hk : ∀ v, Restores (k v)) :
      Restores (argument arguments 0 function >>= k) :=
    .bind (restores_argument arguments 0 function) hk
  have built (kind : NodeKind) (finish : Node → Node) :
      Restores (constructNode kind arguments >>= fun n => newNode (finish n)) :=
    .bind (restores_reading _) fun n => restores_newNode (finish n)
  unfold callNodes
  split
  · exact restores_newList _
  · refine first _ fun v => ?_
    split
    · split
      · exact .bind (restores_typed _) fun _ => .pure _
      · exact .pure _
      · exact .fail _
    · exact .fail _
  · exact first _ fun v => .bind (restores_sound _) fun _ => .pure _
  · exact first _ fun v => .bind (restores_sound _) fun _ => .pure _
  · exact first _ fun v => .bind (restores_typed _) fun _ => .pure _
  · exact first _ fun v => .bind (restores_typed _) fun _ => .pure _
  · refine first _ fun v => ?_
    unfold splice
    split
    · exact .pure _
    · exact .bind (restores_reading _) restores_newNode
  · exact built .block (·.mark .synthetic)
  · split
    · exact built _ id
    · exact .fail _

theorem restores_callContext (name : String) (arguments : List Value) :
    Restores (callContext name arguments) := by
  have returned (context : Nat) (value : Option Node) (dynamic : Bool) :
      Restores (onContext context (Context.returnStatement value dynamic) >>= newNode) :=
    .bind (restores_onContext context (staysInScope_returnStatement value dynamic)) restores_newNode
  refine .bind restores_currentContext fun context => ?_
  split
  · refine .bind (restores_argument arguments _ _) fun v => .bind (restores_typed _) fun hint => ?_
    exact .bind (restores_onContext context (staysInScope_freshName hint)) fun _ => .pure _
  · dsimp only
    split
    · refine .bind (.map (restores_reading _)) fun v => ?_
      split
      · exact .bind (restores_typed _) fun _ => returned context v _
      · exact returned context v false
    · rw [pure_bind]
      split
      · exact .bind (restores_typed _) fun _ => returned context none _
      · exact returned context none false
  · refine .bind (restores_argument arguments _ _) fun v => ?_
    split
    · refine .bind (restores_argument arguments _ _) fun w =>
        .bind (restores_typed _) fun form => ?_
      refine .bind (restores_contextAt context) fun c => ?_
      split
      · exact restores_newNode _
      · exact .fail _
    · exact .fail _
  · refine .bind (restores_argument arguments _ _) fun v => .bind (restores_typed _) fun form => ?_
    refine .bind (restores_contextAt context) fun c => ?_
    split
    · exact returned context _ false
    · exact .fail _
  · exact .fail _

theorem restores_callMethod (receiver : Value) (name : String) (arguments : List Value) :
    Restores (callMethod receiver name arguments) := by
  unfold callMethod
  split
  · unfold callBuiltin
    split
    · exact restores_callNodes _ _
    · exact restores_callContext _ _
    · exact .of_computes (computes_callMath _ _)
    · exact .fail _
  · exact .bind (.modifyGet (fun _ => rfl) fun _ => rfl) fun _ => .pure _
  · exact .pure _
  · exact .pure _
  · exact .fail _

theorem restores_memberOf (receiver : Value) (name : String) :
    Restores (memberOf receiver name) := by
  unfold memberOf
  split
  · unfold builtinMember
    dsimp only
    split
    · exact .pure _
    · exact .fail _
  · exact .bind (restores_listAt _) fun _ => .pure _
  · exact .pure _
  · unfold objectMember
    split
    · exact restores_newObject _
    · exact restores_newNode _
    · exact restores_newObject _
    · exact .bind (.mapM _ fun _ _ => restores_newObject _) fun _ => restores_newList _
    · exact .pure _
    · exact .pure _
    · exact .pure _
    · exact .pure _
    · exact .pure _
    · exact restores_newNode _
    · exact .fail _
  · exact .fail _

theorem restores_valueNamed (own : Nat) (env : Scoping) (name : String) :
    Restores (valueNamed own env name) := by
  refine .look fun m => ?_
  split
  · exact .pure _
  · refine .bind (restores_contextAt own) fun c => ?_
    unfold globalNamed
    split
    · exact restores_newObject _
    · split
      · exact .pure _
      · exact .fail _

/-! ## Statements and expressions -/

theorem restores_childOf (n : Node) (index : Nat) : Restores (childOf n index) :=
  .of_computes (computes_childOf n index)

theorem restores_clauseOf (n : Node) (kind : NodeKind) : Restores (clauseOf n kind) := by
  unfold clauseOf
  split
  · exact .map (restores_childOf _ 0)
  · exact .pure _

theorem restores_closureOf (env : Scoping) (n : Node) : Restores (closureOf env n) := by
  unfold closureOf
  split
  · exact .fail _
  · exact .bind (.modifyGet (fun _ => rfl) fun _ => rfl) fun _ => .pure _

theorem restores_value (flow : Flow) : Restores flow.value := by
  unfold Flow.value
  split
  · exact .pure _
  · exact .pure _
  · exact .fail _
  · exact .fail _

theorem Restores.inOrder {run : α → Run Flow} (items : List α)
    (h : ∀ a ∈ items, Restores (run a)) : Restores (inOrder run items) := by
  induction items with
  | nil => exact .pure _
  | cons a rest ih =>
    unfold Expansion.inOrder
    refine .bind (h a (by simp)) fun flow => ?_
    split
    · exact ih fun b hb => h b (by simp [hb])
    · exact .pure _

theorem Restores.forEachItem {run : Value → Run Flow} (items : List Value)
    (h : ∀ v ∈ items, Restores (run v)) : Restores (forEachItem run items) := by
  rw [forEachItem_eq]
  exact .bind (.inOrder items fun v hv => .bind (h v hv) fun _ => .pure _) fun _ => .pure _

/-- Everything that a budget allows to run restores. -/
structure RestoresWithin (own budget : Nat) : Prop where
  exec : ∀ env n, Restores (exec own budget env n)
  loop : ∀ env condition increment body, Restores (loop own budget env condition increment body)
  eval : ∀ env n, Restores (eval own budget env n)
  call : ∀ c arguments, Restores (call own budget c arguments)

section

variable {own budget : Nat} (h : RestoresWithin own budget) (env : Scoping)
include h

/-- Evaluating the child at an index and going on with its value. -/
theorem RestoresWithin.evalChild (n : Node) (index : Nat) {k : Value → Run α}
    (hk : ∀ v, Restores (k v)) :
    Restores (childOf n index >>= fun m => Expansion.eval own budget env m >>= k) :=
  .bind (restores_childOf n index) fun m => .bind (h.eval env m) hk

/-- Evaluating the child at an index to a truth value and going on by it. -/
theorem RestoresWithin.testChild (n : Node) (index : Nat) {k : Bool → Run α}
    (hk : ∀ b, Restores (k b)) :
    Restores (childOf n index >>= fun m => Expansion.eval own budget env m >>= fun v =>
      typed v.asBool >>= k) :=
  h.evalChild env n index fun v => .bind (restores_typed v.asBool) hk

theorem RestoresWithin.execChild (n : Node) (index : Nat) :
    Restores (childOf n index >>= fun m => Expansion.exec own budget env m) :=
  .bind (restores_childOf n index) fun m => h.exec env m

theorem restores_loop (condition increment : Option Node) (body : Node) :
    Restores (loop own (budget + 1) env condition increment body) := by
  have turn {k : Flow → Run Flow} (hk : ∀ flow, Restores (k flow)) (more : Bool) :
      Restores (if !more then pure Flow.ongoing else exec own budget env body >>= k) :=
    .ite (.pure Flow.ongoing) (.bind (h.exec env body) hk)
  unfold loop
  cases condition
  case' none => refine .bind (.pure true) (turn fun flow => ?_)
  case' some test =>
    refine .bind (h.eval env test) fun v => .bind (restores_typed _) (turn fun flow => ?_)
  all_goals
    split
    · exact .pure _
    · exact .pure _
    · dsimp only
      split
      · exact .bind (.discard (h.eval env _)) fun _ => h.loop env _ _ body
      · exact h.loop env _ _ body

theorem restores_exec (n : Node) : Restores (exec own (budget + 1) env n) := by
  unfold exec
  split
  · exact .bind (restores_nestedIn env) fun inner => .inOrder _ fun m _ => h.exec inner m
  · refine .bind (.forM _ fun declarator _ => ?_) fun _ => .pure _
    split
    · exact .bind (h.eval env _) fun v => restores_define env _ v
    · exact .bind (.pure _) fun v => restores_define env _ v
  · exact .bind (restores_childOf n 0) fun m => .bind (.discard (h.eval env m)) fun _ => .pure _
  · exact .pure _
  · refine h.testChild env n 0 fun b => ?_
    split
    · exact h.execChild env n 1
    · split
      · exact h.execChild env _ 0
      · exact .pure _
  · split
    · exact .fail _
    · refine h.evalChild env n 0 fun v => .bind (restores_itemsOf v) fun items => ?_
      refine .bind (restores_childOf n 1) fun body => .forEachItem items fun item _ => ?_
      refine .bind (restores_nestedIn env) fun inner => ?_
      exact .bind (restores_define inner _ item) fun _ => h.exec inner body
  · refine .bind (restores_childOf n 0) fun condition => .bind (restores_childOf n 1) fun body => ?_
    exact h.loop env (some condition) none body
  · refine .bind (restores_childOf n 0) fun body => .bind (restores_childOf n 1) fun condition => ?_
    refine .bind (h.exec env body) fun flow => ?_
    split
    · exact .pure _
    · exact .pure _
    · exact h.loop env (some condition) none body
  · refine .bind (restores_nestedIn env) fun inner => .bind (restores_childOf n 0) fun start => ?_
    refine .bind (.discard (h.exec inner start)) fun _ => ?_
    refine .bind (restores_childOf n 1) fun condition => .bind (restores_childOf n 2) fun step => ?_
    exact .bind (restores_childOf n 3) fun body => h.loop inner _ _ body
  · split
    · exact .bind (h.eval env _) fun v => .pure _
    · exact .pure _
  · exact .pure _
  · exact .pure _
  · split
    · exact .bind (.discard (h.eval env n)) fun _ => .pure _
    · exact .fail _

theorem restores_eval (n : Node) : Restores (eval own (budget + 1) env n) := by
  unfold eval
  split
  · exact .of_computes (computes_literalValue n)
  · exact restores_valueNamed own env _
  · exact .bind (restores_childOf n 0) fun m => h.eval env m
  · refine .bind (.of_computes (computes_operatorOf n)) fun operator => ?_
    refine h.evalChild env n 0 fun l => ?_
    split
    · refine .bind (restores_typed _) fun b => ?_
      split
      · exact .pure _
      · exact h.testChild env n 1 fun b => .pure _
    · exact h.evalChild env n 1 fun r => .of_computes (computes_binary operator l r)
  · refine h.evalChild env n 0 fun v =>
      .bind (.of_computes (computes_operatorOf n)) fun operator => ?_
    split
    · exact .bind (restores_typed _) fun _ => .pure _
    · exact .pure _
    · exact .pure _
    · exact .fail _
  · refine .bind (restores_childOf n 0) fun target => .bind (h.eval env target) fun old => ?_
    refine .bind (.of_computes (computes_operatorOf n)) fun operator => ?_
    refine .bind (.of_computes (computes_binary _ old _)) fun v => ?_
    exact .bind (restores_assignTo env target v) fun _ => .pure old
  · have stored (target : Node) (v : Value) :
        Restores (assignTo env target v >>= fun _ => pure v : Run Value) :=
      .bind (restores_assignTo env target v) fun _ => .pure v
    have combined (target : Node) (operator : TokenKind) (v : Value) :
        Restores (do
          let v ← binary operator (← eval own budget env target) v
          assignTo env target v
          return v) :=
      .bind (h.eval env target) fun old =>
        .bind (.of_computes (computes_binary operator old v)) fun v => stored target v
    refine .bind (restores_childOf n 0) fun target => h.evalChild env n 1 fun v => ?_
    refine .bind (.of_computes (computes_operatorOf n)) fun operator => ?_
    split
    · exact combined target .plus v
    · exact combined target .minus v
    · exact .bind (.pure v) fun v => stored target v
  · refine h.testChild env n 0 fun b => ?_
    split
    · exact .bind (restores_childOf n 1) fun m => h.eval env m
    · exact .bind (restores_childOf n 2) fun m => h.eval env m
  · refine .bind (restores_childOf n 0) fun callee => ?_
    refine .bind (.mapM _ fun m _ => h.eval env m) fun arguments => ?_
    split
    · exact h.evalChild env callee 0 fun receiver => restores_callMethod receiver _ arguments
    · refine .bind (h.eval env callee) fun v => ?_
      split
      · exact h.call _ arguments
      · exact .fail _
  · exact h.evalChild env n 0 fun v => restores_memberOf v _
  · refine h.evalChild env n 0 fun receiver => h.evalChild env n 1 fun v => ?_
    refine .bind (restores_typed _) fun index => .bind (restores_itemsOf receiver) fun items => ?_
    exact .of_computes (computes_itemAt index items)
  · refine .bind (restores_childOf n 0) fun type => h.evalChild env n 1 fun v => ?_
    exact .of_computes (computes_castTo _ v)
  · exact .bind (.mapM _ fun m _ => h.eval env m) fun _ => restores_newList _
  · exact restores_closureOf env n
  · refine h.evalChild env n 0 fun v => .bind (restores_itemsOf v) fun items => ?_
    refine .bind (restores_clauseOf n _) fun condition =>
      .bind (restores_clauseOf n _) fun projection => ?_
    refine .bind (.filterMapM items fun item _ => ?_) fun _ => restores_newList _
    refine .bind (restores_nestedIn env) fun inner => ?_
    refine .bind (restores_define inner _ item) fun _ => ?_
    have tested {run : Run (Option Value)} (hr : Restores run) (kept : Bool) :
        Restores (if !kept then pure none else run) := .ite (.pure none) hr
    cases projection with
    | none =>
      cases condition with
      | none => exact .bind (.pure true) (tested (.pure _))
      | some test =>
        exact .bind (h.eval inner test) fun v => .bind (restores_typed _) (tested (.pure _))
    | some selected =>
      have mapped := Restores.map (g := some) (h.eval inner selected)
      cases condition with
      | none => exact .bind (.pure true) (tested mapped)
      | some test =>
        exact .bind (h.eval inner test) fun v => .bind (restores_typed _) (tested mapped)
  · exact .fail _
  · exact .fail _
  · exact .fail _

omit env in
theorem restores_call (c : Closure) (arguments : List Value) :
    Restores (call own (budget + 1) c arguments) := by
  unfold call
  split
  · exact .fail _
  · refine .bind (restores_nestedIn c.captured) fun env => ?_
    refine .bind (.forM _ fun _ _ => restores_define env _ _) fun _ => ?_
    apply restores_inNestedScope
    split
    · exact .bind (h.exec env c.body) restores_value
    · exact h.eval env c.body

end

/-- One unit of budget more allows one step more, so everything restores whatever the budget. -/
theorem restoresWithin (own budget : Nat) : RestoresWithin own budget := by
  induction budget with
  | zero =>
    refine ⟨fun _ _ => ?_, fun _ _ _ _ => ?_, fun _ _ => ?_, fun _ _ => ?_⟩
    · unfold exec
      exact .throw _
    · unfold loop
      exact .throw _
    · unfold eval
      exact .throw _
    · unfold call
      exact .throw _
  | succ budget ih =>
    exact ⟨restores_exec ih, restores_loop ih, restores_eval ih, restores_call ih⟩

theorem restores_interpret (own budget : Nat) (program : Node) :
    Restores (interpret own budget program) := by
  have bound (env : Scoping) (parameter : Node) : Restores (bindParameter own env parameter) := by
    refine .bind (restores_contextAt own) fun c => ?_
    split
    · exact restores_define env _ _
    · exact .fail _
  refine .bind (restores_nestedIn []) fun env => .bind (.forM _ fun p _ => bound env p) fun _ => ?_
  split
  · exact .bind ((restoresWithin own budget).exec env _) restores_value
  · exact .pure _

/-- **Expansion restores.** On every machine, whatever contexts are active and set up there: an
expansion that gives a tree, or stops at whatever depth of calls and for whatever reason, leaves the
same contexts active and every context in the scope in which it was. After a tree or a fault another
expansion may go on with the machine, and this is what it relies on. A defect ends the program; that
the scopes are put back then, too, is the convention of `inNestedScope`. -/
theorem expandIn_restores (own budget : Nat) (program : Node) (m : Machine) :
    match expandIn own budget program m with
    | .ok _ n | .error _ n =>
      n.active = m.active ∧ ∀ context, n.scopeOf? context = m.scopeOf? context := by
  have flattens (v : Value) : Restores (flattened v) := by
    unfold flattened
    split
    · exact .pure _
    · exact .fail _
  have restored := restores_entering own
    (.bind (restores_interpret own budget program) flattens) m
  change Restored m (machineAfter (expandIn own budget program m)) at restored
  split
  · next hr => exact ⟨(hr ▸ restored).active, (hr ▸ restored).scopes⟩
  · next hr => exact ⟨(hr ▸ restored).active, (hr ▸ restored).scopes⟩

end Stencil.Expansion
