import Stencil.Proofs.Expansion.Native
import Stencil.Proofs.Expansion.Straight

/-!
# Guarded code

A program may stop because a name it reads is not defined, or because a jump leaves the body it is
run in. Code that guards against this can be told from its text: names are read where they have been
declared, in the same block or one around it, and jumps stand in loops of their own body. What is
guarded against is a parameter, a *concern*, which also says which names variables may have.

Results:

* `fares_eval`, `fares_exec` – guarded code does not stop for what is guarded against, and gives
  names to variables that they may have.
-/
namespace Stencil.Expansion

/-- What is guarded against. -/
structure Concern where
  /-- jumps that leave the bodies they are run in -/
  jumps : Bool
  /-- reading these names before they are declared -/
  watched : String → Prop
  /-- variables with other names than these -/
  allowed : String → Prop

/-- A fault that is not guarded against. -/
def Concern.Tolerates (c : Concern) : Fault → Prop
  | .strayJump _ => c.jumps = false
  | .undefined name => ¬c.watched name
  | _ => True

theorem Concern.tolerates_of_native (c : Concern) {f : Fault} (h : f.isLexical = false) :
    c.Tolerates f := by
  cases f <;> trivial

/-- What statements declare for those that follow them in a block. -/
def declaredBy (steps : List Node) : List String :=
  (steps.filter (·.kind == .localDeclaration)).flatMap fun d => d.nodes.map Node.nameOrEmpty

theorem declaredBy_append (steps others : List Node) :
    declaredBy (steps ++ others) = declaredBy steps ++ declaredBy others := by
  simp [declaredBy]

theorem declaredBy_singleton {n : Node} (h : n.kind ≠ .localDeclaration) : declaredBy [n] = [] := by
  simp [declaredBy, h]

/-- The code guards against `c` where the names `known` are declared and, if `inside`, a loop of the
same body is around it. -/
inductive Guarded (c : Concern) : Bool → List String → Node → Prop
  | plain {inside : Bool} {known : List String} {n : Node} (supported : Staging.isSupported n.kind)
    (rule : Rule n.kind n.outline) (open_ : n.kind ≠ .block)
    (name : n.kind = .identifier → c.watched n.nameOrEmpty → n.nameOrEmpty ∈ known)
    (jump : n.kind = .breakStatement ∨ n.kind = .continueStatement → c.jumps = true → inside = true)
    (binder : n.kind = .declarator ∨ n.kind = .forEachStatement → c.allowed n.nameOrEmpty)
    (parts : ∀ m ∈ n.nodes, Guarded c (inside || n.kind == .forEachStatement) known m) :
    Guarded c inside known n
  | block {inside : Bool} {known : List String} {n : Node} (kind : n.kind = .block)
    (rule : Rule n.kind n.outline)
    (parts : ∀ pre m post, n.nodes = pre ++ m :: post →
      Guarded c inside (declaredBy pre ++ known) m) : Guarded c inside known n
  | called {inside : Bool} {known : List String} {n callee made body : Node}
    (kind : n.kind = .invocation) (nodes : n.nodes = [callee])
    (calleeKind : callee.kind = .parenthesized) (calleeNodes : callee.nodes = [made])
    (madeKind : made.kind = .lambda) (madeNodes : made.nodes = [body])
    (bodyKind : body.kind = .block) (guarded : Guarded c false known body) :
    Guarded c inside known n

namespace Guarded

variable {c : Concern} {inside : Bool} {known : List String} {n m : Node}

theorem child (h : Guarded c inside known n)
    (hk : n.kind ≠ .invocation ∧ n.kind ≠ .block ∧ n.kind ≠ .forEachStatement)
    (hm : m ∈ n.nodes) : Guarded c inside known m := by
  cases h with
  | plain _ _ _ _ _ _ parts => simpa [beq_eq_false_iff_ne.2 hk.2.2] using parts m hm
  | block kind => exact absurd kind hk.2.1
  | called kind => exact absurd kind hk.1

theorem name (h : Guarded c inside known n) (hk : n.kind = .identifier)
    (hw : c.watched n.nameOrEmpty) : n.nameOrEmpty ∈ known := by
  cases h with
  | plain _ _ _ name => exact name hk hw
  | block kind | called kind => rw [kind] at hk; cases hk

theorem binder (h : Guarded c inside known n)
    (hk : n.kind = .declarator ∨ n.kind = .forEachStatement) : c.allowed n.nameOrEmpty := by
  cases h with
  | plain _ _ _ _ _ binder => exact binder hk
  | block kind | called kind => simp [kind] at hk

end Guarded

/-- Code is guarded as well where more is declared and more loops are around. -/
theorem Guarded.mono {inside inside' : Bool} {known known' : List String} {n : Node}
    (h : Guarded c inside known n) (hi : inside = true → inside' = true) (hk : known ⊆ known') :
    Guarded c inside' known' n := by
  induction h generalizing inside' known' with
  | plain supported rule open_ name jump binder _ ih =>
    refine .plain supported rule open_ (fun hn hw => hk (name hn hw))
      (fun hj hc => hi (jump hj hc)) binder fun m hm => ih m hm ?_ hk
    simp only [Bool.or_eq_true]
    exact Or.imp_left hi
  | block kind rule _ ih =>
    refine .block kind rule fun pre m post hsplit => ih pre m post hsplit hi ?_
    exact List.append_subset.2
      ⟨List.subset_append_left _ _, fun s hs => List.mem_append_right _ (hk hs)⟩
  | called kind nodes calleeKind calleeNodes madeKind madeNodes bodyKind _ ih =>
    exact .called kind nodes calleeKind calleeNodes madeKind madeNodes bodyKind (ih id hk)

/-! ## Machines -/

/-- The variable is defined in one of the frames. -/
def Machine.Binds (m : Machine) (env : Scoping) (name : String) : Prop :=
  ∃ f ∈ env, ∃ vars, m.frames[f]? = some vars ∧ (vars.lookup name).isSome

theorem Machine.binds_iff {m : Machine} {env : Scoping} {name : String} :
    m.Binds env name ↔ (m.valueOf? env name).isSome := by
  rw [valueOf?, List.findSome?_isSome_iff]
  refine exists_congr fun f => and_congr_right fun _ => ?_
  cases m.frames[f]? <;> simp

/-- What is defined stays so. -/
def Retains (m n : Machine) : Prop :=
  ∀ (f : Nat) (vars : List (String × Value)), m.frames[f]? = some vars →
    ∃ vars', n.frames[f]? = some vars' ∧
      ∀ name, (vars.lookup name).isSome → (vars'.lookup name).isSome

namespace Retains

variable {m n k : Machine}

theorem of_frames (h : n.frames = m.frames) : Retains m n :=
  fun _ vars hv => ⟨vars, h ▸ hv, fun _ => id⟩

theorem refl (m : Machine) : Retains m m := of_frames rfl

theorem trans (h : Retains m n) (h' : Retains n k) : Retains m k := by
  intro f vars hv
  obtain ⟨vars', hv', names⟩ := h f vars hv
  obtain ⟨vars'', hv'', names'⟩ := h' f vars' hv'
  exact ⟨vars'', hv'', fun name hn => names' name (names name hn)⟩

theorem binds (h : Retains m n) {env : Scoping} {name : String} (hb : m.Binds env name) :
    n.Binds env name := by
  obtain ⟨f, hf, vars, hv, hn⟩ := hb
  obtain ⟨vars', hv', names⟩ := h f vars hv
  exact ⟨f, hf, vars', hv', names name hn⟩

theorem lt (h : Retains m n) {f : Nat} (hf : f < m.frames.size) : f < n.frames.size := by
  obtain ⟨vars, hv, -⟩ := h f _ (Array.getElem?_eq_getElem hf)
  exact (Array.getElem?_eq_some_iff.1 hv).1

theorem openFrame (m : Machine) : Retains m m.openFrame := by
  intro f vars hv
  have hf := (Array.getElem?_eq_some_iff.1 hv).1
  exact ⟨vars, (Machine.frames_openFrame_of_lt hf).trans hv, fun _ => id⟩

theorem update (m : Machine) (frame : Nat) (name : String) (v : Value) :
    Retains m (m.update frame name v) := by
  intro f vars hv
  by_cases hf : f = frame
  · subst hf
    refine ⟨updated name v vars, by rw [m.frames_update_self, hv, Option.map_some], ?_⟩
    intro other ho
    by_cases hother : other = name
    · rw [updated, List.lookup_cons, hother, beq_self_eq_true]
      rfl
    · rw [updated, List.lookup_cons, beq_eq_false_iff_ne.2 hother]
      exact (congrArg Option.isSome (lookup_filter_ne hother vars)).trans ho
  · exact ⟨vars, by rw [m.frames_update_of_ne (Ne.symm hf), hv], fun _ => id⟩

end Retains

/-- All variables have names that they may have. -/
def WellNamed (c : Concern) (m : Machine) : Prop :=
  ∀ (f : Nat) (vars : List (String × Value)), m.frames[f]? = some vars →
    ∀ e ∈ vars, c.allowed e.1

/-- The machine holds plain values only, under names that variables may have. -/
structure Trim (c : Concern) (own : Nat) (m : Machine) : Prop where
  plain : Closureless own m
  named : WellNamed c m

theorem WellNamed.openFrame {c : Concern} {m : Machine} (h : WellNamed c m) :
    WellNamed c m.openFrame := by
  intro f vars hv e he
  rw [Machine.openFrame, Array.getElem?_push] at hv
  split at hv
  · cases hv
    cases he
  · exact h f vars hv e he

theorem WellNamed.update {c : Concern} {m : Machine} (h : WellNamed c m) {name : String}
    (ha : c.allowed name) (frame : Nat) (v : Value) : WellNamed c (m.update frame name v) := by
  intro f vars hv e he
  rw [Machine.update, Array.getElem?_modify] at hv
  split at hv
  · obtain ⟨old, hold, rfl⟩ := Option.map_eq_some_iff.1 hv
    rcases List.mem_cons.1 he with rfl | he
    · exact ha
    · exact h f old hold e (List.mem_filter.1 he).1
  · exact h f vars hv e he

/-- A name that is already in use is one that variables may have. -/
theorem WellNamed.of_binds {c : Concern} {m : Machine} (h : WellNamed c m) {env : Scoping}
    {name : String} (hb : m.Binds env name) : c.allowed name := by
  obtain ⟨f, -, vars, hv, hn⟩ := hb
  obtain ⟨v, hv'⟩ := Option.isSome_iff_exists.1 hn
  exact h f vars hv (name, v) (mem_of_lookup hv')

/-! ## Runs -/

/-- The run does not stop for what is guarded against, and if it gives an answer, with `Q`. -/
def Fares {α : Type} (c : Concern) (own : Nat) (m : Machine) (run : Run α)
    (Q : α → Machine → Prop) : Prop :=
  match run m with
  | .ok a n => Q a n ∧ Retains m n ∧ Trim c own n
  | .error e n => (∀ f, e = .fault f → c.Tolerates f) ∧ WellNamed c n

variable {c : Concern} {own : Nat} {m : Machine}

namespace Fares

variable {α β γ : Type} {P Q : α → Machine → Prop} {R : β → Machine → Prop}

theorem pure {a : α} (hm : Trim c own m) (h : Q a m) : Fares c own m (pure a) Q :=
  ⟨h, .refl m, hm⟩

theorem throw {e : Stop} (hm : Trim c own m) (h : ∀ f, e = .fault f → c.Tolerates f) :
    Fares c own m (throw e) Q :=
  ⟨h, hm.named⟩

theorem fail {f : Fault} (hm : Trim c own m) (h : c.Tolerates f) : Fares c own m (fail f) Q :=
  throw hm fun _ hf => Stop.fault.inj hf ▸ h

theorem mono {run : Run α} (h : Fares c own m run P) (hq : ∀ a n, P a n → Retains m n → Q a n) :
    Fares c own m run Q := by
  unfold Fares at h ⊢
  cases hr : run m with
  | ok a n =>
    rw [hr] at h
    exact ⟨hq a n h.1 h.2.1, h.2⟩
  | error e n =>
    rw [hr] at h
    exact h

theorem bind {f : Run α} {k : α → Run β} (h : Fares c own m f P)
    (hk : ∀ a n, P a n → Retains m n → Trim c own n → Fares c own n (k a) R) :
    Fares c own m (f >>= k) R := by
  unfold Fares at h ⊢
  rw [run_bind]
  cases hf : f m with
  | error e n =>
    rw [hf] at h
    exact h
  | ok a n =>
    rw [hf] at h
    obtain ⟨hp, hr, hn⟩ := h
    have next := hk a n hp hr hn
    unfold Fares at next
    dsimp only
    cases hkn : k a n with
    | ok b l =>
      rw [hkn] at next
      exact ⟨next.1, hr.trans next.2.1, next.2.2⟩
    | error e l =>
      rw [hkn] at next
      exact next

/-- A built-in function, which keeps the machine plain. -/
theorem of_native {T : α → Prop} {run : Run α} (hm : Trim c own m) (hs : Settles own T run run)
    (hn : Native run) : Fares c own m run fun a _ => T a := by
  have settled := (hs m hm.plain).1
  have native := hn m
  unfold Fares
  cases hr : run m with
  | ok a n =>
    rw [hr] at settled native
    have frames : n.frames = m.frames := native
    exact ⟨settled.1, .of_frames frames, settled.2, fun f vars hv => hm.named f vars (frames ▸ hv)⟩
  | error e n =>
    rw [hr] at native
    obtain ⟨frames, lexical⟩ := native
    exact ⟨fun f hf => c.tolerates_of_native (lexical f hf),
      fun f vars hv => hm.named f vars (frames ▸ hv)⟩

theorem mapM {T : α → Prop} {f : γ → Run α} (xs : List γ) (hm : Trim c own m)
    (h : ∀ x ∈ xs, ∀ n, Retains m n → Trim c own n → Fares c own n (f x) fun a _ => T a) :
    Fares c own m (xs.mapM f) fun as _ => ∀ a ∈ as, T a := by
  induction xs generalizing m with
  | nil => exact pure hm (by simp)
  | cons x xs ih =>
    rw [List.mapM_cons]
    refine bind (h x (by simp) m (.refl m) hm) fun a n ha hr hn => ?_
    have rest := ih hn fun y hy k hk => h y (List.mem_cons_of_mem _ hy) k (hr.trans hk)
    exact bind rest fun as k has _ hk => pure hk (List.forall_mem_cons.2 ⟨ha, has⟩)

end Fares

/-! ## Variables -/

/-- The innermost of the frames is there. -/
def Opened (m : Machine) (env : Scoping) : Prop :=
  ∃ f rest, env = f :: rest ∧ f < m.frames.size

theorem Opened.retains {n : Machine} {env : Scoping} (h : Opened m env) (hr : Retains m n) :
    Opened n env := by
  obtain ⟨f, rest, he, hf⟩ := h
  exact ⟨f, rest, he, hr.lt hf⟩

theorem fares_nestedIn (hm : Trim c own m) (env : Scoping) :
    Fares c own m (nestedIn env) fun inner n => Opened n inner ∧
      ∀ name, m.Binds env name → n.Binds inner name := by
  have opened : Trim c own m.openFrame :=
    ⟨(settles_nestedIn env m hm.plain).1.2, hm.named.openFrame⟩
  refine ⟨⟨⟨m.frames.size, env, rfl, ?_⟩, fun name hb => ?_⟩, .openFrame m, opened⟩
  · exact Nat.lt_of_lt_of_eq (Nat.lt_succ_self _) (Array.size_push _).symm
  · obtain ⟨f, hf, vars, hv, hn⟩ := (Retains.openFrame m).binds hb
    exact ⟨f, List.mem_cons_of_mem _ hf, vars, hv, hn⟩

theorem Machine.binds_update {f : Nat} {rest : Scoping} (hf : f < m.frames.size) (name : String)
    (v : Value) : (m.update f name v).Binds (f :: rest) name := by
  refine ⟨f, List.mem_cons_self, updated name v m.frames[f], ?_, ?_⟩
  · rw [m.frames_update_self, Array.getElem?_eq_getElem hf, Option.map_some]
  · rw [updated, List.lookup_cons, beq_self_eq_true]
    rfl

theorem fares_define (hm : Trim c own m) {env : Scoping} (ho : Opened m env) {name : String}
    (ha : c.allowed name) {v : Value} (hv : v.isPlain) :
    Fares c own m (define env name v) fun _ n => n.Binds env name := by
  obtain ⟨f, rest, rfl, hf⟩ := ho
  exact ⟨Machine.binds_update hf name v, .update m f name v, hm.plain.update hv f name,
    hm.named.update ha f v⟩

theorem fares_valueNamed (hm : Trim c own m) {env : Scoping} {name : String}
    (hb : c.watched name → m.Binds env name) :
    Fares c own m (valueNamed own env name) fun v _ => v.isPlain := by
  cases hv : m.valueOf? env name with
  | some v =>
    have settled := (settles_valueNamed env name m hm.plain).1
    unfold Fares
    rw [valueNamed_some hv] at settled ⊢
    exact ⟨settled.1, .refl m, hm⟩
  | none =>
    have unknown : ¬c.watched name := fun hw => by
      rw [Machine.binds_iff, hv] at hb
      cases hb hw
    have found : Fares c own m (contextAt own >>= fun c => globalNamed c.target name)
        fun v _ => v.isPlain := by
      refine (Fares.of_native hm (.of_steady (steady_contextAt own) (calm_contextAt own))
        (native_contextAt own)).bind fun context n _ _ hn => ?_
      unfold globalNamed
      split
      · exact .of_native hn (.of_steady (steady_newObject _) (calm_newObject _))
          (native_newObject _)
      · split
        · exact .pure hn rfl
        · exact .fail hn unknown
    unfold Fares
    rw [valueNamed_none hv]
    exact found

theorem fares_assignTo (hm : Trim c own m) {env : Scoping} {target : Node} {v : Value}
    (hv : v.isPlain)
    (hb : target.kind = .identifier → c.watched target.nameOrEmpty →
      m.Binds env target.nameOrEmpty) :
    Fares c own m (assignTo env target v) fun _ _ => True := by
  unfold assignTo
  split
  · exact .fail hm trivial
  · next hk =>
    have hk : target.kind = .identifier := not_not.1 hk
    dsimp only
    cases hf : holderFrame? m env target.nameOrEmpty with
    | none =>
      have unbound : ¬m.Binds env target.nameOrEmpty := by
        rintro ⟨f, hmem, vars, hvars, hn⟩
        have := List.find?_eq_none.1 hf f hmem
        simp [hvars, hn] at this
      have missing : Fares c own m (fail (.undefined target.nameOrEmpty) : Run Unit)
          fun _ _ => True := .fail hm fun hw => unbound (hb hk hw)
      unfold Fares
      rw [run_bind, assignVariable_eq, hf]
      exact missing
    | some f =>
      obtain ⟨vars, hvars, hn⟩ : ∃ vars, m.frames[f]? = some vars ∧
          (vars.lookup target.nameOrEmpty).isSome := by
        have := List.find?_some hf
        cases hvars : m.frames[f]? with
        | none => rw [hvars] at this; cases this
        | some vars => exact ⟨vars, rfl, by simpa [hvars] using this⟩
      have used : m.Binds env target.nameOrEmpty :=
        ⟨f, List.mem_of_find?_eq_some hf, vars, hvars, hn⟩
      have assigned : Trim c own (m.update f target.nameOrEmpty v) :=
        ⟨hm.plain.update hv f _, hm.named.update (hm.named.of_binds used) f v⟩
      unfold Fares
      rw [run_bind, assignVariable_eq, hf]
      exact ⟨trivial, .update m f _ v, assigned⟩

/-! ## Scopes and bodies -/

theorem fares_inNestedScope {α : Type} {Q : α → Prop} (hm : Trim c own m) {act : Run α}
    (h : ∀ n, Retains m n → Trim c own n → Fares c own n act fun a _ => Q a) :
    Fares c own m (inNestedScope own act) fun a _ => Q a := by
  refine (Fares.of_native hm (.of_steady (steady_onContext own _) (calm_onContext own _))
    (native_onContext own _)).bind fun outer n _ hr hn => ?_
  have inner := h n hr hn
  unfold Fares ensuring at *
  cases ha : act n with
  | ok a k =>
    rw [ha] at inner
    obtain ⟨hq, hr, hk⟩ := inner
    refine ⟨hq, hr, ⟨hk.plain.lists, hk.plain.frames, ?_⟩, hk.named⟩
    simpa using hk.plain.owned
  | error e k =>
    rw [ha] at inner
    exact inner

/-- A statement ends with a plain value, and with a jump only if it may. -/
structure Flow.Fits (c : Concern) (inside : Bool) (flow : Flow) : Prop where
  plain : flow.IsPlain
  jump : flow = .broken ∨ flow = .continued → c.jumps = true → inside = true

namespace Flow.Fits

variable {inside : Bool}

theorem ongoing : Flow.ongoing.Fits c inside :=
  ⟨isPlain_ongoing, by rintro (h | h) <;> cases h⟩

theorem returned {v : Value} (h : v.isPlain) : (Flow.returned v).Fits c inside :=
  ⟨isPlain_returned h, by rintro (h | h) <;> cases h⟩

end Flow.Fits

theorem fares_value (hm : Trim c own m) {flow : Flow} (h : flow.Fits c false) :
    Fares c own m flow.value fun v _ => v.isPlain := by
  have stray (jump : String) (hj : flow = .broken ∨ flow = .continued) :
      Fares c own m (fail (.strayJump jump) : Run Value) fun v _ => v.isPlain :=
    .fail hm (Bool.eq_false_iff.2 fun hc => Bool.noConfusion (h.jump hj hc))
  cases flow with
  | ongoing => exact .pure hm rfl
  | returned v => exact .pure hm (h.plain v rfl)
  | broken => exact stray "break" (.inl rfl)
  | continued => exact stray "continue" (.inr rfl)

theorem fares_forEachItem {inside : Bool} {turn : Value → Run Flow} (items : List Value)
    (hi : ∀ v ∈ items, v.isPlain) (hm : Trim c own m)
    (h : ∀ v, v.isPlain → ∀ n, Retains m n → Trim c own n →
      Fares c own n (turn v) fun flow _ => flow.Fits c true) :
    Fares c own m (forEachItem turn items) fun flow _ => flow.Fits c inside := by
  induction items generalizing m with
  | nil => exact .pure hm .ongoing
  | cons v items ih =>
    obtain ⟨hv, hi⟩ := List.forall_mem_cons.1 hi
    refine (h v hv m (.refl m) hm).bind fun flow n hf hr hn => ?_
    have rest := ih hi hn fun w hw k hk => h w hw k (hr.trans hk)
    cases flow with
    | ongoing => exact rest
    | returned w => exact .pure hn (.returned (hf.plain w rfl))
    | broken => exact .pure hn .ongoing
    | continued => exact rest

/-- Declarators that each define their name leave all of their names defined. -/
theorem fares_declarations (env : Scoping) {f : Node → Run Unit} (ds : List Node)
    (hm : Trim c own m)
    (h : ∀ d ∈ ds, ∀ k, Retains m k → Trim c own k →
      Fares c own k (f d) fun _ l => l.Binds env d.nameOrEmpty) :
    Fares c own m (ds.forM f) fun _ l => ∀ d ∈ ds, l.Binds env d.nameOrEmpty := by
  induction ds generalizing m with
  | nil => exact .pure hm (List.forall_mem_nil _)
  | cons d ds ih =>
    obtain ⟨first, rest⟩ := List.forall_mem_cons.1 h
    refine (first m (.refl m) hm).bind fun _ l hb hr hl => ?_
    have others := ih hl fun d hd k hr' ht => rest d hd k (hr.trans hr') ht
    exact others.mono fun _ _ hbs hr' => List.forall_mem_cons.2 ⟨hr'.binds hb, hbs⟩

/-- Each statement runs where those before it have made their declarations. -/
theorem fares_inOrder {inside : Bool} {env : Scoping} {run : Node → Run Flow} (steps : List Node)
    {known : List String} (hm : Trim c own m) (ho : Opened m env)
    (hk : ∀ s ∈ known, m.Binds env s)
    (h : ∀ pre x post, steps = pre ++ x :: post → ∀ n, Trim c own n → Opened n env →
      (∀ s ∈ declaredBy pre ++ known, n.Binds env s) → Fares c own n (run x) fun flow k =>
        flow.Fits c inside ∧ ∀ s ∈ declaredBy [x], k.Binds env s) :
    Fares c own m (inOrder run steps) fun flow _ => flow.Fits c inside := by
  induction steps generalizing m known with
  | nil => exact .pure hm .ongoing
  | cons x rest ih =>
    refine (h [] x rest rfl m hm ho hk).bind fun flow n hf hr hn => ?_
    obtain ⟨fits, declared⟩ := hf
    have opened := ho.retains hr
    have later (s : String) (hs : s ∈ declaredBy [x] ++ known) : n.Binds env s :=
      (List.mem_append.1 hs).elim (declared s) fun hs => hr.binds (hk s hs)
    have others : Fares c own n (inOrder run rest) fun flow _ => flow.Fits c inside := by
      refine ih hn opened later fun pre y post hsplit k hk' hok hbound => ?_
      refine h (x :: pre) y post (by rw [hsplit]; rfl) k hk' hok fun s hs => hbound s ?_
      rw [← List.singleton_append, declaredBy_append] at hs
      simp only [List.mem_append] at hs ⊢
      tauto
    cases flow with
    | ongoing => exact others
    | _ => exact .pure hn fits

/-! ## Guarded code runs well -/

/-- Guarded code runs without stopping for what is guarded against, with a budget. -/
def Faring (c : Concern) (own b : Nat) : Prop :=
  ∀ ⦃inside : Bool⦄ ⦃known : List String⦄ ⦃n : Node⦄ (env : Scoping) (m : Machine),
    Guarded c inside known n → Trim c own m → Opened m env → (∀ s ∈ known, m.Binds env s) →
    Fares c own m (eval own b env n) (fun v _ => v.isPlain) ∧
      Fares c own m (exec own b env n) fun flow k =>
        flow.Fits c inside ∧ ∀ s ∈ declaredBy [n], k.Binds env s

/-- A call of a closure where it is made needs some budget before its body runs. -/
theorem eval_called_exhausted {n callee made : Node} (kind : n.kind = .invocation)
    (nodes : n.nodes = [callee]) (calleeKind : callee.kind = .parenthesized)
    (calleeNodes : callee.nodes = [made]) {b : Nat} (hb : b < 3) (env : Scoping) :
    eval own b env n = throw .exhausted := by
  rcases b with _ | b
  · rw [eval]
  rw [eval, kind]
  simp only [childOf, Node.node?, nodes, List.getElem?_cons_zero, pure_bind, List.tail_cons,
    List.mapM_nil, calleeKind, reduceCtorEq, if_false]
  rcases b with _ | b
  · rw [eval]
    rfl
  obtain rfl : b = 0 := by omega
  rw [eval, calleeKind]
  simp only [childOf, Node.node?, calleeNodes, List.getElem?_cons_zero, pure_bind]
  rw [eval]
  rfl

section

variable {b : Nat} {inside : Bool} {known : List String} {n : Node} {env : Scoping}

theorem fares_childOf {β : Type} {Q : β → Machine → Prop} {x : Node} {i : Nat} {f : Node → Run β}
    (hm : Trim c own m) (h : ∀ y, x.node? i = some y → Fares c own m (f y) Q) :
    Fares c own m (childOf x i >>= f) Q := by
  unfold childOf
  cases hx : x.node? i with
  | none => exact .bind (P := fun _ _ => False) (.fail hm trivial) fun _ _ h => h.elim
  | some y => exact h y hx

/-- Guarded code can be evaluated later too, since what is known stays defined. -/
theorem Faring.evaluated (ih : Faring c own b) (ho : Opened m env)
    (hk : ∀ s ∈ known, m.Binds env s) (h : Guarded c inside known n) {k : Machine}
    (hr : Retains m k) (ht : Trim c own k) :
    Fares c own k (eval own b env n) fun v _ => v.isPlain :=
  (ih env k h ht (ho.retains hr) fun s hs => hr.binds (hk s hs)).1

theorem Faring.executed (ih : Faring c own b) (ho : Opened m env)
    (hk : ∀ s ∈ known, m.Binds env s) (h : Guarded c inside known n) {k : Machine}
    (hr : Retains m k) (ht : Trim c own k) :
    Fares c own k (exec own b env n) fun flow _ => flow.Fits c inside :=
  (ih env k h ht (ho.retains hr) fun s hs => hr.binds (hk s hs)).2.mono fun _ _ h _ => h.1

theorem fares_eval_plain (ih : Faring c own b) (supported : Staging.isSupported n.kind)
    (name : n.kind = .identifier → c.watched n.nameOrEmpty → n.nameOrEmpty ∈ known)
    (parts : ∀ m ∈ n.nodes, Guarded c (inside || n.kind == .forEachStatement) known m)
    (hm : Trim c own m) (ho : Opened m env) (hk : ∀ s ∈ known, m.Binds env s) :
    Fares c own m (eval own (b + 1) env n) fun v _ => v.isPlain := by
  have childAt {β : Type} {Q : β → Machine → Prop} {k : Machine} (i : Nat) {f : Value → Run β}
      (hr : Retains m k) (ht : Trim c own k)
      (hf : ∀ v l, v.isPlain → Retains m l → Trim c own l → Fares c own l (f v) Q) :
      Fares c own k (childOf n i >>= fun x => eval own b env x >>= f) Q :=
    fares_childOf ht fun x hx => (ih.evaluated ho hk (parts x (Node.mem_of_node? hx)) hr ht).bind
      fun v l hv hr' hl => hf v l hv (hr.trans hr') hl
  have child {k : Machine} (i : Nat) (hr : Retains m k) (ht : Trim c own k) :
      Fares c own k (childOf n i >>= fun x => eval own b env x) fun v _ => v.isPlain :=
    fares_childOf ht fun x hx => ih.evaluated ho hk (parts x (Node.mem_of_node? hx)) hr ht
  have computed {β : Type} {k : Machine} {e : Except TypeFault β}
      (ht : Trim c own k) : Fares c own k (typed e) fun _ _ => True :=
    .of_native ht (settles_typed e) (native_typed e)
  have operator {k : Machine} (ht : Trim c own k) :
      Fares c own k (operatorOf n) fun _ _ => True :=
    .of_native ht (.of_computes (computes_operatorOf n) fun _ _ => trivial) (native_operatorOf n)
  have combined {k : Machine} (ht : Trim c own k) (o : TokenKind) (l r : Value) :
      Fares c own k (binary o l r) fun v _ => v.isPlain :=
    .of_native ht (settles_binary o l r) (native_binary o l r)
  have assigned {inside : Bool} {target : Node} (hx : Guarded c inside known target) {k : Machine}
      (hr : Retains m k) (ht : Trim c own k) {v : Value} (hv : v.isPlain) :
      Fares c own k (assignTo env target v) fun _ _ => True :=
    fares_assignTo ht hv fun ht hw => hr.binds (hk _ (hx.name ht hw))
  rw [eval]
  cases hkind : n.kind with
  | literal =>
    exact .of_native hm (.of_computes (computes_literalValue n) fun _ => Value.isPlain_of_isScalar)
      (native_literalValue n)
  | identifier => exact fares_valueNamed hm fun hw => hk _ (name hkind hw)
  | parenthesized => exact child 0 (.refl m) hm
  | binary =>
    refine (operator hm).bind fun o k _ hr hk' => childAt 0 hr hk' fun l k hl hr hk' => ?_
    split
    · refine (computed hk').bind fun chosen k' _ hr' hk' => ?_
      split
      · exact .pure hk' rfl
      · exact childAt 1 (hr.trans hr') hk' fun v l _ _ hl' =>
          (computed hl').bind fun _ _ _ _ hn => .pure hn rfl
    · exact childAt 1 hr hk' fun r k' _ _ hk' => combined hk' o l r
  | unary =>
    refine childAt 0 (.refl m) hm fun v k _ hr ht => (operator ht).bind fun o l _ _ hl => ?_
    split
    · exact (computed hl).bind fun _ _ _ _ hn => .pure hn rfl
    · exact .pure hl rfl
    · exact .pure hl rfl
    · exact .fail hl trivial
  | step =>
    refine fares_childOf hm fun target ht => ?_
    have guarded := parts target (Node.mem_of_node? ht)
    refine (ih.evaluated ho hk guarded (.refl m) hm).bind fun old k hold hr ht => ?_
    refine (operator ht).bind fun o l _ hr' hl => ?_
    refine (combined hl _ old (.int 1)).bind fun v l' hv hr'' hl' => ?_
    exact (assigned guarded (hr.trans (hr'.trans hr'')) hl' hv).bind fun _ _ _ _ hn => .pure hn hold
  | assignment =>
    refine fares_childOf hm fun target ht => childAt 1 (.refl m) hm fun v k hv hr hk' => ?_
    have guarded := parts target (Node.mem_of_node? ht)
    have stored {w : Value} {l : Machine} (hw : w.isPlain) (hr : Retains m l) (hl : Trim c own l) :
        Fares c own l (assignTo env target w >>= fun _ => pure w) fun v _ => v.isPlain :=
      (assigned guarded hr hl hw).bind fun _ _ _ _ hn => .pure hn hw
    have updated (o : TokenKind) {l : Machine} (hr : Retains m l) (hl : Trim c own l) :
        Fares c own l (eval own b env target >>= fun old => binary o old v >>= fun w =>
          assignTo env target w >>= fun _ => pure w) fun v _ => v.isPlain :=
      (ih.evaluated ho hk guarded hr hl).bind fun old _ _ hr' hl' => (combined hl' o old v).bind
        fun w _ hw hr'' hn => stored hw (hr.trans (hr'.trans hr'')) hn
    refine (operator hk').bind fun o l _ hr' hl => ?_
    dsimp only
    split
    · exact updated .plus (hr.trans hr') hl
    · exact updated .minus (hr.trans hr') hl
    · exact stored hv (hr.trans hr') hl
  | conditional =>
    refine childAt 0 (.refl m) hm fun v k _ hr ht => (computed ht).bind fun chosen l _ hr' hl => ?_
    split
    · exact child 1 (hr.trans hr') hl
    · exact child 2 (hr.trans hr') hl
  | invocation =>
    refine fares_childOf hm fun callee hc => ?_
    have guarded := parts callee (Node.mem_of_node? hc)
    have arguments : Fares c own m (n.nodes.tail.mapM (eval own b env))
        fun vs _ => ∀ v ∈ vs, v.isPlain :=
      .mapM _ hm fun x hx k hr ht => ih.evaluated ho hk (parts x (List.mem_of_mem_tail hx)) hr ht
    refine arguments.bind fun vs k hvs hr ht => ?_
    split
    · next hm =>
      refine fares_childOf ht fun x hx => ?_
      have receiver := guarded.child (by rw [hm]; decide) (Node.mem_of_node? hx)
      refine (ih.evaluated ho hk receiver hr ht).bind fun v l _ _ hl => ?_
      exact .of_native hl (.of_steady (steady_callMethod hvs v _) (calm_callMethod _ _ _))
        (native_callMethod _ _ _)
    · refine (ih.evaluated ho hk guarded hr ht).bind fun v l hv _ hl => ?_
      cases v with
      | closure id c => cases hv
      | _ => exact .fail hl trivial
  | memberAccess =>
    exact childAt 0 (.refl m) hm fun v k _ _ ht =>
      .of_native ht (.of_steady (steady_memberOf v _) (calm_memberOf _ _)) (native_memberOf _ _)
  | elementAccess =>
    refine childAt 0 (.refl m) hm fun receiver k _ hr ht => childAt 1 hr ht fun v l _ _ hl => ?_
    refine (computed hl).bind fun i l _ _ hl => ?_
    refine (Fares.of_native hl (settles_itemsOf receiver) (native_itemsOf _)).bind
      fun items l hi _ hl => ?_
    exact .of_native hl (.of_computes (computes_itemAt i items) hi) (native_itemAt _ _)
  | cast =>
    refine fares_childOf hm fun type _ => childAt 1 (.refl m) hm fun v k hv _ ht => ?_
    exact .of_native ht (.of_steady (steady_castTo _ hv) (.of_computes (computes_castTo _ v)))
      (native_castTo _ _)
  | list =>
    refine (Fares.mapM _ hm fun x hx k hr ht => ih.evaluated ho hk (parts x hx) hr ht).bind
      fun vs k hvs _ ht => ?_
    exact .of_native ht (settles_newList (by simpa using hvs)) (native_newList _)
  | lambda | query => simp [hkind, Staging.isSupported] at supported
  | _ => exact .fail hm trivial

theorem fares_exec_plain (ih : Faring c own b) (supported : Staging.isSupported n.kind)
    (rule : Rule n.kind n.outline) (open_ : n.kind ≠ .block)
    (jump : n.kind = .breakStatement ∨ n.kind = .continueStatement → c.jumps = true → inside = true)
    (binder : n.kind = .declarator ∨ n.kind = .forEachStatement → c.allowed n.nameOrEmpty)
    (parts : ∀ m ∈ n.nodes, Guarded c (inside || n.kind == .forEachStatement) known m)
    (evaluation : Fares c own m (eval own b env n) fun v _ => v.isPlain)
    (hm : Trim c own m) (ho : Opened m env) (hk : ∀ s ∈ known, m.Binds env s) :
    Fares c own m (exec own (b + 1) env n) fun flow k =>
      flow.Fits c inside ∧ ∀ s ∈ declaredBy [n], k.Binds env s := by
  -- only declarations declare something for what follows
  have silent {run : Run Flow} (h : n.kind ≠ .localDeclaration)
      (hr : Fares c own m run fun flow _ => flow.Fits c inside) :
      Fares c own m run fun flow k => flow.Fits c inside ∧ ∀ s ∈ declaredBy [n], k.Binds env s :=
    hr.mono fun flow _ hf _ => ⟨hf, by simp [declaredBy_singleton h]⟩
  rw [exec]
  cases hkind : n.kind with
  | block => exact absurd hkind open_
  | localDeclaration =>
    have declarator (d : Node) (hd : d ∈ n.nodes) {k : Machine} (hr : Retains m k)
        (ht : Trim c own k) {v : Value} (hv : v.isPlain) :
        Fares c own k (define env d.nameOrEmpty v) fun _ l => l.Binds env d.nameOrEmpty :=
      fares_define ht (ho.retains hr)
        ((parts d hd).binder (.inl (rule.nodes_localDeclaration hkind d hd))) hv
    refine (fares_declarations env n.nodes hm fun d hd k hr ht => ?_).bind
      fun _ k hb _ ht => ?_
    · cases hx : d.node? 0 with
      | none => exact declarator d hd hr ht rfl
      | some x =>
        have kind := rule.nodes_localDeclaration hkind d hd
        have value := (parts d hd).child (by rw [kind]; decide) (Node.mem_of_node? hx)
        exact (ih.evaluated ho hk value hr ht).bind fun v l hv hr' hl =>
          declarator d hd (hr.trans hr') hl hv
    · refine .pure ht ⟨.ongoing, ?_⟩
      simpa [declaredBy, hkind] using hb
  | expressionStatement =>
    refine silent (by rw [hkind]; decide) ?_
    simp only [discard_bind]
    refine fares_childOf hm fun x hx => ?_
    exact (ih.evaluated ho hk (parts x (Node.mem_of_node? hx)) (.refl m) hm).bind
      fun _ _ _ _ hn => .pure hn .ongoing
  | emptyStatement => exact silent (by rw [hkind]; decide) (.pure hm .ongoing)
  | ifStatement =>
    have same : (inside || n.kind == .forEachStatement) = inside := by
      rw [hkind]
      exact Bool.or_false inside
    rw [same] at parts
    refine silent (by rw [hkind]; decide) (fares_childOf hm fun x hx => ?_)
    refine (ih.evaluated ho hk (parts x (Node.mem_of_node? hx)) (.refl m) hm).bind
      fun v k _ hr ht => ?_
    refine (Fares.of_native ht (settles_typed _) (native_typed _)).bind fun chosen l _ hr' hl => ?_
    have reached := hr.trans hr'
    split
    · exact fares_childOf hl fun x hx =>
        ih.executed ho hk (parts x (Node.mem_of_node? hx)) reached hl
    · split
      · next clause hc =>
        have kind : clause.kind = .elseClause := by simpa using List.find?_some hc
        have otherwise := parts clause (Node.mem_of_nodeOfKind? hc)
        exact fares_childOf hl fun x hx => ih.executed ho hk
          (otherwise.child (by rw [kind]; decide) (Node.mem_of_node? hx)) reached hl
      · exact .pure hl .ongoing
  | forEachStatement =>
    refine silent (by rw [hkind]; decide) ?_
    dsimp only
    split
    · exact .fail hm trivial
    refine fares_childOf hm fun x hx => ?_
    refine (ih.evaluated ho hk (parts x (Node.mem_of_node? hx)) (.refl m) hm).bind
      fun v k _ hr ht => ?_
    refine (Fares.of_native ht (settles_itemsOf v) (native_itemsOf v)).bind
      fun items l hi hr' hl => ?_
    refine fares_childOf hl fun x hx => fares_forEachItem items hi hl fun v hv l' hr'' hl' => ?_
    have reached := hr.trans (hr'.trans hr'')
    refine (fares_nestedIn hl' env).bind fun inner l₁ hinner hr₁ hl₁ => ?_
    obtain ⟨opened, binds⟩ := hinner
    refine (fares_define hl₁ opened (binder (.inr hkind)) hv).bind fun _ l₂ _ hr₂ hl₂ => ?_
    have body := parts x (Node.mem_of_node? hx)
    rw [hkind, beq_self_eq_true, Bool.or_true] at body
    exact ih.executed opened (fun s hs => binds s (reached.binds (hk s hs))) body hr₂ hl₂
  | returnStatement =>
    refine silent (by rw [hkind]; decide) ?_
    cases hx : n.node? 0 with
    | none => exact .pure hm (.returned rfl)
    | some x =>
      exact (ih.evaluated ho hk (parts x (Node.mem_of_node? hx)) (.refl m) hm).bind
        fun v _ hv _ hn => .pure hn (.returned hv)
  | breakStatement =>
    exact silent (by rw [hkind]; decide)
      (.pure hm ⟨Flow.isPlain_broken, fun _ => jump (.inl hkind)⟩)
  | continueStatement =>
    exact silent (by rw [hkind]; decide)
      (.pure hm ⟨Flow.isPlain_continued, fun _ => jump (.inr hkind)⟩)
  | whileStatement | doStatement | forStatement => simp [hkind, Staging.isSupported] at supported
  | _ =>
    refine silent (by rw [hkind]; decide) ?_
    dsimp only
    split
    · simp only [discard_bind]
      exact evaluation.bind fun _ _ _ _ hn => .pure hn .ongoing
    · exact .fail hm trivial

end

/-- Guarded code does not stop for what is guarded against, whatever the budget. -/
theorem faring (c : Concern) (own b : Nat) : Faring c own b := by
  intro inside known n env m h hm ho hk
  cases b with
  | zero =>
    have tolerated (f : Fault) (h : Stop.exhausted = .fault f) : c.Tolerates f := by cases h
    exact ⟨.throw hm tolerated, .throw hm tolerated⟩
  | succ b =>
    have before := faring c own b
    cases h with
    | plain supported rule open_ name jump binder parts =>
      have evaluation :=
        (before env m (.plain supported rule open_ name jump binder parts) hm ho hk).1
      exact ⟨fares_eval_plain before supported name parts hm ho hk,
        fares_exec_plain before supported rule open_ jump binder parts evaluation hm ho hk⟩
    | block kind rule parts =>
      constructor
      · rw [eval, kind]
        exact .fail hm trivial
      · rw [exec, kind, declaredBy_singleton (by rw [kind]; decide)]
        refine (fares_nestedIn hm env).bind fun inner k hinner _ ht => ?_
        refine (fares_inOrder n.nodes ht hinner.1 (fun s hs => hinner.2 s (hk s hs))
          fun pre x post hsplit l hl hol hbound => ?_).mono
            fun _ _ hf _ => ⟨hf, List.forall_mem_nil _⟩
        exact (before inner l (parts pre x post hsplit) hl hol hbound).2
    | called kind nodes calleeKind calleeNodes madeKind madeNodes bodyKind guarded =>
      constructor
      · by_cases hb : b + 1 < 3
        · rw [eval_called_exhausted kind nodes calleeKind calleeNodes hb]
          exact .throw hm fun _ h => by cases h
        obtain ⟨b, rfl⟩ : ∃ k, b = k + 2 := ⟨b - 2, by omega⟩
        rw [eval_called kind nodes calleeKind calleeNodes madeKind madeNodes bodyKind]
        refine (Fares.of_native hm settles_newClosure native_newClosure).bind fun _ k _ hr ht => ?_
        refine (fares_nestedIn ht env).bind fun inner l hinner hr' hl => ?_
        refine fares_inNestedScope hl fun l' hr'' hl' => ?_
        have body := (faring c own (b + 1) inner l' guarded hl' (hinner.1.retains hr'') fun s hs =>
          hr''.binds (hinner.2 s (hr.binds (hk s hs)))).2
        exact body.bind fun flow _ hf _ hn => fares_value hn hf.1
      · have call : Guarded c inside known n :=
          .called kind nodes calleeKind calleeNodes madeKind madeNodes bodyKind guarded
        have evaluation := (before env m call hm ho hk).1
        rw [exec, kind, declaredBy_singleton (by rw [kind]; decide)]
        simp only [NodeKind.isExpression, if_true, discard_bind]
        exact evaluation.bind fun _ _ _ _ hn => .pure hn ⟨.ongoing, List.forall_mem_nil _⟩

end Stencil.Expansion
