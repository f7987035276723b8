import Stencil.Proofs.Quotation.Tame
import Stencil.Proofs.Staging.Runs

/-!
# Code that generators keep

Generation-time code of a template is copied into its generator. It uses constructs with a staged
meaning only, and no name that belongs to the generator or to a global that the generator's own
calls go through. Running it computes bare values and keeps the machine tame: it neither reads nor
changes what the generator has under construction.

Results:

* `after_eval`, `after_exec` – expressions and statements of the template;
* `After.inOrder`, `After.forEachItem` – what runs of statements and loops add up to.
-/
namespace Stencil.Quotation

open Expansion

/-- Code of a template: constructs with a staged meaning, and names that nothing of the generator
has. -/
def Modest (n : Node) : Prop :=
  ∀ m ∈ n.preorder, Staging.isSupported m.kind ∧
    ∀ t ∈ m.tokens, t.kind = .identifier → isOpenName t.text

namespace Modest

variable {n : Node}

theorem child {m : Node} (h : Modest n) (hm : m ∈ n.nodes) : Modest m :=
  fun x hx => h x (Node.preorder_subset hm hx)

theorem supported (h : Modest n) : Staging.isSupported n.kind := (h n n.mem_preorder_self).1

theorem name (h : Modest n) : isOpenName n.nameOrEmpty := by
  unfold Node.nameOrEmpty Node.name? Node.tokenOfKind?
  cases ht : n.tokens.find? (·.kind == .identifier) with
  | none => decide
  | some t =>
    have hk := List.find?_some ht
    exact (h n n.mem_preorder_self).2 t (List.mem_of_find?_eq_some ht) (by simpa using hk)

end Modest

variable {own : Nat} {r : Reach} {m : Machine}

/-! ## Values -/

theorem bare_of_isScalar {v : Value} (h : v.isScalar) : Bare m v := by
  cases v <;> trivial

theorem After.of_computes {α : Type} {P : α → Prop} {Q : α → Machine → Prop} {run : Run α}
    (hm : Tame own m) (h : Computes P run) (hP : ∀ a, P a → Q a m) : After own r m run Q := by
  intro a n hn
  rcases h with ⟨a', hp, ha⟩ | ⟨e, -, he⟩
  · rw [ha] at hn
    cases hn
    exact ⟨hm, .refl _ _ _, hP _ hp⟩
  · rw [he] at hn
    cases hn

theorem after_typed {α : Type} (hm : Tame own m) (e : Except TypeFault α) :
    After own r m (typed e) fun _ _ => True :=
  .of_computes hm (computes_typed e) fun _ _ => trivial

theorem after_childOf (hm : Tame own m) (n : Node) (index : Nat) :
    After own r m (childOf n index) fun c _ => n.node? index = some c :=
  .of_computes hm (computes_childOf n index) fun _ h => h

theorem after_binary (hm : Tame own m) (operator : TokenKind) (a b : Value) :
    After own r m (binary operator a b) fun v n => Bare n v :=
  .of_computes hm (computes_binary operator a b) fun _ => bare_of_isScalar

theorem after_newObject (hm : Tame own m) (o : TargetObject) :
    After own r m (newObject o) fun v n => Bare n v :=
  .bind (after_newIdentity hm) fun _ _ hn _ _ => .pure hn trivial

theorem after_newAtom (hm : Tame own m) {t : Node} (ht : t.IsAtom) :
    After own r m (newNode t) fun v n => Bare n v := by
  refine .bind (after_newIdentity hm) fun i n hn _ _ => .pure hn ?_
  obtain ⟨hk, hc⟩ | ⟨hk, hc⟩ := ht
  · exact .this hk hc
  · exact .name hk hc

theorem after_newList (hm : Tame own m) {items : List Value} (hi : ∀ v ∈ items, Bare m v) :
    After own r m (newList items.toArray) fun v n => Bare n v :=
  .bind (after_newPlace hm (by simpa using hi)) fun _ _ hn _ hp => .pure hn hp

theorem isAtom_identifier (name : String) : (Node.identifier name).IsAtom := .name rfl rfl

theorem scopeless_identifier (name : String) : (Node.identifier name).Scopeless :=
  (isAtom_identifier name).scopeless

/-! ## Variables and globals -/

/-- A name of the template stands for a bare value. -/
theorem bare_of_valueOf? (hm : Tame own m) {env : Scoping} {name : String} {v : Value}
    (hn : isOpenName name) (hv : m.valueOf? env name = some v) : Bare m v := by
  rw [valueOf?_eq] at hv
  obtain ⟨f, -, hf⟩ := List.exists_of_findSome?_eq_some hv
  have hr : Reserved.isReserved name = false := by
    simp only [isOpenName, Bool.and_eq_true, Bool.not_eq_true'] at hn
    exact hn.1
  cases hm.fitting f name v hf with
  | plain _ hv => exact hv
  | accumulator => simp [isReserved_accumulatorName] at hr
  | holder => simp [isReserved_holderName] at hr

theorem after_contextAt (hm : Tame own m) (k : Nat) :
    After own r m (contextAt k) fun c n => n = m ∧ m.contexts[k]? = some c := by
  intro c n hn
  change expect .noContext m.contexts[k]? m = .ok c n at hn
  cases hc : m.contexts[k]? with
  | none => rw [hc] at hn; cases hn
  | some c' =>
    rw [hc] at hn
    cases hn
    exact ⟨hm, .refl _ _ _, rfl, rfl⟩

theorem after_globalNamed (hm : Tame own m) (target : Target) {name : String}
    (hn : isOpenName name) : After own r m (globalNamed target name) fun v n => Bare n v := by
  unfold globalNamed
  split
  · exact after_newObject hm _
  · split
    · next b hb =>
      refine .pure hm ?_
      have named : b.name = name := by simpa using List.find?_some hb
      have notGlobal : programGlobals.contains name = false := by
        simp only [isOpenName, Bool.and_eq_true, Bool.not_eq_true'] at hn
        exact hn.2
      rw [← named] at notGlobal
      cases b with
      | math => rfl
      | _ => exact absurd notGlobal (by decide)
    · exact .fail _

theorem after_valueNamed (hm : Tame own m) (env : Scoping) {name : String} (hn : isOpenName name) :
    After own r m (valueNamed own env name) fun v n => Bare n v := by
  cases hv : m.valueOf? env name with
  | some v =>
    intro w n hr
    rw [valueNamed_some hv] at hr
    cases hr
    exact ⟨hm, .refl _ _ _, bare_of_valueOf? hm hn hv⟩
  | none =>
    have global : After own r m (contextAt own >>= fun c => globalNamed c.target name)
        fun v n => Bare n v :=
      .bind (after_contextAt hm own) fun c _ hm' _ _ => after_globalNamed hm' c.target hn
    intro w n hr
    rw [valueNamed_none hv] at hr
    exact global w n hr

/-! ## Members and methods -/

theorem after_objectMember (hm : Tame own m) (o : TargetObject) (name : String) :
    After own r m (objectMember o name) fun v n => Bare n v := by
  unfold objectMember
  split
  · exact after_newObject hm _
  · exact after_newAtom hm (.this rfl rfl)
  · exact after_newObject hm _
  · next t =>
    have made : After own r m (t.parameters.zipIdx.mapM fun e =>
        newObject (.parameter e.2 e.1))
        fun vs n => ∀ v ∈ vs, Bare n v :=
      .mapM _ hm (fun _ _ _ ho hv => hv.onward ho) fun _ _ _ hn _ => after_newObject hn _
    exact .bind made fun vs n hn _ hvs => after_newList hn hvs
  · exact .pure hm trivial
  · exact .pure hm trivial
  · exact .pure hm trivial
  · exact .pure hm trivial
  · exact .pure hm trivial
  · exact after_newAtom hm (isAtom_identifier _)
  · exact .fail _

theorem after_memberOf (hm : Tame own m) {receiver : Value} (hv : Bare m receiver)
    (name : String) : After own r m (memberOf receiver name) fun v n => Bare n v := by
  unfold memberOf
  split
  · obtain rfl := (hv : _ = Builtin.math)
    exact .fail _
  · exact .bind (after_listAt hm hv) fun _ _ hn _ _ => .pure hn trivial
  · exact .pure hm trivial
  · exact after_objectMember hm _ _
  · exact .fail _

theorem after_callMethod (hm : Tame own m) {receiver : Value} (hv : Bare m receiver)
    (name : String) {arguments : List Value} (ha : ∀ v ∈ arguments, Bare m v) :
    After own r m (callMethod receiver name arguments) fun v n => Bare n v := by
  unfold callMethod
  split
  · obtain rfl := (hv : _ = Builtin.math)
    exact .of_computes hm (computes_callMath name arguments) fun _ => bare_of_isScalar
  · exact .bind (after_appendTo hm hv ha) fun _ _ hn _ _ => .pure hn trivial
  · exact .pure hm trivial
  · exact .pure hm trivial
  · exact .fail _

theorem after_itemsOf (hm : Tame own m) {v : Value} (hv : Bare m v) :
    After own r m (itemsOf v) fun vs n => ∀ v ∈ vs, Bare n v := by
  unfold itemsOf
  split
  · refine .bind (after_listAt hm hv) fun items n hn _ hi => .pure hn ?_
    simpa using hi
  · refine .pure hm fun v hv => ?_
    obtain ⟨c, -, rfl⟩ := List.mem_map.1 hv
    trivial
  · exact .fail _

theorem after_assignTo (hm : Tame own m) {target : Node} (ht : Modest target) {v : Value}
    (hv : Bare m v) (env : Scoping) :
    After own r m (assignTo env target v) fun _ _ => True := by
  unfold assignTo
  split
  · exact .fail _
  · refine .bind (after_assignVariable hm ht.name hv env) fun found n hn _ _ => ?_
    cases found with
    | true => exact .pure hn trivial
    | false => exact .fail _

/-! ## Expressions -/

/-- An expression of the template comes to a bare value. -/
theorem after_eval (b : Nat) {n : Node} (hd : Modest n) (env : Scoping) (hm : Tame own m) :
    After own r m (eval own b env n) fun v n' => Bare n' v := by
  induction b generalizing n m with
  | zero =>
    rw [eval]
    exact .throw _
  | succ b ih =>
    -- the parts are asked for by index and evaluated one after another
    have childAt {γ : Type} {R : γ → Machine → Prop} {m : Machine} (hm : Tame own m) (i : Nat)
        {k : Value → Run γ} (hk : ∀ v n', Tame own n' → Onward own r m n' → Bare n' v →
          After own r n' (k v) R) :
        After own r m (childOf n i >>= fun c => eval own b env c >>= k) R :=
      .bind (after_childOf hm n i) fun c _ hn ho hc =>
        .bind (ih (hd.child (Node.mem_of_node? hc)) hn) fun v n' hn' ho' hv =>
          hk v n' hn' (ho.trans ho') hv
    have part {m : Machine} (hm : Tame own m) (i : Nat) :
        After own r m (childOf n i >>= fun c => eval own b env c) fun v n' => Bare n' v :=
      .bind (after_childOf hm n i) fun c _ hn _ hc => ih (hd.child (Node.mem_of_node? hc)) hn
    have operator {γ : Type} {R : γ → Machine → Prop} {m : Machine} (hm : Tame own m)
        {k : TokenKind → Run γ} (hk : ∀ o n', Tame own n' → Onward own r m n' →
          After own r n' (k o) R) : After own r m (operatorOf n >>= k) R :=
      .bind (.of_computes (Q := fun _ _ => True) hm (computes_operatorOf n) fun _ _ => trivial)
        fun o n' hn ho _ => hk o n' hn ho
    rw [eval]
    cases hk : n.kind with
    | literal => exact .of_computes hm (computes_literalValue n) fun _ => bare_of_isScalar
    | identifier => exact after_valueNamed hm env hd.name
    | parenthesized => exact part hm 0
    | binary =>
      refine operator hm fun o _ hm _ => childAt hm 0 fun l _ hm _ _ => ?_
      split
      · refine .bind (after_typed hm _) fun chosen _ hm _ _ => ?_
        split
        · exact .pure hm trivial
        · exact childAt hm 1 fun v _ hm _ _ => .bind (after_typed hm _) fun _ _ hm _ _ =>
            .pure hm trivial
      · exact childAt hm 1 fun v _ hm _ _ => after_binary hm _ _ _
    | unary =>
      refine childAt hm 0 fun v _ hm _ _ => operator hm fun o _ hm _ => ?_
      split
      · exact .bind (after_typed hm _) fun _ _ hm _ _ => .pure hm trivial
      · exact .pure hm trivial
      · exact .pure hm trivial
      · exact .fail _
    | step =>
      refine .bind (after_childOf hm n 0) fun target _ hm _ ht => ?_
      have ht := hd.child (Node.mem_of_node? ht)
      refine .bind (ih ht hm) fun old _ hm _ hold => operator hm fun o _ hm ho => ?_
      refine .bind (after_binary hm _ old (.int 1)) fun v _ hm ho' hv => ?_
      refine .bind (after_assignTo hm ht hv env) fun _ _ hm ho'' _ => .pure hm ?_
      exact hold.onward ((ho.trans ho').trans ho'')
    | assignment =>
      refine .bind (after_childOf hm n 0) fun target _ hm _ ht => childAt hm 1 fun v _ hm _ hv => ?_
      have ht := hd.child (Node.mem_of_node? ht)
      have assigned {m : Machine} (hm : Tame own m) {w : Value} (hw : Bare m w) :
          After own r m (assignTo env target w >>= fun _ => pure w) fun v n' => Bare n' v :=
        .bind (after_assignTo hm ht hw env) fun _ _ hm ho _ => .pure hm (hw.onward ho)
      have combined {m : Machine} (hm : Tame own m) (o : TokenKind) :
          After own r m (eval own b env target >>= fun old => binary o old v >>= fun w =>
            assignTo env target w >>= fun _ => pure w) fun v n' => Bare n' v :=
        .bind (ih ht hm) fun old _ hm _ _ => .bind (after_binary hm o old v) fun w _ hm _ hw =>
          assigned hm hw
      refine operator hm fun o _ hm ho => ?_
      dsimp only
      split
      · exact combined hm .plus
      · exact combined hm .minus
      · exact assigned hm (hv.onward ho)
    | conditional =>
      refine childAt hm 0 fun v _ hm _ _ => .bind (after_typed hm _) fun chosen _ hm _ _ => ?_
      split
      · exact part hm 1
      · exact part hm 2
    | invocation =>
      refine .bind (after_childOf hm n 0) fun callee _ hm _ hc => ?_
      have hc := hd.child (Node.mem_of_node? hc)
      have evaluated := After.mapM (r := r) (f := eval own b env) (P := Bare)
        n.nodes.tail hm (fun _ _ _ ho hv => hv.onward ho)
        fun x hx _ hm _ => ih (hd.child (List.mem_of_mem_tail hx)) hm
      refine .bind evaluated fun vs _ hm _ hvs => ?_
      split
      · refine .bind (after_childOf hm callee 0) fun receiver _ hm ho hr => ?_
        refine .bind (ih (hc.child (Node.mem_of_node? hr)) hm) fun v _ hm ho' hv => ?_
        exact after_callMethod hm hv _ fun w hw => (hvs w hw).onward (ho.trans ho')
      · refine .bind (ih hc hm) fun v _ hm _ hv => ?_
        cases v with
        | closure id c => exact hv.elim
        | _ => exact .fail _
    | memberAccess => exact childAt hm 0 fun v _ hm _ hv => after_memberOf hm hv _
    | elementAccess =>
      refine childAt hm 0 fun receiver _ hm _ hr => childAt hm 1 fun v _ hm ho _ => ?_
      refine .bind (after_typed hm _) fun i _ hm ho' _ => ?_
      refine .bind (after_itemsOf hm (hr.onward (ho.trans ho'))) fun items _ hm _ hi => ?_
      exact .of_computes hm (computes_itemAt i items) hi
    | cast =>
      refine .bind (after_childOf hm n 0) fun type _ hm _ _ => childAt hm 1 fun v _ hm _ hv => ?_
      refine .of_computes hm (computes_castTo _ v) ?_
      rintro w (rfl | hw)
      · exact hv
      · exact bare_of_isScalar hw
    | list =>
      have evaluated := After.mapM (r := r) (f := eval own b env) (P := Bare)
        n.nodes hm (fun _ _ _ ho hv => hv.onward ho) fun x hx _ hm _ => ih (hd.child hx) hm
      exact .bind evaluated fun vs _ hm _ hvs => after_newList hm hvs
    | lambda =>
      have := hd.supported
      simp [hk, Staging.isSupported] at this
    | query =>
      have := hd.supported
      simp [hk, Staging.isSupported] at this
    | _ => exact .fail _

/-! ## Statements -/

/-- A `return` of the template hands on a bare value. -/
def Leaves (n : Machine) (flow : Flow) : Prop := ∀ v, flow = .returned v → Bare n v

theorem Leaves.ongoing {n : Machine} : Leaves n .ongoing := nofun

theorem Leaves.broken {n : Machine} : Leaves n .broken := nofun

theorem Leaves.continued {n : Machine} : Leaves n .continued := nofun

/-- What runs make of the machine adds up to what one run may make of it. -/
structure Accrues (own : Nat) (r : Reach) (S : Machine → Machine → Prop) : Prop where
  refl : ∀ m, Tame own m → S m m
  trans : ∀ m n k, Onward own r m n → Onward own r n k → S m n → S n k → S m k

theorem Accrues.trivial : Accrues own r fun _ _ => True :=
  ⟨fun _ _ => .intro, fun _ _ _ _ _ _ _ => .intro⟩

variable {α : Type} {S : Machine → Machine → Prop}

theorem After.inOrder (hS : Accrues own r S) {run : α → Run Flow} (xs : List α) (hm : Tame own m)
    (h : ∀ x ∈ xs, ∀ n, Tame own n → Onward own r m n →
      After own r n (run x) fun flow n' => S n n' ∧ Leaves n' flow) :
    After own r m (Expansion.inOrder run xs) fun flow n => S m n ∧ Leaves n flow := by
  induction xs generalizing m with
  | nil => exact .pure hm ⟨hS.refl m hm, .ongoing⟩
  | cons x xs ih =>
    rw [Expansion.inOrder]
    refine .bind (h x List.mem_cons_self m hm (.refl _ _ _)) ?_
    rintro flow n hn ho ⟨hs, hv⟩
    cases flow with
    | ongoing =>
      have rest := ih hn fun y hy n' hn' ho' =>
        h y (List.mem_cons_of_mem _ hy) n' hn' (ho.trans ho')
      intro flow k hk
      obtain ⟨hk', ho', hs', hv'⟩ := rest flow k hk
      exact ⟨hk', ho', hS.trans m n k ho ho' hs hs', hv'⟩
    | _ => exact .pure hn ⟨hs, hv⟩

theorem After.forEachItem (hS : Accrues own r S) {run : Value → Run Flow} (items : List Value)
    (hm : Tame own m) (hi : ∀ v ∈ items, Bare m v)
    (h : ∀ v n, Tame own n → Onward own r m n → Bare n v →
      After own r n (run v) fun flow n' => S n n' ∧ Leaves n' flow) :
    After own r m (Expansion.forEachItem run items) fun flow n => S m n ∧ Leaves n flow := by
  rw [forEachItem_eq]
  refine .bind (.inOrder hS items hm fun v hv n hn ho => ?_) fun flow n hn _ hf =>
    .pure hn ⟨hf.1, by simpa [Leaves] using hf.2⟩
  exact .bind (h v n hn ho ((hi v hv).onward ho)) fun flow k hk _ hf =>
    .pure hk ⟨hf.1, by simpa [Leaves] using hf.2⟩

theorem After.forM {f : α → Run Unit} (xs : List α) (hm : Tame own m)
    (h : ∀ x ∈ xs, ∀ n, Tame own n → Onward own r m n → After own r n (f x) fun _ _ => True) :
    After own r m (xs.forM f) fun _ _ => True := by
  induction xs generalizing m with
  | nil => exact .pure hm trivial
  | cons x xs ih =>
    change After own r m (f x >>= fun _ => xs.forM f) _
    refine .bind (h x List.mem_cons_self m hm (.refl _ _ _)) fun _ n hn ho _ => ?_
    exact ih hn fun y hy n' hn' ho' => h y (List.mem_cons_of_mem _ hy) n' hn' (ho.trans ho')

theorem after_discard {run : Run α} {Q : α → Machine → Prop} {k : Run Flow}
    {R : Flow → Machine → Prop} (h : After own r m run Q)
    (hk : ∀ n, Tame own n → Onward own r m n → After own r n k R) :
    After own r m (discard run >>= fun _ => k) R := by
  rw [discard_bind]
  exact .bind h fun _ n hn ho _ => hk n hn ho

/-- A statement of the template keeps the machine tame. -/
theorem after_exec (b : Nat) {n : Node} (hd : Modest n) (env : Scoping) (hm : Tame own m) :
    After own r m (exec own b env n) fun flow n' => Leaves n' flow := by
  induction b generalizing n env m with
  | zero =>
    rw [exec]
    exact .throw _
  | succ b ih =>
    have supported := hd.supported
    have evaluated {m : Machine} (hm : Tame own m) (env : Scoping) {c : Node} {i : Nat}
        {γ : Type} {R : γ → Machine → Prop} (hc : Modest c) {k : Value → Run γ}
        (hk : ∀ v n', Tame own n' → Onward own r m n' → Bare n' v → After own r n' (k v) R) :
        After own r m (childOf c i >>= fun x => eval own b env x >>= k) R :=
      .bind (after_childOf hm c i) fun x _ hn ho hx =>
        .bind (after_eval b (hc.child (Node.mem_of_node? hx)) env hn) fun v n' hn' ho' hv =>
          hk v n' hn' (ho.trans ho') hv
    have body {m : Machine} (hm : Tame own m) (env : Scoping) {c : Node} (i : Nat)
        (hc : Modest c) :
        After own r m (childOf c i >>= fun x => exec own b env x) fun flow n' => Leaves n' flow :=
      .bind (after_childOf hm c i) fun x _ hn _ hx => ih (hc.child (Node.mem_of_node? hx)) env hn
    rw [exec]
    cases hk : n.kind with
    | block =>
      refine .bind (after_nestedIn hm env) fun inner _ hn _ _ => ?_
      refine (After.inOrder .trivial n.nodes hn fun x hx k hk _ => ?_).mono fun _ _ _ h => h.2
      exact (ih (hd.child hx) inner hk).mono fun _ _ _ h => ⟨.intro, h⟩
    | localDeclaration =>
      refine .bind (.forM n.nodes hm fun declarator hx m hm _ => ?_) fun _ _ hn _ _ =>
        .pure hn .ongoing
      have hx := hd.child hx
      cases hv : declarator.node? 0 with
      | none =>
        have null : Bare m .null := trivial
        exact after_define hm hx.name null env
      | some value =>
        refine .bind (after_eval b (hx.child (Node.mem_of_node? hv)) env hm) fun v n hn _ hv => ?_
        exact after_define hn hx.name hv env
    | expressionStatement =>
      refine .bind (after_childOf hm n 0) fun e _ hm _ he => ?_
      exact after_discard (after_eval b (hd.child (Node.mem_of_node? he)) env hm) fun _ hn _ =>
        .pure hn .ongoing
    | emptyStatement => exact .pure hm .ongoing
    | ifStatement =>
      refine evaluated hm env hd fun v _ hm _ _ => ?_
      refine .bind (after_typed hm _) fun chosen _ hm _ _ => ?_
      split
      · exact body hm env 1 hd
      · split
        · next clause hc => exact body hm env 0 (hd.child (Node.mem_of_nodeOfKind? hc))
        · exact .pure hm .ongoing
    | forEachStatement =>
      dsimp only
      split
      · exact .fail _
      · refine evaluated hm env hd fun v _ hm _ hv => ?_
        refine .bind (after_itemsOf hm hv) fun items _ hm _ hi => ?_
        refine .bind (after_childOf hm n 1) fun x _ hm ho hx => ?_
        refine (After.forEachItem .trivial items hm (fun v hv => (hi v hv).onward ho)
          fun v n' hn' _ hv => ?_).mono fun _ _ _ h => h.2
        refine .bind (after_nestedIn hn' env) fun inner _ hn ho _ => ?_
        refine .bind (after_define hn hd.name (hv.onward ho) inner) fun _ _ hn _ _ => ?_
        exact (ih (hd.child (Node.mem_of_node? hx)) inner hn).mono fun _ _ _ h => ⟨.intro, h⟩
    | returnStatement =>
      dsimp only
      split
      · next value hv =>
        refine .bind (after_eval b (hd.child (Node.mem_of_node? hv)) env hm) fun v n hn _ hv => ?_
        refine .pure hn ?_
        rintro _ ⟨⟩
        exact hv
      · refine .pure hm ?_
        rintro _ ⟨⟩
        trivial
    | breakStatement => exact .pure hm .broken
    | continueStatement => exact .pure hm .continued
    | whileStatement | doStatement | forStatement =>
      simp [hk, Staging.isSupported] at supported
    | _ =>
      dsimp only
      split
      · exact after_discard (after_eval b hd env hm) fun _ hn _ => .pure hn .ongoing
      · exact .fail _

end Stencil.Quotation
