import Stencil.Proofs.Quotation.Denotation
import Stencil.Proofs.Quotation.Naming

/-!
# What quoted code builds

The code that a generator adds to its blocks is made of calls of node constructors and of the
context. Run on a tame machine, such a call keeps the machine tame and what the generator has under
construction, and the tree it comes to is a part, mostly even a piece, of generated code.

Results:

* `builds_construct`, `builds_block` – constructors build trees from the parts they are given;
* `builds_quoteToken`, `builds_lift`, `builds_splice`, `builds_holder` – the leaves of quoted code;
* `builds_freshIdentifier`, `builds_return`, `builds_returnWrapped` – what the context provides.
-/
namespace Stencil.Quotation

open Expansion

variable {own : Nat} {r : Reach} {k m n : Machine}

/-- From the machine `start` on, `P` says what evaluating `q` comes to. -/
def Builds (own : Nat) (start : Machine) (env : Scoping) (q : Node)
    (P : Machine → Value → Machine → Prop) : Prop :=
  ∀ b m, Tame own m → Onward own .none start m → After own .none m (eval own b env q) (P m)

/-- `S` says what evaluating the arguments of a call one after another comes to. -/
def BuildsAll (own : Nat) (start : Machine) (env : Scoping) (qs : List Node)
    (S : Machine → List Value → Machine → Prop) : Prop :=
  ∀ b m, Tame own m → Onward own .none start m → After own .none m (qs.mapM (eval own b env)) (S m)

variable {start : Machine} {env : Scoping}

theorem Builds.mono {q : Node} {P Q : Machine → Value → Machine → Prop}
    (h : Builds own start env q P) (hPQ : ∀ m v n, P m v n → Q m v n) : Builds own start env q Q :=
  fun b m hm hs => (h b m hm hs).mono fun v n _ hv => hPQ m v n hv

theorem BuildsAll.mono {qs : List Node} {S T : Machine → List Value → Machine → Prop}
    (h : BuildsAll own start env qs S) (hST : ∀ m vs n, S m vs n → T m vs n) :
    BuildsAll own start env qs T :=
  fun b m hm hs => (h b m hm hs).mono fun vs n _ hv => hST m vs n hv

theorem BuildsAll.sequence {qs : List Node} {P : Machine → Value → Machine → Prop}
    {S : Machine → List Value → Machine → Prop} (nil : ∀ m, S m [] m)
    (cons : ∀ m n k v vs, Onward own .none m n → Onward own .none n k → P m v n → S n vs k →
      S m (v :: vs) k) (h : ∀ q ∈ qs, Builds own start env q P) : BuildsAll own start env qs S :=
  fun b _ hm hs => .sequence qs hm (fun m _ => nil m) cons
    fun q hq n hn ho => h q hq b n hn (hs.trans ho)

theorem BuildsAll.nil : BuildsAll own start env [] fun m vs n => vs = [] ∧ m = n :=
  fun _ _ hm _ => .pure hm ⟨rfl, rfl⟩

theorem BuildsAll.cons {q : Node} {qs : List Node} {P : Machine → Value → Machine → Prop}
    {S : Machine → List Value → Machine → Prop} (h : Builds own start env q P)
    (hs : BuildsAll own start env qs S) :
    BuildsAll own start env (q :: qs) fun m vs n => ∃ k v vs', vs = v :: vs' ∧
      Onward own .none m k ∧ Onward own .none k n ∧ P m v k ∧ S k vs' n := by
  intro b m hm hstart
  rw [List.mapM_cons]
  refine .bind (h b m hm hstart) fun v k hk ho hv => ?_
  exact .bind (hs b k hk (hstart.trans ho)) fun vs n hn ho' hvs =>
    .pure hn ⟨k, v, vs, rfl, ho, ho', hv, hvs⟩

theorem BuildsAll.one {q : Node} {P : Machine → Value → Machine → Prop}
    (h : Builds own start env q P) :
    BuildsAll own start env [q] fun m vs n => ∃ v, vs = [v] ∧ P m v n := by
  intro b m hm hs
  rw [List.mapM_cons, List.mapM_nil]
  exact .bind (h b m hm hs) fun v n hn _ hv => .pure hn ⟨v, rfl, hv⟩

/-! ## Calls of globals -/

/-- No variable of the machine hides the globals that programs use. -/
theorem valueOf?_global (hm : Tame own m) {name : String} (hp : name ∈ programGlobals)
    (env : Scoping) : m.valueOf? env name = none := by
  have hr := not_isReserved_of_mem_programGlobals hp
  cases hv : m.valueOf? env name with
  | none => rfl
  | some v =>
    rw [valueOf?_eq] at hv
    obtain ⟨f, -, hf⟩ := List.exists_of_findSome?_eq_some hv
    cases hm.fitting f name v hf with
    | plain hn _ => simp [isOpenName, hp] at hn
    | accumulator => simp [isReserved_accumulatorName] at hr
    | holder => simp [isReserved_holderName] at hr

theorem after_global (hm : Tame own m) {name : String} {builtin : Builtin}
    (hp : name ∈ programGlobals) (hb : Builtin.ofName? name = some builtin) (b : Nat)
    (env : Scoping) :
    After own r m (eval own b env (.identifier name)) fun v n => v = .builtin builtin ∧ n = m := by
  obtain ⟨c, hc, -⟩ := hm.context
  cases b with
  | zero =>
    rw [eval]
    exact .throw _
  | succ b =>
    intro v n hn
    rw [eval_unbound hb (valueOf?_global hm hp env) (Array.getElem?_eq_some_iff.1 hc).1] at hn
    cases hn
    exact ⟨hm, .refl _ _ _, rfl, rfl⟩

/-- The call of a method of a global: its arguments are evaluated in order, then the method acts on
them. -/
theorem builds_methodCall {name method : String} {builtin : Builtin}
    (hp : name ∈ programGlobals) (hb : Builtin.ofName? name = some builtin) {qs : List Node}
    {S : Machine → List Value → Machine → Prop} {P : Machine → Value → Machine → Prop}
    (ha : BuildsAll own start env qs S)
    (hcall : ∀ m vs n, Onward own .none start m → Tame own n → Onward own .none m n → S m vs n →
      After own .none n (callMethod (.builtin builtin) method vs) (P m)) :
    Builds own start env (.methodCall name method qs) P := by
  intro b m hm hstart
  cases b with
  | zero =>
    rw [eval]
    exact .throw _
  | succ b =>
    rw [eval_methodCall]
    refine .bind (ha b m hm hstart) fun vs n hn ho hs => ?_
    refine .bind (after_global hn hp hb b env) ?_
    rintro _ _ - - ⟨rfl, rfl⟩
    exact hcall m vs _ hstart hn ho hs

/-- A constant of a global. -/
theorem builds_memberOf {name member : String} {builtin : Builtin}
    (hp : name ∈ programGlobals) (hb : Builtin.ofName? name = some builtin) :
    Builds own start env (.memberAccess (.identifier name) member) fun _ _ _ => True := by
  intro b m hm _
  cases b with
  | zero =>
    rw [eval]
    exact .throw _
  | succ b =>
    rw [eval]
    change After own .none m (eval own b env (.identifier name) >>= fun v => memberOf v member) _
    refine .bind (after_global hm hp hb b env) ?_
    rintro _ n hn - ⟨rfl, -⟩
    change After own .none n (builtinMember builtin member) _
    unfold builtinMember
    dsimp only
    split
    · exact .pure hn trivial
    · exact .fail _

theorem builds_stringLiteral (text : String) :
    Builds own start env (.stringLiteral text) fun _ v _ => v = .string text := by
  intro b m hm _
  cases b with
  | zero =>
    rw [eval]
    exact .throw _
  | succ b =>
    rw [eval]
    exact .pure hm rfl

/-! ## Parts of a tree -/

/-- The value is a child of a tree, and `P` says what was built if it is a node. -/
def IsChild (P : Machine → Node → Machine → Prop) (m : Machine) (v : Value) (n : Machine) : Prop :=
  ∃ c : Child Node, v = valueOf c ∧ ∀ t, c = .node t → P m t n

/-- The value is a tree that may stand in generated code. -/
def IsPart (own : Nat) : Machine → Value → Machine → Prop :=
  IsChild fun m t n => Part own m n t.flatten

/-- The value is a tree that may also stand in the block that is being built. -/
def IsPiece (own : Nat) : Machine → Value → Machine → Prop := IsChild fun m t n => Piece own m n t

theorem IsChild.mono {P Q : Machine → Node → Machine → Prop} {m' n' : Machine} {v : Value}
    (h : IsChild P m v n) (hPQ : ∀ t, P m t n → Q m' t n') : IsChild Q m' v n' := by
  obtain ⟨c, hv, ht⟩ := h
  exact ⟨c, hv, fun t hc => hPQ t (ht t hc)⟩

theorem IsPiece.isPart {v : Value} (h : IsPiece own m v n) : IsPart own m v n :=
  h.mono fun _ ht => ht.part

theorem IsPiece.of_node {t : Node} (h : Piece own m n t) : IsPiece own m (.node t) n :=
  ⟨.node t, rfl, fun _ hc => Child.node.inj hc ▸ h⟩

theorem IsPart.of_node {t : Node} (h : Part own m n t.flatten) : IsPart own m (.node t) n :=
  ⟨.node t, rfl, fun _ hc => Child.node.inj hc ▸ h⟩

theorem IsPiece.of_token (t : Token) : IsPiece own m (.token t) n := ⟨.token t, rfl, nofun⟩

/-- The arguments of a constructor are the children of its node. -/
theorem BuildsAll.parts {qs : List Node} (h : ∀ q ∈ qs, Builds own start env q (IsPart own)) :
    BuildsAll own start env qs fun m vs n => ∃ cs : List (Child Node), vs = cs.map valueOf ∧
      ∀ t, .node t ∈ cs → Part own m n t.flatten := by
  refine .sequence (fun m => ⟨[], rfl, by simp⟩) ?_ h
  rintro m n k _ _ ho ho' ⟨c, rfl, hc⟩ ⟨cs, rfl, hcs⟩
  refine ⟨c :: cs, rfl, fun t ht => ?_⟩
  rcases List.mem_cons.1 ht with ht | ht
  · exact (hc t ht.symm).widen (.refl own .none m) ho'
  · exact (hcs t ht).widen ho (.refl own .none k)

/-- The arguments of the constructor of blocks are its statements. -/
theorem BuildsAll.statements {qs : List Node} (h : ∀ q ∈ qs, Builds own start env q (IsPiece own)) :
    BuildsAll own start env qs fun m vs n => ∃ cs : List (Child Node), vs = cs.map valueOf ∧
      Settled own m n ((cs.filterMap Child.node?).flatMap Node.contents) := by
  refine .sequence (fun m => ⟨[], rfl, .nil⟩) ?_ h
  rintro m n k _ _ ho ho' ⟨c, rfl, hc⟩ ⟨cs, rfl, hcs⟩
  refine ⟨c :: cs, rfl, ?_⟩
  cases c with
  | token t => exact hcs.widen ho (.refl own .none k)
  | node t =>
    rw [List.filterMap_cons, Child.node?_node, List.flatMap_cons]
    exact (hc t rfl).settled.append hcs ho ho'

theorem after_newPiece {t : Node} (hm : Tame own m) (h : Draft own k m t) :
    After own r m (newNode t) fun v n => IsPiece own k v n :=
  (after_newNode hm h).mono fun _ _ _ ⟨_, hv, hp⟩ => hv ▸ .of_node hp

theorem callMethod_construct (kind : NodeKind) (vs : List Value) :
    callMethod (.builtin .nodes) kind.name vs = constructNode kind vs >>= newNode :=
  callNodes_name kind vs

theorem builds_construct (kind : NodeKind) (hk : kind.isScoping = false) {qs : List Node}
    (h : ∀ q ∈ qs, Builds own start env q (IsPart own)) :
    Builds own start env (construct kind.name qs) (IsPiece own) := by
  refine builds_methodCall (by decide) ofName?_syntax (.parts h) ?_
  rintro m _ n - hn - ⟨cs, rfl, hcs⟩
  rw [callMethod_construct, constructNode_map_valueOf, pure_bind]
  exact after_newPiece hn (.of_nodes hk fun t ht => hcs t (Node.mem_nodes.1 ht))

theorem builds_block {qs : List Node} (h : ∀ q ∈ qs, Builds own start env q (IsPiece own)) :
    Builds own start env (construct NodeKind.block.name qs) (IsPiece own) := by
  refine builds_methodCall (by decide) ofName?_syntax (.statements h) ?_
  rintro m _ n - hn - ⟨cs, rfl, hcs⟩
  rw [callMethod_construct, constructNode_map_valueOf, pure_bind]
  exact after_newPiece hn (.of_block rfl hcs)

/-! ## Tokens -/

/-- The value is a token. -/
def IsToken (_ : Machine) (v : Value) (_ : Machine) : Prop := ∃ t, v = .token t

theorem IsToken.isPiece {v : Value} (h : IsToken m v n) : IsPiece own m v n := by
  obtain ⟨t, rfl⟩ := h
  exact .of_token t

theorem IsToken.isPart {v : Value} (h : IsToken m v n) : IsPart own m v n := h.isPiece.isPart

theorem computes_token {name : String}
    (h : name ∈ ["Token", "StringLiteral", "CharLiteral", "IntLiteral", "FloatLiteral"])
    (vs : List Value) : Computes (fun v => ∃ t, v = .token t) (callNodes name vs) := by
  have made (kind : TokenKind) (text : String) : ∃ t, newToken kind text = .token t := ⟨_, rfl⟩
  simp only [List.mem_cons, List.not_mem_nil, or_false] at h
  rcases h with rfl | rfl | rfl | rfl | rfl <;>
    refine .bind (computes_argument vs 0 _) fun v _ => ?_
  · split
    · split
      · exact .bind (computes_typed _) fun _ _ => .pure (made _ _)
      · exact .pure (made _ _)
      · exact .fail _
    · exact .fail _
  · exact .bind (computes_sound _) fun _ _ => .pure (made _ _)
  · exact .bind (computes_sound _) fun _ _ => .pure (made _ _)
  · exact .bind (computes_typed _) fun _ _ => .pure (made _ _)
  · exact .bind (computes_typed _) fun _ _ => .pure (made _ _)

theorem builds_token {name : String}
    (h : name ∈ ["Token", "StringLiteral", "CharLiteral", "IntLiteral", "FloatLiteral"])
    {qs : List Node} (hq : ∀ q ∈ qs, Builds own start env q fun _ _ _ => True) :
    Builds own start env (construct name qs) IsToken :=
  builds_methodCall (by decide) ofName?_syntax
    (.sequence (S := fun _ _ _ => True) (fun _ => trivial) (fun _ _ _ _ _ _ _ _ _ => trivial) hq)
    fun _ vs _ _ hn _ _ => .of_computes hn (computes_token h vs) fun _ ht => ht

theorem builds_quoteToken (t : Token) : Builds own start env (quoteToken t) IsToken := by
  refine builds_token (by decide) ?_
  rw [List.forall_mem_cons]
  refine ⟨builds_memberOf (by decide) ofName?_tokenKind, ?_⟩
  split
  · simp
  · rw [List.forall_mem_singleton]
    exact (builds_stringLiteral t.text).mono fun _ _ _ _ => trivial

theorem globalNamed_reserved {name : String} (h : Reserved.isReserved name) (target : Target) :
    globalNamed target name = fail (.undefined name) := by
  have hmeta : name ≠ "meta" := by
    rintro rfl
    revert h
    decide +kernel
  have none : Builtin.ofName? name = none := by
    refine List.find?_eq_none.2 fun b _ hb => ?_
    have named : b.name = name := by simpa using hb
    subst named
    revert h
    cases b <;> decide +kernel
  rw [globalNamed, if_neg hmeta, none]

/-- A reserved name only stands for a variable of the generator. -/
theorem after_reserved (hm : Tame own m) {name : String} (hr : Reserved.isReserved name) (b : Nat)
    (env : Scoping) :
    After own r m (eval own b env (.identifier name))
      fun v n => n = m ∧ ∃ f, look m f name = some v := by
  cases b with
  | zero =>
    rw [eval]
    exact .throw _
  | succ b =>
    rw [eval]
    change After own r m (valueNamed own env name) _
    intro v n hn
    cases hv : m.valueOf? env name with
    | some w =>
      rw [valueNamed_some hv] at hn
      cases hn
      rw [valueOf?_eq] at hv
      obtain ⟨f, -, hf⟩ := List.exists_of_findSome?_eq_some hv
      exact ⟨hm, .refl _ _ _, rfl, f, hf⟩
    | none =>
      rw [valueNamed_none hv, run_bind] at hn
      simp only [globalNamed_reserved hr] at hn
      cases hc : contextAt own m <;> rw [hc] at hn <;> cases hn

/-- The variable of a generated local holds a name. -/
theorem Tame.holder {f : Nat} {hint : String} {i : Nat} {v : Value} (hm : Tame own m)
    (h : look m f (holderName hint i) = some v) : ∃ t, v = .token t ∧ t.kind = .identifier := by
  have hr := isReserved_holderName hint i
  have fits := hm.fitting f _ v h
  generalize hname : holderName hint i = name at fits hr
  cases fits with
  | plain hn _ => simp [isOpenName, hr] at hn
  | accumulator => exact absurd hname (holderName_ne_accumulatorName hint i _)
  | holder ht => exact ⟨_, rfl, ht⟩

/-- An accumulator holds a list. -/
theorem Tame.accumulator {f a : Nat} {v : Value} (hm : Tame own m)
    (h : look m f (accumulatorName a) = some v) : ∃ p, v = .list p ∧ Held m p := by
  have hr := isReserved_accumulatorName a
  have fits := hm.fitting f _ v h
  generalize hname : accumulatorName a = name at fits hr
  cases fits with
  | plain hn _ => simp [isOpenName, hr] at hn
  | accumulator => exact ⟨_, rfl, f, a, h⟩
  | holder => exact absurd hname.symm (holderName_ne_accumulatorName _ _ a)

theorem builds_holder (hint : String) (i : Nat) :
    Builds own start env (.identifier (holderName hint i)) IsToken := by
  intro b m hm _
  refine (after_reserved hm (isReserved_holderName hint i) b env).mono ?_
  rintro v n - ⟨-, f, hf⟩
  obtain ⟨t, hv, -⟩ := hm.holder hf
  exact ⟨t, hv⟩

/-! ## Values in generated code -/

/-- A generation-time expression comes to a bare value. -/
theorem builds_kept {q : Node} (hq : Modest q) : Builds own start env q fun _ v n => Bare n v :=
  fun b _ hm _ => after_eval b hq env hm

theorem builds_placeholder : Builds own start env placeholder (IsPiece own) :=
  builds_construct .literal rfl (List.forall_mem_singleton.2
    ((builds_token (by decide) (List.forall_mem_singleton.2
      (builds_memberOf (by decide) ofName?_tokenKind))).mono fun _ _ _ h => h.isPart))

theorem builds_lift (store : FactStore) {q : Node} (hq : Modest q) (s : State) :
    Builds own start env ((lift store q).run s).1 (IsPiece own) := by
  have literal {name : String}
      (h : name ∈ ["Token", "StringLiteral", "CharLiteral", "IntLiteral", "FloatLiteral"]) :
      Builds own start env (construct "LiteralExpression" [construct name [q]]) (IsPiece own) :=
    builds_construct .literal rfl (List.forall_mem_singleton.2
      ((builds_token h (List.forall_mem_singleton.2
        ((builds_kept hq).mono fun _ _ _ _ => trivial))).mono fun _ _ _ h => h.isPart))
  unfold lift
  split
  · exact builds_placeholder
  · exact builds_placeholder
  · next t _ _ =>
    split
    · next name hc =>
      refine literal ?_
      cases t <;> simp only [literalConstructor?, Option.some.injEq, reduceCtorEq] at hc
      all_goals subst hc; decide
    · exact builds_placeholder

/-- A bare value stands for code without scopes. -/
theorem scopeless_leafNode {v : Value} {t : Node} (hv : Bare m v) (h : leafNode v = .ok t) :
    t.Scopeless := by
  have leaf (tok : Token) : (Node.literal tok).Scopeless := .of_nodes rfl nofun
  unfold leafNode at h
  split at h
  · cases h; exact hv.scopeless
  · cases h; exact leaf _
  · cases h; exact leaf _
  · cases h; exact leaf _
  · cases h; exact leaf _
  · cases h; exact leaf _
  · cases h; exact leaf _
  · split at h
    · cases h; exact .of_nodes rfl nofun
    · cases h
  · next o =>
    cases o <;> simp only [TargetObject.node?] at h <;> cases h
    exact scopeless_identifier _
  · cases h

theorem forall_of_mapM {α β ε : Type} {f : α → Except ε β} {P : β → Prop} {xs : List α}
    (hf : ∀ x ∈ xs, ∀ b, f x = .ok b → P b) {bs : List β} (h : xs.mapM f = .ok bs) :
    ∀ b ∈ bs, P b := by
  induction xs generalizing bs with
  | nil =>
    cases h
    simp
  | cons x xs ih =>
    rw [List.mapM_cons] at h
    cases hx : f x with
    | error e => rw [hx] at h; cases h
    | ok b =>
      cases hxs : xs.mapM f with
      | error e => rw [hx, hxs] at h; cases h
      | ok cs =>
        rw [hx, hxs] at h
        cases h
        exact List.forall_mem_cons.2 ⟨hf x List.mem_cons_self b hx,
          ih (fun y hy => hf y (List.mem_cons_of_mem _ hy)) hxs⟩

/-- What a bare value is spread to is joined from what its leaves are. -/
theorem spread_bare {α : Type} (hm : Tame own m) {leaf : Value → Except Fault α}
    {join : List α → α} {P : α → Prop} (hleaf : ∀ v a, Bare m v → leaf v = .ok a → P a)
    (hjoin : ∀ as, (∀ a ∈ as, P a) → P (join as)) (depth : Nat) {v : Value} (hv : Bare m v)
    {a : α} (h : spread m.lists leaf join depth v = .ok a) : P a := by
  have single {v : Value} (hv : Bare m v) {a : α} (h : (leaf v).mapError Stop.fault = .ok a) :
      P a := by
    cases hl : leaf v with
    | error e => rw [hl] at h; cases h
    | ok b =>
      rw [hl] at h
      cases h
      exact hleaf v _ hv hl
  induction depth generalizing v a with
  | zero =>
    cases v with
    | list p => cases h
    | _ => exact single hv h
  | succ depth ih =>
    cases v with
    | list p =>
      have bare : ∀ w ∈ ((m.lists[p]?).getD #[]).toList, Bare m w := by
        intro w hw
        cases hl : m.lists[p]? with
        | none => simp [hl] at hw
        | some items => exact hm.lists p items hl hv.2 w (by simpa [hl] using hw)
      rw [spread] at h
      cases hr : ((m.lists[p]?).getD #[]).toList.mapM (spread m.lists leaf join depth) with
      | error e => rw [hr] at h; cases h
      | ok as =>
        rw [hr] at h
        cases h
        exact hjoin as (forall_of_mapM (fun w hw _ hb => ih (bare w hw) hb) hr)
    | _ => exact single hv h

theorem after_reading {α : Type} (hm : Tame own m) (read : Array (Array Value) → Except Stop α) :
    After own r m (reading read) fun a n => n = m ∧ read m.lists = .ok a := by
  intro a n hn
  have run : reading read m = match read m.lists with
      | .ok a => .ok a m
      | .error e => .error e m := by
    change (MonadExcept.ofExcept (read m.lists) : Run α) m = _
    cases read m.lists <;> rfl
  rw [run] at hn
  cases hr : read m.lists with
  | error e => rw [hr] at hn; cases hn
  | ok b =>
    rw [hr] at hn
    cases hn
    exact ⟨hm, .refl _ _ _, rfl, rfl⟩

/-- The code of a bare value. -/
theorem after_asNode (hm : Tame own m) {v : Value} (hv : Bare m v) :
    After own r m (asNode v) fun t _ => t.Scopeless := by
  refine (after_reading hm _).mono fun t _ _ ⟨_, ht⟩ => ?_
  refine spread_bare hm (fun _ _ => scopeless_leafNode) (fun ts hts => ?_) _ hv ht
  exact .of_nodes rfl (by simpa [Node.list] using hts)

/-- The children that a bare value stands for. -/
theorem scopeless_toChildren (hm : Tame own m) {v : Value} (hv : Bare m v)
    {cs : List (Child Node)} (h : toChildren m.lists v = .ok cs) :
    ∀ t, .node t ∈ cs → t.Scopeless := by
  refine spread_bare (P := fun cs => ∀ t, .node t ∈ cs → t.Scopeless) hm ?_ ?_ _ hv h
  · intro v cs hv h t ht
    unfold leafChildren at h
    split at h <;> cases h
    · cases ht
    · cases List.mem_singleton.1 ht
      exact hv.scopeless
    · cases List.mem_singleton.1 ht
  · intro css hcss t ht
    obtain ⟨cs, hcs, ht⟩ := List.mem_flatten.1 ht
    exact hcss cs hcs t ht

theorem builds_splice {q : Node} (hq : Modest q) :
    Builds own start env (construct "Splice" [q]) (IsPiece own) := by
  refine builds_methodCall (by decide) ofName?_syntax (.one (builds_kept hq)) ?_
  rintro m _ n - hn - ⟨v, rfl, hv⟩
  change After own .none n (splice v) _
  have copied : After own .none n (asNode v >>= newNode) fun v n => IsPiece own m v n :=
    .bind (after_asNode hn hv) fun t _ hn _ ht =>
      after_newPiece hn fun _ => .of_scopeless (.of_nodes ht.here fun c hc => ht.child hc)
  unfold splice
  split
  · exact .pure hn (.of_node (.of_scopeless hv.scopeless))
  · exact copied

/-! ## What the context provides -/

theorem ofName?_context : Builtin.ofName? "Context" = some .context := by decide

theorem ofName?_callForms : Builtin.ofName? "DeferredCallForm" = some .callForms := by
  decide

theorem after_currentContext (hm : Tame own m) :
    After own r m currentContext fun context n => own = context ∧ m = n := by
  intro context n hn
  change expect .noContext m.active.head? m = .ok context n at hn
  rw [hm.active] at hn
  cases hn
  exact ⟨hm, .refl _ _ _, rfl, rfl⟩

/-- A call of a function of the context, with the context that is active. -/
theorem builds_contextCall {method : String} {qs : List Node}
    {S : Machine → List Value → Machine → Prop} {P : Machine → Value → Machine → Prop}
    (ha : BuildsAll own start env qs S)
    (hcall : ∀ m vs n, Onward own .none start m → Tame own n → Onward own .none m n → S m vs n →
      After own .none n (callContext method vs) (P m)) :
    Builds own start env (.methodCall "Context" method qs) P :=
  builds_methodCall (by decide) ofName?_context ha hcall

/-- The name of a generated local is made up where it is declared. -/
theorem builds_freshIdentifier (hint : String) :
    Builds own start env (.methodCall "Context" "FreshIdentifier" [.stringLiteral hint])
      fun m v n => ∃ x, v = .token (.ofName x) ∧ New own m n x := by
  refine builds_contextCall (.one (builds_stringLiteral hint)) ?_
  rintro m _ n - hn ho ⟨_, rfl, rfl⟩
  refine .bind (after_currentContext hn) ?_
  rintro _ _ - - ⟨rfl, rfl⟩
  change After own .none n
    (onContext own (Context.freshName hint) >>= fun x => pure (Value.token (.ofName x))) _
  exact .bind (after_freshName hn hint) fun x k hk _ hx =>
    .pure hk ⟨x, rfl, hx.widen ho (.refl own .none k)⟩

theorem after_asNode_part (hm : Tame own m) {v : Value} (hv : IsPart own k v m) :
    After own r m (asNode v) fun t n => Part own k n t.flatten := by
  obtain ⟨c, rfl, hc⟩ := hv
  cases c with
  | token t =>
    exact (after_asNode hm (v := .token t) trivial).mono fun _ _ _ ht => .flatten_of_scopeless ht
  | node t =>
    refine (after_reading hm _).mono fun t' n _ ⟨hn, ht⟩ => ?_
    cases ht
    exact hn ▸ hc t rfl

/-- The statement for a `return` of the template. -/
theorem after_lowered (hm : Tame own m) {value : Option Node} (ho : Onward own .none k m)
    (hv : ∀ v, value = some v → Part own k m v.flatten) (dynamic : Bool) :
    After own .none m (onContext own (Context.returnStatement value dynamic) >>= newNode)
      fun v n => IsPiece own k v n :=
  .bind (after_returnStatement hm ho hv dynamic) fun _ _ hn _ ht => after_newPiece hn ht

theorem builds_return :
    Builds own start env (.methodCall "Context" "ReturnStatement" []) (IsPiece own) := by
  refine builds_contextCall .nil ?_
  rintro m _ n - hn ho ⟨rfl, rfl⟩
  refine .bind (after_currentContext hn) ?_
  rintro _ _ - - ⟨rfl, rfl⟩
  exact after_lowered hn ho (fun v (hv : none = some v) => nomatch hv) false

theorem builds_returnValue {q : Node} (hq : Builds own start env q (IsPart own)) (type : String) :
    Builds own start env (.methodCall "Context" "ReturnStatement" [q, .stringLiteral type])
      (IsPiece own) := by
  refine builds_contextCall (.cons hq (.one (builds_stringLiteral type))) ?_
  rintro m _ n - hn ho ⟨k, v, _, rfl, -, hk, hv, _, rfl, rfl⟩
  refine .bind (after_currentContext hn) ?_
  rintro _ _ - - ⟨rfl, rfl⟩
  have given : IsPart own m v n := hv.mono fun t ht => ht.widen (.refl own .none m) hk
  change After own .none n (some <$> asNode v >>= fun value =>
    onContext own (Context.returnStatement value (isDynamicText type)) >>= newNode) _
  refine .bind ((after_asNode_part hn given).map (R := fun value n =>
    ∀ v, value = some v → Part own m n v.flatten) ?_) ?_
  · rintro t n ht _ ⟨⟩
    exact ht
  · exact fun value n' hn' ho' hvalue => after_lowered hn' (ho.trans ho') hvalue _

theorem builds_returnWrapped (form : CallForm) :
    Builds own start env (.methodCall "Context" "CreateReturnStatement" [formPath form])
      (IsPiece own) := by
  refine builds_contextCall (.one (builds_memberOf (by decide) ofName?_callForms)) ?_
  rintro m _ n - hn ho ⟨v, rfl, -⟩
  refine .bind (after_currentContext hn) ?_
  rintro _ _ - - ⟨rfl, rfl⟩
  change After own .none n (typed v.asForm >>= fun form => contextAt own >>= fun c => _) _
  refine .bind (after_typed hn _) fun form n hn ho' _ => ?_
  refine .bind (after_contextAt hn own) fun c n hn ho'' _ => ?_
  split
  · next call hcall =>
    refine after_lowered hn ((ho.trans ho').trans ho'') ?_ false
    rintro _ ⟨⟩
    exact .flatten_of_scopeless (scopeless_provide hcall)
  · exact .fail _

end Stencil.Quotation
