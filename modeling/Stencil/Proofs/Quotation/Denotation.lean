import Stencil.Proofs.Expansion.Following
import Stencil.Proofs.Expansion.Residual

/-!
# What quoted code evaluates to

Code that a generator program builds nodes with is made of calls of node constructors. `Denotes`
says what evaluating such code comes to, as a run that needs no program: the code of a token gives
the token, the call of a constructor gives a new node whose children its arguments give, and a
literal or a splice gives what the direct run of the template puts in its place.

Results:

* `denotes_construct` – a constructor call builds the node of what its arguments denote;
* `evaluates_quoteToken`, `denotes_lift`, `denotes_splice` – the leaves of quoted code.
-/
namespace Stencil.Quotation

open Expansion Layer

/-- Evaluating `q` in a generator follows the run `direct`, and `R` relates their answers. -/
def Denotes {α : Type} (own : Nat) (q : Node) (R : Value → α → Prop)
    (direct : Scoping → Run α) : Prop :=
  ∀ L b, q.size ≤ b → Follows own L L R (eval own b (lefts L) q) (direct (rights L))

/-- Evaluating `q` in a generator gives `v` and changes nothing. -/
def Evaluates (own : Nat) (q : Node) (v : Value) : Prop :=
  ∀ L b m m', Agree own L m m' → q.size ≤ b → eval own b (lefts L) q m = .ok v m

/-- A child as a value of a program. -/
def valueOf : Child Node → Value
  | .token t => .token t
  | .node n => .node n

variable {own : Nat}

/-! ## Globals and their members -/

theorem contextAt_of_lt {m : Machine} (h : own < m.contexts.size) :
    contextAt own m = .ok m.contexts[own] m := by
  change expect .noContext m.contexts[own]? m = _
  rw [Array.getElem?_eq_getElem h]
  rfl

/-- A name that no variable has means the built-in global of that name. -/
theorem eval_unbound {m : Machine} {env : Scoping} {name : String} {builtin : Builtin}
    (hb : Builtin.ofName? name = some builtin) (hm : m.valueOf? env name = none)
    (hown : own < m.contexts.size) (b : Nat) :
    eval own (b + 1) env (.identifier name) m = .ok (.builtin builtin) m := by
  have hmeta : name ≠ "meta" := by
    rintro rfl
    have none : Builtin.ofName? "meta" = none := by decide
    rw [none] at hb
    cases hb
  rw [eval]
  change valueNamed own env name m = _
  rw [valueNamed_none hm, run_bind, contextAt_of_lt hown]
  simp only [globalNamed, if_neg hmeta, hb]
  rfl

/-- No variable hides the globals that programs use. -/
theorem eval_global {L : List Layer} {m m' : Machine} (h : Agree own L m m') {name : String}
    {builtin : Builtin} (hp : name ∈ programGlobals) (hb : Builtin.ofName? name = some builtin)
    (b : Nat) :
    eval own (b + 1) (lefts L) (.identifier name) m = .ok (.builtin builtin) m := by
  have hr := not_isReserved_of_mem_programGlobals hp
  refine eval_unbound hb ?_ h.alike.owned b
  cases hv : m.valueOf? (lefts L) name with
  | none => rfl
  | some v =>
    have := ((h.layered.valueOf? hr).2 v hv).1
    simp [isOpenName, hp] at this

theorem Follows.global {α β : Type} {L L' : List Layer} {R : α → β → Prop} {k : Value → Run α}
    {g : Run β} {name : String} {builtin : Builtin} (hp : name ∈ programGlobals)
    (hb : Builtin.ofName? name = some builtin) {b : Nat} (hpos : 0 < b)
    (h : Follows own L L' R (k (.builtin builtin)) g) :
    Follows own L L' R (eval own b (lefts L) (.identifier name) >>= k) g := by
  intro m m' hm
  obtain ⟨b, rfl⟩ : ∃ c, b = c + 1 := ⟨b - 1, by omega⟩
  rw [run_bind, eval_global hm hp hb]
  exact h m m' hm

theorem eval_methodCall (b : Nat) (env : Scoping) (name method : String) (arguments : List Node) :
    eval own (b + 1) env (.methodCall name method arguments) = (do
      let vs ← arguments.mapM (eval own b env)
      let receiver ← eval own b env (.identifier name)
      callMethod receiver method vs) := by
  have hnodes : (Node.methodCall name method arguments).nodes =
      .memberAccess (.identifier name) method :: arguments := Node.nodes_invocation ..
  have hkind : (Node.methodCall name method arguments).kind = .invocation := rfl
  rw [eval]
  simp only [hkind, childOf, Node.node?, hnodes, List.getElem?_cons_zero, List.tail_cons, pure_bind]
  rfl

theorem size_of_mem_methodCall {name method : String} {arguments : List Node} {b : Nat}
    (h : (Node.methodCall name method arguments).size ≤ b + 1) :
    0 < b ∧ ∀ q ∈ arguments, q.size ≤ b := by
  have part {q : Node} (hq : q ∈ Node.memberAccess (.identifier name) method :: arguments) :
      q.size < b + 1 := by
    have := Node.size_lt_of_mem
      (n := .methodCall name method arguments) (Node.nodes_invocation .. ▸ hq)
    omega
  have hcallee := part List.mem_cons_self
  have := (Node.memberAccess (.identifier name) method).size_pos
  refine ⟨by omega, fun q hq => ?_⟩
  have := part (List.mem_cons_of_mem _ hq)
  omega

/-- The call of a method of a global: its arguments are evaluated in order, then the method acts on
them. -/
theorem denotes_methodCall {α β γ : Type} {name method : String} {builtin : Builtin}
    (hp : name ∈ programGlobals) (hb : Builtin.ofName? name = some builtin)
    {arguments : List Node} {x : List γ} {d : Scoping → γ → Run α} {k : List α → Run β}
    {R : Value → α → Prop} {Q : Value → β → Prop}
    (ha : List.Forall₂ (fun q c => Denotes own q R fun env => d env c) arguments x)
    (hk : ∀ L vs as, List.Forall₂ R vs as →
      Follows own L L Q (callMethod (.builtin builtin) method vs) (k as)) :
    Denotes own (.methodCall name method arguments) Q fun env => x.mapM (d env) >>= k := by
  intro L b hsize
  obtain ⟨b, rfl⟩ : ∃ c, b = c + 1 :=
    ⟨b - 1, by have := (Node.methodCall name method arguments).size_pos; omega⟩
  obtain ⟨hpos, hargs⟩ := size_of_mem_methodCall hsize
  rw [eval_methodCall]
  have evaluated : Follows own L L (List.Forall₂ R) (arguments.mapM (eval own b (lefts L)))
      (x.mapM (d (rights L))) := by
    refine .mapM ?_
    clear hsize
    induction ha with
    | nil => exact .nil
    | cons h _ ih =>
      refine .cons (h L b (hargs _ List.mem_cons_self)) (ih fun q hq => ?_)
      exact hargs q (List.mem_cons_of_mem _ hq)
  exact .bind evaluated fun vs as hvs => Follows.global hp hb hpos (hk L vs as hvs)

theorem Denotes.of_eq {α : Type} {q : Node} {R : Value → α → Prop} {f g : Scoping → Run α}
    (h : Denotes own q R f) (hfg : ∀ env, f env = g env) : Denotes own q R g :=
  funext hfg ▸ h

/-! ## Tokens -/

theorem ofName?_syntax : Builtin.ofName? "Syntax" = some .nodes := by decide

theorem ofName?_tokenKind : Builtin.ofName? "TokenKind" = some .tokenKinds := by decide

theorem Evaluates.mapM {qs : List Node} {vs : List Value}
    (h : List.Forall₂ (Evaluates own) qs vs) {L : List Layer} {b : Nat} {m m' : Machine}
    (hm : Agree own L m m') (hb : ∀ q ∈ qs, q.size ≤ b) :
    qs.mapM (eval own b (lefts L)) m = .ok vs m := by
  induction h with
  | nil => rfl
  | cons hq _ ih =>
    have first := hq L b m m' hm (hb _ List.mem_cons_self)
    have rest := ih fun q hq => hb q (List.mem_cons_of_mem _ hq)
    simp only [List.mapM_cons, run_bind, first, rest]
    rfl

/-- A method that only looks at constant arguments gives a constant. -/
theorem Evaluates.methodCall {name method : String} {builtin : Builtin}
    (hp : name ∈ programGlobals) (hb : Builtin.ofName? name = some builtin) {qs : List Node}
    {vs : List Value} (h : List.Forall₂ (Evaluates own) qs vs) {v : Value}
    (hv : callMethod (.builtin builtin) method vs = pure v) :
    Evaluates own (.methodCall name method qs) v := by
  intro L b m m' hm hsize
  obtain ⟨b, rfl⟩ : ∃ c, b = c + 1 :=
    ⟨b - 1, by have := (Node.methodCall name method qs).size_pos; omega⟩
  obtain ⟨hpos, hargs⟩ := size_of_mem_methodCall hsize
  obtain ⟨b, rfl⟩ : ∃ c, b = c + 1 := ⟨b - 1, by omega⟩
  simp only [eval_methodCall, run_bind, Evaluates.mapM h hm hargs, eval_global hm hp hb, hv]
  rfl

theorem Evaluates.denotes {q : Node} {c : Child Node} (h : Evaluates own q (valueOf c)) :
    Denotes own q (fun v c => v = valueOf c) fun _ => pure c := by
  intro L b hsize m m' hm
  rw [h L b m m' hm hsize]
  exact ⟨rfl, hm⟩

theorem evaluates_tokenKindPath (k : TokenKind) :
    Evaluates own (tokenKindPath k) (.tokenKind k) := by
  intro L b m m' hm hsize
  have hchild : (Node.identifier "TokenKind").size < (tokenKindPath k).size :=
    Node.size_lt_of_mem (by simp [tokenKindPath, Node.memberAccess])
  have hpos := (Node.identifier "TokenKind").size_pos
  obtain ⟨b, rfl⟩ : ∃ c, b = c + 2 := ⟨b - 2, by omega⟩
  rw [eval]
  change (eval own (b + 1) (lefts L) (.identifier "TokenKind") >>= fun v => memberOf v k.name) m = _
  simp only [run_bind, eval_global hm (by decide) ofName?_tokenKind, memberOf, builtinMember,
    TokenKind.ofName?_name, Option.map_some]
  rfl

theorem evaluates_stringLiteral (text : String) :
    Evaluates own (.stringLiteral text) (.string text) := by
  intro L b m m' hm hsize
  have := (Node.stringLiteral text).size_pos
  obtain ⟨b, rfl⟩ : ∃ c, b = c + 1 := ⟨b - 1, by omega⟩
  rw [eval]
  rfl

/-- The code of a token gives the token, detached from the text it was read from. -/
theorem evaluates_quoteToken (t : Token) :
    Evaluates own (quoteToken t) (.token (.detached t.kind t.text)) := by
  unfold quoteToken construct
  split
  · next hc =>
    have hs : t.kind.spelling = some t.text := by simpa [Token.isCanonical] using hc
    refine .methodCall (by decide) ofName?_syntax (.cons (evaluates_tokenKindPath t.kind) .nil) ?_
    simp [callMethod, callBuiltin, callNodes, argument, hs, newToken]
  · exact .methodCall (by decide) ofName?_syntax
      (.cons (evaluates_tokenKindPath t.kind) (.cons (evaluates_stringLiteral t.text) .nil)) rfl

/-! ## Nodes -/

theorem callNodes_name (k : NodeKind) (vs : List Value) :
    callNodes k.name vs = constructNode k vs >>= newNode := by
  cases k <;> rfl

theorem mapM_toChildren_valueOf (lists : Array (Array Value)) (cs : List (Child Node)) :
    (cs.map valueOf).mapM (toChildren lists) = .ok (cs.map fun c => [c]) := by
  induction cs with
  | nil => rfl
  | cons c cs ih =>
    have first : toChildren lists (valueOf c) = .ok [c] := by cases c <;> rfl
    simp only [List.map_cons, List.mapM_cons, first, ih]
    rfl

theorem constructNode_map_valueOf (k : NodeKind) (cs : List (Child Node)) :
    constructNode k (cs.map valueOf) = pure (.build k cs) := by
  have answer (lists : Array (Array Value)) : (do
      return Node.build k (← (cs.map valueOf).mapM (toChildren lists)).flatten :
      Except Stop Node) = .ok (.build k cs) := by
    rw [mapM_toChildren_valueOf]
    simp [bind, Except.bind, pure, Except.pure, ← List.flatMap_def]
  funext m
  simp only [constructNode, reading, answer]
  rfl

/-- A node that a program built, as the value it has there. -/
def IsNode (v : Value) (n : Node) : Prop := v = .node n

theorem follows_numbered {L : List Layer} (n : Node) :
    Follows own L L IsNode (newNode n) (Residual.numbered n) :=
  .steady steady_newIdentity fun _ _ => .pure rfl

/-- A constructor call builds a new node of what its arguments give. -/
theorem denotes_construct {γ : Type} (kind : NodeKind) {qs : List Node} {x : List γ}
    {d : Scoping → γ → Run (Child Node)}
    (h : List.Forall₂ (fun q c => Denotes own q (fun v c => v = valueOf c) fun env => d env c)
      qs x) :
    Denotes own (construct kind.name qs) IsNode
      fun env => x.mapM (d env) >>= fun cs => Residual.numbered (.build kind cs) := by
  refine denotes_methodCall (by decide) ofName?_syntax h fun L vs cs hvs => ?_
  have hvs : vs = cs.map valueOf := by
    induction hvs with
    | nil => rfl
    | cons hv _ ih => rw [hv, ih, List.map_cons]
  rw [hvs, callMethod, callBuiltin, callNodes_name, constructNode_map_valueOf, pure_bind]
  exact follows_numbered _

theorem Denotes.child {q : Node} {d : Scoping → Run Node} (h : Denotes own q IsNode d) :
    Denotes own q (fun v c => v = valueOf c) fun env => Child.node <$> d env :=
  fun L b hb => (h L b hb).mapRight fun _ _ hv => hv

/-! ## Values in generated code -/

/-- A generation-time expression in a generator is evaluated as the template does it. -/
theorem denotes_evaluate {n : Node} (hd : IsDirect n) :
    Denotes own n (fun v w => v = w ∧ v.isPlain) fun env => Residual.evaluate own env n :=
  fun _ _ hb => follows_eval own hd hb (Nat.le_refl _)

theorem denotes_call {α β : Type} {name method : String} {builtin : Builtin}
    (hp : name ∈ programGlobals) (hb : Builtin.ofName? name = some builtin) {q : Node}
    {d : Scoping → Run α} {k : α → Run β} {R : Value → α → Prop} {Q : Value → β → Prop}
    (h : Denotes own q R d)
    (hk : ∀ L v a, R v a →
      Follows own L L Q (callMethod (.builtin builtin) method [v]) (k a)) :
    Denotes own (.methodCall name method [q]) Q fun env => d env >>= k := by
  intro L b hsize
  obtain ⟨b, rfl⟩ : ∃ c, b = c + 1 :=
    ⟨b - 1, by have := (Node.methodCall name method [q]).size_pos; omega⟩
  obtain ⟨hpos, hargs⟩ := size_of_mem_methodCall hsize
  rw [eval_methodCall]
  simp only [List.mapM_cons, List.mapM_nil, bind_assoc, pure_bind]
  exact .bind (h L b (hargs q (by simp))) fun v a hv => Follows.global hp hb hpos (hk L v a hv)

theorem denotes_construct_one (kind : NodeKind) {q : Node} {d : Scoping → Run (Child Node)}
    (h : Denotes own q (fun v c => v = valueOf c) d) :
    Denotes own (construct kind.name [q]) IsNode
      fun env => d env >>= fun c => Residual.numbered (.build kind [c]) := by
  refine denotes_call (by decide) ofName?_syntax h fun L v c hv => ?_
  have built := constructNode_map_valueOf kind [c]
  rw [hv, callMethod, callBuiltin, callNodes_name]
  rw [List.map_singleton] at built
  rw [built, pure_bind]
  exact follows_numbered _

theorem denotes_splice {n : Node} (hd : IsDirect n) :
    Denotes own (construct "Splice" [n]) IsNode
      fun env => Residual.evaluate own env n >>= Residual.spliced := by
  refine denotes_call (by decide) ofName?_syntax (denotes_evaluate hd) ?_
  rintro L v _ ⟨rfl, -⟩
  change Follows own L L IsNode (splice v) _
  cases v with
  | node n => exact .pure rfl
  | _ => exact .steady (f := asNode _) (steady_reading _) fun n _ => follows_numbered n

/-- The constructor of a type's literals makes the token that writes a value down. -/
theorem denotes_literalToken {n : Node} (hd : IsDirect n) {t : TypeExpr} {name : String}
    (hc : literalConstructor? t = some name) :
    ∃ token, Residual.literalToken? t = some token ∧
      Denotes own (construct name [n]) (fun v c => v = valueOf c)
        fun env => Residual.evaluate own env n >>= fun v => Child.token <$> token v := by
  have called {token : Value → Run Token}
      (h : ∀ L v, Follows own L L (fun v t => v = .token t)
        (callMethod (.builtin .nodes) name [v]) (token v)) :
      Denotes own (construct name [n]) (fun v c => v = valueOf c)
        fun env => Residual.evaluate own env n >>= fun v => Child.token <$> token v := by
    refine denotes_call (by decide) ofName?_syntax (denotes_evaluate hd) ?_
    rintro L v _ ⟨rfl, -⟩
    exact (h L v).mapRight fun _ _ hv => hv
  cases t <;> simp only [literalConstructor?, Option.some.injEq, reduceCtorEq] at hc
  all_goals
    subst hc
    refine ⟨_, rfl, called fun L v => ?_⟩
  · exact .steady (steady_sound _) fun _ _ => .pure rfl
  · exact .steady (steady_sound _) fun _ _ => .pure rfl
  · exact .steady (steady_typed _) fun _ _ => .pure rfl
  · exact .steady (steady_typed _) fun _ _ => .pure rfl
  · exact .steady (steady_typed _) fun _ _ => .pure rfl
  · exact .steady (steady_typed _) fun _ _ => .pure rfl

theorem literalToken?_eq_none {t : TypeExpr} (h : literalConstructor? t = none) :
    Residual.literalToken? t = none := by
  cases t <;> first | rfl | cases h

theorem denotes_placeholder :
    Denotes own placeholder IsNode
      fun _ => Residual.numbered (.keywordLiteral .defaultKeyword) := by
  have token : Evaluates own (construct "Token" [tokenKindPath .defaultKeyword])
      (valueOf (.token (.fixed .defaultKeyword))) :=
    .methodCall (by decide) ofName?_syntax (.cons (evaluates_tokenKindPath _) .nil) rfl
  exact denotes_construct_one .literal token.denotes

/-- A lifted expression gives the literal of its value. -/
theorem denotes_lift (store : FactStore) {n : Node} (hd : IsDirect n) (s : State) :
    Denotes own ((lift store n).run s).1 IsNode fun env => Residual.literalOf store own env n := by
  unfold lift Residual.literalOf
  split
  · next h => simp only [h]; exact denotes_placeholder
  · next h => simp only [h]; exact denotes_placeholder
  · next t _ h =>
    cases hc : literalConstructor? t with
    | none =>
      simp only [h, Option.bind_some, literalToken?_eq_none hc]
      exact denotes_placeholder
    | some name =>
      obtain ⟨token, ht, hden⟩ := denotes_literalToken hd hc
      simp only [h, Option.bind_some, ht]
      refine (denotes_construct_one .literal hden).of_eq fun env => ?_
      simp [Node.literal]

end Stencil.Quotation
