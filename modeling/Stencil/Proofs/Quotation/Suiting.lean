import Stencil.Proofs.Quotation.Sane

/-!
# Quoted code builds suited trees

Run on a sane machine, the code that a generator adds to its blocks comes to trees that suit the
target, and each tree may stand where its template has the node that was quoted.

Results:

* `gives_node`, `gives_structural` – constructors build suited nodes from suited parts;
* `gives_quoteToken`, `gives_lift`, `gives_splice`, `gives_holder` – the leaves of quoted code;
* `gives_return`, `gives_assignWrapped` – what the context provides;
* `gives_blockOf`, `gives_closure` – blocks that closures gather.
-/
namespace Stencil.Quotation

open Expansion

variable {own : Nat} {shape : ResultShape} {m : Machine}

/-- Wherever `q` is evaluated, `P` says what it comes to. -/
def Gives (own : Nat) (shape : ResultShape) (q : Node) (P : Value → Machine → Prop) : Prop :=
  ∀ b env m, Yields own shape m (eval own b env q) P

/-- `S` says what the arguments of a call come to. -/
def GivesAll (own : Nat) (shape : ResultShape) (qs : List Node)
    (S : List Value → Machine → Prop) : Prop :=
  ∀ b env m, Yields own shape m (qs.mapM (eval own b env)) S

theorem Gives.mono {q : Node} {P P' : Value → Machine → Prop} (h : Gives own shape q P)
    (hP : ∀ v n, P v n → P' v n) : Gives own shape q P' :=
  fun b env m => (h b env m).mono hP

theorem GivesAll.mono {qs : List Node} {S S' : List Value → Machine → Prop}
    (h : GivesAll own shape qs S) (hS : ∀ vs n, S vs n → S' vs n) : GivesAll own shape qs S' :=
  fun b env m => (h b env m).mono hS

theorem GivesAll.nil : GivesAll own shape [] fun vs _ => vs = [] :=
  fun _ _ _ => .pure rfl

theorem GivesAll.cons {q : Node} {qs : List Node} {P : Value → Prop}
    {S : List Value → Machine → Prop} (h : Gives own shape q fun v _ => P v)
    (hs : GivesAll own shape qs S) :
    GivesAll own shape (q :: qs) fun vs n => ∃ v vs', vs = v :: vs' ∧ P v ∧ S vs' n := by
  intro b env m
  rw [List.mapM_cons]
  exact .bind (h b env m) fun v n _ hv => .bind (hs b env n) fun vs k _ hvs =>
    .pure ⟨v, vs, rfl, hv, hvs⟩

theorem GivesAll.one {q : Node} {P : Value → Machine → Prop} (h : Gives own shape q P) :
    GivesAll own shape [q] fun vs n => ∃ v, vs = [v] ∧ P v n := by
  intro b env m
  rw [List.mapM_cons, List.mapM_nil]
  exact .bind (h b env m) fun v n _ hv => .pure ⟨v, rfl, hv⟩

/-- The values of the arguments, each with what it is for. -/
theorem GivesAll.each {γ : Type} {P : γ → Value → Prop} {xs : List γ} {qs : List Node}
    (h : List.Forall₂ (fun x q => Gives own shape q fun v _ => P x v) xs qs) :
    GivesAll own shape qs fun vs _ => List.Forall₂ P xs vs := by
  induction h with
  | nil => exact GivesAll.nil.mono fun _ _ hvs => hvs ▸ .nil
  | cons hx _ ih =>
    refine (GivesAll.cons hx ih).mono ?_
    rintro _ _ ⟨v, vs, rfl, hv, hvs⟩
    exact .cons hv hvs

/-! ## Calls of globals -/

theorem gives_methodCall {name method : String} {builtin : Builtin} (hp : name ∈ programGlobals)
    (hb : Builtin.ofName? name = some builtin) {qs : List Node} {S : List Value → Machine → Prop}
    {P : Value → Machine → Prop} (ha : GivesAll own shape qs S)
    (hcall : ∀ vs n, S vs n → Yields own shape n (callMethod (.builtin builtin) method vs) P) :
    Gives own shape (.methodCall name method qs) P := by
  intro b env m
  cases b with
  | zero =>
    rw [eval]
    exact .throw _
  | succ b =>
    rw [eval_methodCall]
    refine .bind (ha b env m) fun vs n _ hs => ?_
    refine .bind (.of_after fun hn => after_global hn hp hb b env) ?_
    rintro _ _ - ⟨rfl, rfl⟩
    exact hcall vs _ hs

theorem gives_memberOf {name member : String} {builtin : Builtin} {w : Value}
    (hp : name ∈ programGlobals) (hb : Builtin.ofName? name = some builtin)
    (hm : builtinMember builtin member = pure w) :
    Gives own shape (.memberAccess (.identifier name) member) fun v _ => v = w := by
  intro b env m
  cases b with
  | zero =>
    rw [eval]
    exact .throw _
  | succ b =>
    rw [eval]
    change Yields own shape m (eval own b env (.identifier name) >>= fun v => memberOf v member) _
    refine .bind (.of_after fun hn => after_global hn hp hb b env) ?_
    rintro _ n - ⟨rfl, -⟩
    change Yields own shape n (builtinMember builtin member) _
    rw [hm]
    exact .pure rfl

theorem gives_tokenKindPath (kind : TokenKind) :
    Gives own shape (tokenKindPath kind) fun v _ => v = .tokenKind kind :=
  gives_memberOf (by decide) ofName?_tokenKind (by simp [builtinMember, kind.ofName?_name])

theorem gives_formPath (form : CallForm) :
    Gives own shape (formPath form) fun v _ => v = .form form :=
  gives_memberOf (by decide) ofName?_callForms (by cases form <;> rfl)

theorem gives_stringLiteral (text : String) :
    Gives own shape (.stringLiteral text) fun v _ => v = .string text := by
  intro b env m
  cases b with
  | zero =>
    rw [eval]
    exact .throw _
  | succ b =>
    rw [eval]
    exact .pure rfl

/-! ## Nodes -/

/-- The value is a child that may stand where the template has `d`. -/
def IsPartFor (shape : ResultShape) (d : Child NodeKind) (v : Value) : Prop :=
  ∃ c : Child Node, v = valueOf c ∧ d.StandsFor c.outline ∧
    ∀ t, c = .node t → t.Suits shape.Permits

theorem IsTree.isPartFor {K : NodeKind → Prop} {k : NodeKind} {v : Value} (h : IsTree shape K v)
    (hK : ∀ k', K k' → (Child.node k).StandsFor (.node k')) : IsPartFor shape (.node k) v := by
  obtain ⟨t, rfl, hk, ht⟩ := h
  exact ⟨.node t, rfl, hK _ hk, fun _ hc => Child.node.inj hc ▸ ht⟩

theorem yields_newNode {t : Node} {K : NodeKind → Prop} (hk : K t.kind)
    (ht : t.Suits shape.Permits) : Yields own shape m (newNode t) fun v _ => IsTree shape K v :=
  .of_after fun hm => .bind (after_newIdentity hm) fun _ _ hn _ _ =>
    .pure hn ⟨_, rfl, hk, ht.of_same rfl rfl⟩

theorem yields_construct {kind : NodeKind} (cs : List (Child Node))
    (hr : kind ≠ .returnStatement) (hf : Fills (places kind) (cs.map Child.outline))
    (hc : ∀ t, .node t ∈ cs → t.Suits shape.Permits) :
    Yields own shape m (callMethod (.builtin .nodes) kind.name (cs.map valueOf))
      fun v _ => IsTree shape (· = kind) v := by
  rw [callMethod_construct, constructNode_map_valueOf, pure_bind]
  refine yields_newNode rfl (Node.suits_build hr hf fun t ht => hc t ?_)
  rw [← Node.nodes_build kind] at ht
  exact Node.mem_nodes.1 ht

/-- A constructor of a kind, called for parts that fill the places of the kind. -/
theorem gives_structural {kind : NodeKind} (hr : kind ≠ .returnStatement)
    (ds : List (Child NodeKind)) (hf : Fills (places kind) ds)
    (ho : ∀ p ∈ places kind, p.slot.isOpen) {qs : List Node}
    (h : List.Forall₂ (fun d q => Gives own shape q fun v _ => IsPartFor shape d v) ds qs) :
    Gives own shape (construct kind.name qs) fun v _ => IsTree shape (· = kind) v := by
  refine gives_methodCall (by decide) ofName?_syntax (.each h) fun vs n hvs => ?_
  obtain ⟨cs, rfl, hcs, hsuits⟩ : ∃ cs : List (Child Node), vs = cs.map valueOf ∧
      List.Forall₂ Child.StandsFor ds (cs.map Child.outline) ∧
      ∀ t, .node t ∈ cs → t.Suits shape.Permits := by
    clear h hf
    induction hvs with
    | nil => exact ⟨[], rfl, .nil, by simp⟩
    | cons hv _ ih =>
      obtain ⟨c, rfl, hc, ht⟩ := hv
      obtain ⟨cs, rfl, hcs, hts⟩ := ih
      refine ⟨c :: cs, rfl, .cons hc hcs, fun t hmem => ?_⟩
      rcases List.mem_cons.1 hmem with h | h
      · exact ht t h.symm
      · exact hts t h
  exact yields_construct cs hr (hf.exchange ho hcs) hsuits

/-- The value is a token of a kind. -/
def IsTokenOf (K : TokenKind → Prop) (v : Value) : Prop := ∃ t, v = .token t ∧ K t.kind

theorem IsTokenOf.isPartFor {t : Token} {v : Value} (h : IsTokenOf (· = t.kind) v) :
    IsPartFor shape (.token t) v := by
  obtain ⟨t', rfl, hk⟩ := h
  exact ⟨.token t', rfl, hk, fun _ hc => nomatch hc⟩

theorem gives_literal {q : Node} (h : Gives own shape q fun v _ => IsTokenOf (·.isLiteral) v) :
    Gives own shape (construct NodeKind.literal.name [q])
      fun v _ => IsTree shape (· = .literal) v := by
  refine gives_methodCall (by decide) ofName?_syntax (.one h) ?_
  rintro _ n ⟨_, rfl, t, rfl, ht⟩
  exact yields_construct [.token t] (by decide) (.one ht .nil) (by simp)

theorem gives_identifierName {q : Node}
    (h : Gives own shape q fun v _ => IsTokenOf (· = .identifier) v) :
    Gives own shape (construct NodeKind.identifier.name [q])
      fun v _ => IsTree shape (· = .identifier) v := by
  have fills : Fills (places .identifier) [.token (.ofName "")] := .one rfl .nil
  exact gives_structural (by decide) _ fills (by decide)
    (.cons (h.mono fun _ _ hv => IsTokenOf.isPartFor hv) .nil)

/-! ## Tokens -/

theorem yields_typed {α : Type} (e : Except TypeFault α) :
    Yields own shape m (typed e) fun _ _ => True :=
  .of_after fun hm => after_typed hm e

theorem yields_sound {α : Type} (e : Except Defect α) :
    Yields own shape m (sound e) fun _ _ => True :=
  .of_after fun hm => .of_computes hm (computes_sound e) fun _ _ => trivial

theorem yields_argument (vs : List Value) (i : Nat) (function : String) :
    Yields own shape m (argument vs i function) fun v n => vs[i]? = some v ∧ n = m := by
  unfold argument
  split
  · next v hv => exact .pure ⟨hv, rfl⟩
  · exact .fail _

/-- A token of the kind that is asked for. -/
theorem yields_tokenCall (kind : TokenKind) (vs : List Value) :
    Yields own shape m (callNodes "Token" (.tokenKind kind :: vs))
      fun v _ => IsTokenOf (· = kind) v := by
  have made (text : String) : IsTokenOf (· = kind) (newToken kind text) := ⟨_, rfl, rfl⟩
  refine .bind (yields_argument _ 0 _) ?_
  rintro _ n - ⟨⟨⟩, rfl⟩
  dsimp only
  split
  · exact .bind (yields_typed _) fun _ _ _ _ => .pure (made _)
  · exact .pure (made _)
  · exact .fail _

theorem gives_token (kind : TokenKind) {qs : List Node}
    (h : GivesAll own shape qs fun _ _ => True) :
    Gives own shape (construct "Token" (tokenKindPath kind :: qs))
      fun v _ => IsTokenOf (· = kind) v := by
  refine gives_methodCall (by decide) ofName?_syntax (.cons (gives_tokenKindPath kind) h) ?_
  rintro _ n ⟨_, vs, rfl, rfl, -⟩
  exact yields_tokenCall kind vs

theorem gives_quoteToken (t : Token) :
    Gives own shape (quoteToken t) fun v _ => IsTokenOf (· = t.kind) v := by
  refine gives_token t.kind ?_
  split
  · exact GivesAll.nil.mono fun _ _ _ => trivial
  · exact (GivesAll.one (gives_stringLiteral t.text)).mono fun _ _ _ => trivial

/-- The constructors of literals make tokens of literals. -/
theorem gives_literalToken {name : String}
    (h : name ∈ ["StringLiteral", "CharLiteral", "IntLiteral", "FloatLiteral"]) {q : Node}
    (hq : Gives own shape q fun _ _ => True) :
    Gives own shape (construct name [q]) fun v _ => IsTokenOf (·.isLiteral) v := by
  refine gives_methodCall (by decide) ofName?_syntax (.one hq) ?_
  rintro _ n ⟨v, rfl, -⟩
  have made {kind : TokenKind} (hk : kind.isLiteral) (text : String) :
      IsTokenOf (·.isLiteral) (newToken kind text) := ⟨_, rfl, hk⟩
  simp only [List.mem_cons, List.not_mem_nil, or_false] at h
  rcases h with rfl | rfl | rfl | rfl <;>
    refine .bind (yields_argument _ 0 _) fun v _ _ _ => ?_
  · exact .bind (yields_sound _) fun _ _ _ _ => .pure (made rfl _)
  · exact .bind (yields_sound _) fun _ _ _ _ => .pure (made rfl _)
  · exact .bind (yields_typed _) fun _ _ _ _ => .pure (made rfl _)
  · exact .bind (yields_typed _) fun _ _ _ _ => .pure (made rfl _)

/-- The variable of a generated local holds a name. -/
theorem gives_holder (hint : String) (i : Nat) :
    Gives own shape (.identifier (holderName hint i))
      fun v _ => IsTokenOf (· = .identifier) v := by
  intro b env m
  refine .of_after fun tame =>
    (after_reserved tame (isReserved_holderName hint i) b env).mono ?_
  rintro v n - ⟨-, f, hf⟩
  exact tame.holder hf

theorem gives_accumulator (a : Nat) :
    Gives own shape (.identifier (accumulatorName a)) fun v n => ∃ p, v = .list p ∧ Held n p := by
  intro b env m
  refine .of_after fun tame =>
    (after_reserved tame (isReserved_accumulatorName a) b env).mono ?_
  rintro v n - ⟨rfl, f, hf⟩
  exact tame.accumulator hf

/-! ## Values in generated code -/

/-- The value is an expression. -/
abbrev IsOperand (shape : ResultShape) : Value → Prop := IsTree shape fun k => k.isExpression

theorem gives_placeholder : Gives own shape placeholder fun v _ => IsOperand shape v :=
  (gives_literal ((gives_token .defaultKeyword
    (GivesAll.nil.mono fun _ _ _ => trivial)).mono fun _ _ ⟨t, hv, hk⟩ =>
      ⟨t, hv, by rw [hk]; rfl⟩)).mono fun _ _ hv => hv.mono fun k hk => by rw [hk]; rfl

/-- A generation-time expression comes to a bare value. -/
theorem gives_kept {q : Node} (hq : Modest q) : Gives own shape q fun v n => Bare n v :=
  fun b env _ => .of_after fun hm => after_eval b hq env hm

theorem gives_lift (store : FactStore) {q : Node} (hq : Modest q) (s : State) :
    Gives own shape ((lift store q).run s).1 fun v _ => IsOperand shape v := by
  have literal {name : String}
      (h : name ∈ ["StringLiteral", "CharLiteral", "IntLiteral", "FloatLiteral"]) :
      Gives own shape (construct "LiteralExpression" [construct name [q]])
        fun v _ => IsOperand shape v :=
    (gives_literal (gives_literalToken h ((gives_kept hq).mono fun _ _ _ => trivial))).mono
      fun _ _ hv => hv.mono fun k hk => by rw [hk]; rfl
  unfold lift
  split
  · exact gives_placeholder
  · exact gives_placeholder
  · next t _ _ =>
    split
    · next name hc =>
      refine literal ?_
      cases t <;> simp only [literalConstructor?, Option.some.injEq, reduceCtorEq] at hc
      all_goals subst hc; decide
    · exact gives_placeholder

theorem suits_leafNode {permits : Bool → Prop} {v : Value} {t : Node} (hv : Bare m v)
    (h : leafNode v = .ok t) : t.Suits permits ∧ t.kind.isExpression := by
  have leaf {tok : Token} (ht : tok.kind.isLiteral) :
      (Node.literal tok).Suits permits ∧ (Node.literal tok).kind.isExpression :=
    ⟨Node.suits_literal ht, rfl⟩
  unfold leafNode at h
  split at h
  · cases h; exact ⟨Node.suits_atom hv, Node.isExpression_atom hv⟩
  · cases h; exact leaf rfl
  · next b =>
    cases h
    cases b <;> exact leaf rfl
  · cases h; exact leaf rfl
  · cases h; exact leaf rfl
  · cases h; exact leaf rfl
  · cases h; exact leaf rfl
  · split at h
    · next hk => cases h; exact ⟨Node.suits_identifierOf hk, rfl⟩
    · cases h
  · next o =>
    cases o <;> simp only [TargetObject.node?] at h <;> cases h
    exact ⟨Node.suits_identifier _, rfl⟩
  · cases h

/-- The code of a bare value is an expression. -/
theorem yields_asNode {v : Value} (hv : Bare m v) :
    Yields own shape m (asNode v) fun t _ => t.Suits shape.Permits ∧ t.kind.isExpression := by
  refine .of_after fun hm => (after_reading hm _).mono fun t _ _ ⟨_, ht⟩ => ?_
  exact spread_bare hm (fun _ _ => suits_leafNode)
    (fun ts hts => ⟨Node.suits_list hts, rfl⟩) _ hv ht

theorem gives_splice {q : Node} (hq : Modest q) :
    Gives own shape (construct "Splice" [q]) fun v _ => IsOperand shape v := by
  refine gives_methodCall (by decide) ofName?_syntax (.one (gives_kept hq)) ?_
  rintro _ n ⟨v, rfl, hv⟩
  change Yields own shape n (splice v) _
  unfold splice
  split
  · exact .pure ⟨_, rfl, Node.isExpression_atom hv, Node.suits_atom hv⟩
  · exact .bind (yields_asNode hv) fun _ _ _ ht => yields_newNode ht.2 ht.1

/-! ## What the context provides -/

theorem yields_currentContext :
    Yields own shape m currentContext fun context n => own = context ∧ m = n :=
  .of_after after_currentContext

theorem gives_contextCall {method : String} {qs : List Node} {S : List Value → Machine → Prop}
    {P : Value → Machine → Prop} (ha : GivesAll own shape qs S)
    (hcall : ∀ vs n, S vs n → Yields own shape n (callContext method vs) P) :
    Gives own shape (.methodCall "Context" method qs) P :=
  gives_methodCall (by decide) ofName?_context ha hcall

theorem gives_freshIdentifier (hint : String) :
    Gives own shape (.methodCall "Context" "FreshIdentifier" [.stringLiteral hint])
      fun v _ => ∃ x, v = .token (.ofName x) := by
  refine gives_contextCall (.one (gives_stringLiteral hint)) ?_
  rintro _ n ⟨_, rfl, rfl⟩
  refine .bind yields_currentContext ?_
  rintro _ _ - ⟨rfl, rfl⟩
  change Yields own shape n
    (onContext own (Context.freshName hint) >>= fun x => pure (Value.token (.ofName x))) _
  exact .bind (.of_after fun hn => after_freshName hn hint) fun x _ _ _ => .pure ⟨x, rfl⟩

theorem gives_return :
    Gives own shape (.methodCall "Context" "ReturnStatement" []) fun v _ => IsStep shape v := by
  refine gives_contextCall .nil ?_
  rintro _ n rfl
  refine .bind yields_currentContext ?_
  rintro _ _ - ⟨rfl, rfl⟩
  exact yields_returnStatement none (by simp) false

theorem gives_returnValue {q : Node} (hq : Gives own shape q fun v _ => IsOperand shape v)
    (type : String) :
    Gives own shape (.methodCall "Context" "ReturnStatement" [q, .stringLiteral type])
      fun v _ => IsStep shape v := by
  refine gives_contextCall (.cons hq (.one (gives_stringLiteral type))) ?_
  rintro _ n ⟨_, _, rfl, ⟨t, rfl, hk, ht⟩, _, rfl, rfl⟩
  refine .bind yields_currentContext ?_
  rintro _ _ - ⟨rfl, rfl⟩
  exact yields_returnStatement (some t) (fun _ h => Option.some.inj h ▸ ⟨ht, hk⟩)
    (isDynamicText type)

theorem suits_provide {c : Context} {form : CallForm} {call : Node} {permits : Bool → Prop}
    (h : c.provide form = .ok call) : call.Suits permits ∧ call.kind.isExpression := by
  unfold Context.provide at h
  split at h
  · cases h
    exact suits_wrappedCall _ _
  · cases h

theorem gives_returnWrapped (form : CallForm) :
    Gives own shape (.methodCall "Context" "CreateReturnStatement" [formPath form])
      fun v _ => IsStep shape v := by
  refine gives_contextCall (.one (gives_formPath form)) ?_
  rintro _ n ⟨_, rfl, rfl⟩
  refine .bind yields_currentContext ?_
  rintro _ _ - ⟨rfl, rfl⟩
  change Yields own shape n (contextAt own >>= fun c => _) _
  refine .bind yields_contextAt fun c n' _ _ => ?_
  split
  · next call hcall =>
    refine yields_returnStatement (some call) ?_ false
    rintro _ ⟨⟩
    exact suits_provide hcall
  · exact .fail _

/-- `var x = <wrapped call>;` under the name that a holder has. -/
theorem gives_assignWrapped (hint : String) (i : Nat) (form : CallForm) :
    Gives own shape (.methodCall "Context" "CreateAssignStatement"
      [.identifier (holderName hint i), formPath form]) fun v _ => IsStep shape v := by
  refine gives_contextCall (.cons (gives_holder hint i) (.one (gives_formPath form))) ?_
  rintro _ n ⟨_, _, rfl, ⟨t, rfl, ht⟩, _, rfl, rfl⟩
  refine .bind yields_currentContext ?_
  rintro _ _ - ⟨rfl, rfl⟩
  change Yields own shape n (contextAt own >>= fun c => _) _
  refine .bind yields_contextAt fun c n' _ _ => ?_
  unfold Context.assignWrapped
  cases hcall : c.provide form with
  | error e => exact .fail _
  | ok call =>
    refine yields_newNode rfl (Node.suits_localDeclaration ht ?_)
    rintro _ ⟨⟩
    exact suits_provide hcall

end Stencil.Quotation
