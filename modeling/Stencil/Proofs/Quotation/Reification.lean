import Mathlib.Tactic.MkIffOfInductiveProp
import Stencil.Proofs.Quotation.Simulation
import Stencil.Proofs.Tree.Tidy

/-!
# Evaluation undoes quoting

Code that the generator has nothing to do with is quoted as it stands: neither it nor a part of it
is run at generation time, spliced, wrapped or named anew. Evaluating what was quoted gives that
code back, token by token. What the code is spelled like does not matter: a token whose text is not
the spelling of its kind is quoted together with its text.

`Rebuilds own q P` says what evaluating the code `q` comes to wherever the globals that it names
can be seen: a value of which `P` holds, on a machine that has only handed out numbers.

Results:

* `rebuilds_structural` – a constructor call gives a node with the parts that its arguments give;
* `makes_quotePart` – the quoter makes such code of a node without reporting or declaring anything;
* `eval_verbatim` – hence evaluating the quoted code gives the node.
-/
namespace Stencil

namespace Quotation

open Expansion

/-! ## Evaluating constructor calls -/

/-- The globals that quoted code names can be seen. -/
structure Reachable (own : Nat) (env : Scoping) (m : Machine) : Prop where
  nodes : m.valueOf? env "Syntax" = none
  tokenKinds : m.valueOf? env "TokenKind" = none
  owned : own < m.contexts.size

/-- Evaluating `q` where the globals can be seen gives a value of which `P` holds, and only hands
out numbers. -/
def Rebuilds (own : Nat) (q : Node) (P : Value → Prop) : Prop :=
  ∀ (env : Scoping) (b : Nat) (m : Machine), Reachable own env m → q.size ≤ b →
    ∃ v i, eval own b env q m = .ok v { m with identities := i } ∧ P v

variable {own : Nat}

theorem Reachable.renumber {env : Scoping} {m : Machine} (h : Reachable own env m) (i : Nat) :
    Reachable own env { m with identities := i } :=
  ⟨h.nodes, h.tokenKinds, h.owned⟩

theorem Rebuilds.mono {q : Node} {P Q : Value → Prop} (h : Rebuilds own q P)
    (hPQ : ∀ v, P v → Q v) : Rebuilds own q Q := by
  intro env b m hm hb
  obtain ⟨v, i, hv, hp⟩ := h env b m hm hb
  exact ⟨v, i, hv, hPQ v hp⟩

theorem Rebuilds.mapM {γ : Type} {P : γ → Value → Prop} {qs : List Node} {xs : List γ}
    (h : List.Forall₂ (fun q x => Rebuilds own q (P x)) qs xs) {env : Scoping} {b : Nat}
    {m : Machine} (hm : Reachable own env m) (hb : ∀ q ∈ qs, q.size ≤ b) :
    ∃ vs i, qs.mapM (eval own b env) m = .ok vs { m with identities := i } ∧
      List.Forall₂ (fun v x => P x v) vs xs := by
  induction h generalizing m with
  | nil => exact ⟨[], m.identities, rfl, .nil⟩
  | cons hq _ ih =>
    obtain ⟨v, i, hv, hp⟩ := hq env b m hm (hb _ List.mem_cons_self)
    obtain ⟨vs, j, hvs, hps⟩ := ih (hm.renumber i) fun q hq => hb q (List.mem_cons_of_mem _ hq)
    refine ⟨v :: vs, j, ?_, .cons hp hps⟩
    simp only [List.mapM_cons, run_bind, hv, hvs]
    rfl

/-- A call of a constructor: what its arguments give goes to the function of that name. -/
theorem Rebuilds.construct {γ : Type} {P : γ → Value → Prop} {Q : Value → Prop} {name : String}
    {qs : List Node} (xs : List γ)
    (h : List.Forall₂ (fun q x => Rebuilds own q (P x)) qs xs)
    (hcall : ∀ vs, List.Forall₂ (fun v x => P x v) vs xs → ∀ m : Machine,
      ∃ v i, callNodes name vs m = .ok v { m with identities := i } ∧ Q v) :
    Rebuilds own (construct name qs) Q := by
  intro env b m hm hsize
  obtain ⟨b, rfl⟩ : ∃ c, b = c + 1 :=
    ⟨b - 1, by have := (Quotation.construct name qs).size_pos; omega⟩
  obtain ⟨hpos, hargs⟩ := size_of_mem_methodCall hsize
  obtain ⟨b, rfl⟩ : ∃ c, b = c + 1 := ⟨b - 1, by omega⟩
  obtain ⟨vs, i, hvs, hps⟩ := Rebuilds.mapM h hm hargs
  obtain ⟨v, j, hv, hq⟩ := hcall vs hps { m with identities := i }
  refine ⟨v, j, ?_, hq⟩
  rw [Quotation.construct, eval_methodCall, run_bind, hvs]
  simp only [run_bind, eval_unbound ofName?_syntax (hm.renumber i).nodes hm.owned]
  exact hv

/-! ## Tokens -/

theorem rebuilds_tokenKindPath (k : TokenKind) :
    Rebuilds own (tokenKindPath k) (· = .tokenKind k) := by
  intro env b m hm hsize
  have hchild : (Node.identifier "TokenKind").size < (tokenKindPath k).size :=
    Node.size_lt_of_mem (by simp [tokenKindPath, Node.memberAccess])
  have hpos := (Node.identifier "TokenKind").size_pos
  obtain ⟨b, rfl⟩ : ∃ c, b = c + 2 := ⟨b - 2, by omega⟩
  refine ⟨.tokenKind k, m.identities, ?_, rfl⟩
  rw [eval]
  change (eval own (b + 1) env (.identifier "TokenKind") >>= fun v => memberOf v k.name) m = _
  simp only [run_bind, eval_unbound ofName?_tokenKind hm.tokenKinds hm.owned, memberOf,
    builtinMember, TokenKind.ofName?_name, Option.map_some]
  rfl

theorem rebuilds_stringLiteral (text : String) :
    Rebuilds own (.stringLiteral text) (· = .string text) := by
  intro env b m _ hsize
  have := (Node.stringLiteral text).size_pos
  obtain ⟨b, rfl⟩ : ∃ c, b = c + 1 := ⟨b - 1, by omega⟩
  refine ⟨.string text, m.identities, ?_, rfl⟩
  rw [eval]
  rfl

/-- The code of a token gives a token of its kind and text, whether it has to say the text or
not. -/
theorem rebuilds_quoteToken (t : Token) :
    Rebuilds own (quoteToken t) (· = .token t.unplaced) := by
  unfold quoteToken
  by_cases hc : t.isCanonical
  · have hs : t.kind.spelling = some t.text := by simpa [Token.isCanonical] using hc
    rw [if_pos hc]
    refine .construct (P := fun x v => v = x) [.tokenKind t.kind]
      (.cons (rebuilds_tokenKindPath t.kind) .nil) ?_
    rintro _ (_ | ⟨rfl, _ | _⟩) m
    have called : callNodes "Token" [.tokenKind t.kind] = pure (.token t.unplaced) := by
      simp [callNodes, argument, hs, newToken, Token.unplaced, Token.detached]
    exact ⟨_, m.identities, congrFun called m, rfl⟩
  · rw [if_neg hc]
    refine .construct (P := fun x v => v = x) [.tokenKind t.kind, .string t.text]
      (.cons (rebuilds_tokenKindPath t.kind) (.cons (rebuilds_stringLiteral t.text) .nil)) ?_
    rintro _ (_ | ⟨rfl, _ | ⟨rfl, _ | _⟩⟩) m
    exact ⟨_, m.identities, rfl, rfl⟩

/-! ## Nodes -/

/-- The value is a child with the code of `c`. -/
def IsPartCopy (c : Child Node) (v : Value) : Prop :=
  ∃ c' : Child Node, v = valueOf c' ∧ c'.mapped Node.bare = c.mapped Node.bare

/-- The value is a node with the code of `n`. -/
def IsCopy (n : Node) (v : Value) : Prop := ∃ n' : Node, v = .node n' ∧ n'.bare = n.bare

theorem IsCopy.isPartCopy {n : Node} {v : Value} (h : IsCopy n v) : IsPartCopy (.node n) v := by
  obtain ⟨n', rfl, hn⟩ := h
  exact ⟨.node n', rfl, congrArg Child.node hn⟩

theorem parts_of_forall₂ {vs : List Value} {cs : List (Child Node)}
    (h : List.Forall₂ (fun v c => IsPartCopy c v) vs cs) :
    ∃ cs' : List (Child Node), vs = cs'.map valueOf ∧
      cs'.map (Child.mapped Node.bare) = cs.map (Child.mapped Node.bare) := by
  induction h with
  | nil => exact ⟨[], rfl, rfl⟩
  | cons hv _ ih =>
    obtain ⟨c', rfl, hc⟩ := hv
    obtain ⟨cs', rfl, hcs⟩ := ih
    exact ⟨c' :: cs', rfl, by rw [List.map_cons, List.map_cons, hc, hcs]⟩

/-- A constructor call gives a node of its kind with the parts that its arguments give. -/
theorem rebuilds_structural {n : Node} {qs : List Node}
    (h : List.Forall₂ (fun q c => Rebuilds own q (IsPartCopy c)) qs n.children) :
    Rebuilds own (construct n.kind.name qs) (IsCopy n) := by
  refine .construct n.children h fun vs hvs m => ?_
  obtain ⟨cs, rfl, hcs⟩ := parts_of_forall₂ hvs
  refine ⟨.node { Node.build n.kind cs with id := m.identities }, m.identities + 1, ?_, _, rfl, ?_⟩
  · rw [callNodes_name, constructNode_map_valueOf, pure_bind]
    rfl
  · rw [Node.bare_eq, Node.bare_eq n]
    exact congrArg _ hcs

/-! ## What is quoted as it stands -/

/-- The generator has nothing to do with the node itself when it is quoted in the state `s`. -/
@[mk_iff]
structure IsVerbatim (store : FactStore) (s : State) (n : Node) : Prop where
  unspliced : n.hasMark .splice = false
  unwrapped : wrappedForm? store n = none
  /-- no variable of the generator holds the name that a reference stands for -/
  unheld : n.kind = .identifier → (store.symbol? n).bind s.holder? = none
  /-- what runs at generation time is a literal -/
  generated : n.kind.isStatement ∨ n.kind.isExpression → n.kind ≠ .literal →
    n.stage? ≠ some .generationTime
  kind : n.kind ≠ .localDeclaration ∧ n.kind ≠ .forEachStatement ∧ n.kind ≠ .returnStatement

instance (store : FactStore) (s : State) (n : Node) : Decidable (IsVerbatim store s n) :=
  decidable_of_iff' _ (isVerbatim_iff store s n)

/-- The tree follows the grammar, and the generator has nothing to do with it. -/
structure AllVerbatim (store : FactStore) (s : State) (n : Node) : Prop where
  rule : ∀ m ∈ n.preorder, Rule m.kind m.outline
  verbatim : ∀ m ∈ n.preorder, IsVerbatim store s m

variable {store : FactStore} {s : State}

theorem AllVerbatim.here {n : Node} (h : AllVerbatim store s n) : IsVerbatim store s n :=
  h.verbatim n n.mem_preorder_self

theorem AllVerbatim.child {n m : Node} (h : AllVerbatim store s n) (hm : m ∈ n.nodes) :
    AllVerbatim store s m :=
  ⟨fun x hx => h.rule x (Node.preorder_subset hm hx),
    fun x hx => h.verbatim x (Node.preorder_subset hm hx)⟩

theorem AllVerbatim.not_hostLevel {n : Node} (h : AllVerbatim store s n)
    (hs : n.kind.isStatement) : isHostLevel n = false := by
  have hlit : n.kind ≠ .literal := by
    intro hk
    simp [hk, NodeKind.isStatement] at hs
  have hstage := h.here.generated (.inl hs) hlit
  obtain ⟨hdecl, hloop, -⟩ := h.here.kind
  simp [isHostLevel, hstage, hdecl, hloop]

/-- In the state `s` the quoter makes something of which `P` holds and changes nothing. -/
def Makes {α : Type} (s : State) (P : α → Prop) (act : Quoter α) : Prop :=
  P (act.run s).1 ∧ (act.run s).2 = s

namespace Makes

variable {α β γ : Type} {P : α → Prop} {Q : β → Prop}

theorem pure {a : α} (h : P a) : Makes s P (pure a) := ⟨h, rfl⟩

theorem bind {act : Quoter α} {k : α → Quoter β} (h : Makes s P act)
    (hk : ∀ a, P a → Makes s Q (k a)) : Makes s Q (act >>= k) := by
  obtain ⟨hp, hs⟩ := h
  obtain ⟨hq, hs'⟩ := hk (act.run s).1 hp
  change Q ((k (act.run s).1).run (act.run s).2).1 ∧ ((k (act.run s).1).run (act.run s).2).2 = s
  rw [hs]
  exact ⟨hq, hs'⟩

theorem mapM {f : γ → Quoter α} {R : γ → α → Prop} (xs : List γ)
    (h : ∀ x ∈ xs, Makes s (R x) (f x)) :
    Makes s (fun as => List.Forall₂ (fun a x => R x a) as xs) (xs.mapM f) := by
  induction xs with
  | nil => exact .pure .nil
  | cons x xs ih =>
    rw [List.mapM_cons]
    refine .bind (h x List.mem_cons_self) fun a ha => ?_
    refine .bind (ih fun y hy => h y (List.mem_cons_of_mem _ hy)) fun as has => ?_
    exact .pure (.cons ha has)

theorem mono {P' : α → Prop} {act : Quoter α} (h : Makes s P act) (hP : ∀ a, P a → P' a) :
    Makes s P' act :=
  ⟨hP _ h.1, h.2⟩

end Makes

variable {provided : Option (Nat × CallForm)}

theorem makes_structural {n : Node}
    (h : ∀ m ∈ n.nodes, ∀ callee,
      Makes s (fun q => Rebuilds own q (IsCopy m)) (quotePart store provided callee m)) :
    Makes s (fun q => Rebuilds own q (IsCopy n)) (structural store provided n) := by
  have children : n.children.attach.zipIdx.map (fun x => x.1.1) = n.children := by
    change n.children.attach.zipIdx.map (Subtype.val ∘ Prod.fst) = n.children
    rw [← List.map_map, List.zipIdx_map_fst, List.attach_map_subtype_val]
  rw [structural]
  refine .bind
    (P := fun qs => List.Forall₂ (fun q c => Rebuilds own q (IsPartCopy c)) qs n.children) ?_
    fun qs hqs => .pure (rebuilds_structural hqs)
  refine .mono (.mapM (R := fun x q => Rebuilds own q (IsPartCopy x.1.1)) _ ?_) fun qs hqs => ?_
  · rintro ⟨⟨c, hc⟩, index⟩ -
    cases c with
    | token t =>
      exact .pure ((rebuilds_quoteToken t).mono fun v hv => ⟨.token t.unplaced, hv, rfl⟩)
    | node m =>
      have part := h m (Node.mem_nodes.2 hc) (index = 0 && n.kind = .invocation)
      exact part.mono fun q hq => hq.mono fun v hv => hv.isPartCopy
  · rw [← children]
    exact List.forall₂_map_right_iff.2 hqs

theorem makes_quote {n : Node} (hn : AllVerbatim store s n)
    (h : Makes s (fun q => Rebuilds own q (IsCopy n)) (structural store provided n)) :
    Makes s (fun q => Rebuilds own q (IsCopy n)) (quote store provided n) := by
  have here := hn.here
  rw [quote]
  simp only [here.unspliced, here.unwrapped, Option.isSome_none, Bool.false_eq_true, if_false]
  cases he : n.kind.isExpression with
  | false => exact h
  | true =>
    have staged : (n.stage? = some .generationTime && n.kind ≠ .literal) = false := by
      by_cases hk : n.kind = .literal
      · simp [hk]
      · simp [here.generated (.inr he) hk]
    simp only [staged, Bool.not_true, Bool.false_eq_true, if_false]
    split
    · next hk =>
      unfold Makes
      rw [run_heldOr_none (here.unheld (by simpa using hk))]
      exact h
    · exact h

/-- A call's method part is quoted as any other part. -/
theorem makes_quoteCallee {n : Node} (hn : AllVerbatim store s n)
    (h : Makes s (fun q => Rebuilds own q (IsCopy n)) (structural store provided n)) :
    Makes s (fun q => Rebuilds own q (IsCopy n)) (quoteCallee store provided n) := by
  rw [quoteCallee]
  split
  · exact h
  · exact makes_quote hn h

theorem makes_embedded {n : Node} (hn : AllVerbatim store s n) (hs : n.kind.isStatement)
    (h : Makes s (fun q => Rebuilds own q (IsCopy n)) (structural store provided n)) :
    Makes s (fun q => Rebuilds own q (IsCopy n)) (embedded store provided n) := by
  have quoted : Makes s (fun q => Rebuilds own q (IsCopy n)) (quoteStatement store provided n) := by
    rw [quoteStatement, if_pos hn.here.kind.2.2]
    exact h
  rw [embedded]
  split
  · next hk =>
    have level : n.nodes.any isHostLevel = false := by
      refine List.any_eq_false.2 fun m hm => ?_
      have hs := (hn.rule n n.mem_preorder_self).nodes_block hk m hm
      simp [(hn.child hm).not_hostLevel hs]
    rw [level]
    exact quoted
  · rw [hn.not_hostLevel hs]
    exact quoted

/-- What is quoted as it stands is rebuilt. -/
theorem makes_quotePart (n : Node) (hn : AllVerbatim store s n) (callee : Bool) :
    Makes s (fun q => Rebuilds own q (IsCopy n)) (quotePart store provided callee n) := by
  have parts : Makes s (fun q => Rebuilds own q (IsCopy n)) (structural store provided n) :=
    makes_structural fun m hm callee =>
      have := Node.size_lt_of_mem hm
      makes_quotePart m (hn.child hm) callee
  unfold quotePart
  cases hs : n.kind.isStatement with
  | true => exact makes_embedded hn hs parts
  | false =>
    cases callee with
    | true => exact makes_quoteCallee hn parts
    | false => exact makes_quote hn parts
termination_by n.size

/-! ## Evaluation undoes quoting -/

/-- Where the globals that it names can be seen, the code of a node that the generator has nothing
to do with evaluates to a node of the same kinds and tokens, and nothing but the next free number
changes. -/
theorem eval_verbatim {n : Node} (hn : AllVerbatim store s n) {env : Scoping} {m : Machine}
    (hm : Reachable own env m) {q : Node}
    (hq : q = ((if n.kind.isStatement then embedded store provided n
      else quote store provided n).run s).1) {b : Nat} (hb : q.size ≤ b) :
    ∃ n' i, eval own b env q m = .ok (.node n') { m with identities := i } ∧ n'.bare = n.bare := by
  have made : Makes s (fun q => Rebuilds own q (IsCopy n)) (quotePart store provided false n) :=
    makes_quotePart n hn false
  obtain ⟨rebuilt, -⟩ := made
  rw [quotePart, if_neg Bool.false_ne_true, ← hq] at rebuilt
  obtain ⟨_, i, hv, n', rfl, hcopy⟩ := rebuilt env b m hm hb
  exact ⟨n', i, hv, hcopy⟩

/-- `{ this.F = "a"; }`, whose literal is known at generation time. -/
def assigning : Node :=
  .block [.expressionStatement (.assignment (.memberAccess .this "F")
    ((Node.stringLiteral "a").setStage .generationTime))]

theorem allVerbatim_assigning : AllVerbatim .empty .initial assigning := by
  refine ⟨?_, by decide +kernel⟩
  have nodes : assigning.preorder.map (fun m => (m.kind, m.outline)) = [
      (.block, [.node .expressionStatement]), (.expressionStatement, [.node .assignment]),
      (.assignment, [.node .memberAccess, .token (.fixed .equals), .node .literal]),
      (.memberAccess, [.node .this, .token (.ofName "F")]), (.this, []),
      (.literal, [.token (.detached .stringLiteral "a")])] := rfl
  have rules : ∀ e ∈ assigning.preorder.map (fun m => (m.kind, m.outline)), Rule e.1 e.2 := by
    rw [nodes]
    simp only [List.forall_mem_cons, List.not_mem_nil, false_implies, implies_true, and_true]
    exact ⟨@Rule.block [_] (by decide), .expressionStatement rfl,
      .operation (.inr rfl) rfl (by decide) rfl, .memberAccess rfl rfl, .bare (by decide),
      .literal _ (by decide)⟩
  exact fun m hm => rules _ (List.mem_map_of_mem hm)

/-- A machine with a context for a target without parameters. -/
def bareMachine : Machine := (Machine.initial.addContext ⟨"Target", .void, []⟩ []).2

theorem eval_verbatim_assigning :
    ∃ n' i, eval 0 64 [] ((embedded .empty none assigning).run .initial).1 bareMachine =
      .ok (.node n') { bareMachine with identities := i } ∧ n'.bare = assigning.bare :=
  eval_verbatim allVerbatim_assigning ⟨rfl, rfl, Nat.one_pos⟩ rfl (by decide +kernel)

end Quotation

end Stencil
