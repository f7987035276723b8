import Stencil.Proofs.Quotation.Denotation
import Stencil.Proofs.Quotation.Names
import Stencil.Proofs.Quotation.Requests

/-!
# Generators do what their templates say

Running the generator of a template of the control-flow fragment and running the template directly
come to the same code. The proof follows the quoter: `Quotes` says what holds of the code that a
step of the quoter makes, `Denotes` what such code evaluates to, and `Performs` what a statement
of the generator does to the accumulator of the block being built.

Results:

* `quotes_structural`, `quotes_embedded` – quoted code builds what the direct run emits;
* `quotes_hostStatement` – each statement of the generator does what its template statement does;
* `simulated` – hence all that the quoter makes of the fragment does.
-/
namespace Stencil.Quotation

open Expansion Layer

/-! ## The fragment -/

/-- What the simulation needs to know of a node and its children. -/
structure Fits (store : FactStore) (n : Node) : Prop where
  direct : n.kind ≠ .lambda ∧ n.kind ≠ .query ∧
    ∀ t ∈ n.tokens, t.kind = .identifier → Reserved.isReserved t.text = false
  wrapped : wrappedForm? store n = none
  /-- statements of the fragment, and no others -/
  statement : n.kind.isStatement → n.kind = .block ∨ n.kind = .expressionStatement ∨
    n.kind = .ifStatement ∨ n.kind = .forEachStatement ∨ n.kind = .breakStatement ∨
    n.kind = .continueStatement
  /-- a block holds statements that are no blocks -/
  block : n.kind = .block → ∀ m ∈ n.nodes, m.kind.isStatement ∧ m.kind ≠ .block
  /-- statements elsewhere stand in blocks -/
  nested : n.kind ≠ .block → ∀ m ∈ n.nodes, m.kind.isStatement → m.kind = .block
  conditional : n.kind = .ifStatement → ∃ condition thenBranch rest,
    n.nodes = condition :: thenBranch :: rest ∧ condition.kind.isExpression ∧
      thenBranch.kind = .block ∧
      (rest = [] ∨ ∃ clause branch, rest = [clause] ∧ clause.kind = .elseClause ∧
        clause.nodes = [branch] ∧ branch.kind = .block)
  loop : n.kind = .forEachStatement → n.stage? = some .generationTime ∧
    isOpenName n.nameOrEmpty ∧ (n.tokenOfKind? .identifier).isSome ∧
    ∃ source body, n.nodes = [source, body] ∧ body.kind = .block
  evaluated : n.kind = .expressionStatement → ∃ e, n.nodes = [e]

/-- The whole tree below a node fits. -/
def AllFit (store : FactStore) (n : Node) : Prop := ∀ m ∈ n.preorder, Fits store m

theorem AllFit.here {store : FactStore} {n : Node} (h : AllFit store n) : Fits store n :=
  h n n.mem_preorder_self

theorem AllFit.child {store : FactStore} {n m : Node} (h : AllFit store n) (hm : m ∈ n.nodes) :
    AllFit store m :=
  fun x hx => h x (Node.preorder_subset hm hx)

theorem AllFit.isDirect {store : FactStore} {n : Node} (h : AllFit store n) : IsDirect n :=
  fun m hm => (h m hm).direct

/-! ## The quoter -/

/-- A state of the quoter in which a block with the accumulator `acc` is built and no generated
local has a name. -/
structure State.IsPlain (acc : String) (s : State) : Prop where
  accumulator : s.frame.accumulator = acc
  locals : ∀ f ∈ s.frame :: s.outer, f.locals = []

/-- From a plain state the quoter comes back to the same block, and `P` holds of what it made. -/
def Quotes {α : Type} (acc : String) (P : α → Prop) (act : Quoter α) : Prop :=
  ∀ s : State, s.IsPlain acc → P (act.run s).1 ∧ (act.run s).2.frame = s.frame ∧
    (act.run s).2.outer = s.outer

namespace Quotes

variable {α β γ : Type} {acc : String} {P : α → Prop} {Q : β → Prop}

theorem bind {act : Quoter α} {k : α → Quoter β} (h : Quotes acc P act)
    (hk : ∀ a, P a → Quotes acc Q (k a)) : Quotes acc Q (act >>= k) := by
  intro s hs
  obtain ⟨hp, hf, ho⟩ := h s hs
  have hs' : (act.run s).2.IsPlain acc := ⟨hf ▸ hs.accumulator, hf ▸ ho ▸ hs.locals⟩
  obtain ⟨hq, hf', ho'⟩ := hk (act.run s).1 hp (act.run s).2 hs'
  exact ⟨hq, hf'.trans hf, ho'.trans ho⟩

theorem pure {a : α} (h : P a) : Quotes acc P (pure a) := fun _ _ => ⟨h, rfl, rfl⟩

theorem mapM {f : γ → Quoter α} {R : γ → α → Prop} (xs : List γ)
    (h : ∀ x ∈ xs, Quotes acc (R x) (f x)) :
    Quotes acc (fun as => List.Forall₂ (fun a x => R x a) as xs) (xs.mapM f) := by
  induction xs with
  | nil => exact .pure .nil
  | cons x xs ih =>
    rw [List.mapM_cons]
    refine .bind (h x List.mem_cons_self) fun a ha => ?_
    refine .bind (ih fun y hy => h y (List.mem_cons_of_mem _ hy)) fun as has => ?_
    exact .pure (.cons ha has)

theorem mono {P' : α → Prop} {act : Quoter α} (h : Quotes acc P act) (hP : ∀ a, P a → P' a) :
    Quotes acc P' act :=
  fun s hs => ⟨hP _ (h s hs).1, (h s hs).2⟩

theorem accumulator : Quotes acc (fun name => name = acc) Quotation.accumulator :=
  fun _ hs => ⟨hs.accumulator, rfl, rfl⟩

/-- No reference finds a name, since none is declared. -/
theorem heldOr {P : Node → Prop} {otherwise : Quoter Node} (v : Option Symbol)
    (h : Quotes acc P otherwise) : Quotes acc P (Quotation.heldOr v otherwise) := by
  intro s hs
  have none : v.bind s.holder? = none := by
    cases v with
    | none => rfl
    | some v =>
      refine List.findSome?_eq_none_iff.2 fun f hf => ?_
      rw [hs.locals f hf]
      rfl
  rw [run_heldOr_none none]
  exact h s hs

end Quotes

/-- A nested block has an accumulator of its own. -/
theorem Quotes.nested {α : Type} {acc : String} {P : α → Prop} {build : Quoter α}
    (h : ∀ inner, Reserved.isReserved inner → Quotes inner P build) :
    Quotes acc P (Quotation.nested build) := by
  intro s hs
  obtain ⟨hp, -, ho⟩ := h _ (isReserved_accumulatorName s.accumulators) s.enter
    ⟨rfl, List.forall_mem_cons.2 ⟨rfl, hs.locals⟩⟩
  rw [run_nested, State.leave, ho]
  exact ⟨hp, rfl, rfl⟩

/-! ## Statements of the generator -/

/-- The accumulator of the innermost block being built, and what it holds. -/
def accumulatorIn? : List Layer → Option (String × Value)
  | [] => none
  | .both _ _ :: L => accumulatorIn? L
  | .left _ [] :: L => accumulatorIn? L
  | .left _ (e :: _) :: _ => some e

/-- Running `q` in a generator follows the direct run of a statement, where `acc` holds the list
that the direct run emits to. -/
def Performs (own : Nat) (acc : String) (q : Node)
    (direct : Nat → Scoping → Run Flow) : Prop :=
  ∀ L b place, accumulatorIn? L = some (acc, .list place) → q.size ≤ b →
    Follows own L L Follows.SameFlow (exec own b (lefts L) q) (direct place (rights L))

variable {own : Nat} {acc : String}

theorem valueOf?_accumulator {L : List Layer} {m m' : Machine} (h : Layered m m' L)
    (hr : Reserved.isReserved acc) {place : Value} (ha : accumulatorIn? L = some (acc, place)) :
    m.valueOf? (lefts L) acc = some place := by
  induction L with
  | nil => cases ha
  | cons layer L ih => cases layer with
    | both f g =>
      obtain ⟨-, -, ⟨vars, hm, -, hv⟩, hL⟩ := h
      have hnone : vars.lookup acc = none :=
        lookup_eq_none_of_forall (p := isOpenName) (fun e he => (hv e he).1)
          (by simp [isOpenName, hr])
      simpa only [Machine.valueOf?, lefts, List.findSome?_cons, hm, Option.bind_some, hnone]
        using ih hL ha
    | left f vars =>
      obtain ⟨-, hm, -, hL⟩ := h
      cases vars with
      | nil =>
        simpa only [Machine.valueOf?, lefts, List.findSome?_cons, hm, Option.bind_some,
          List.lookup_nil] using ih hL ha
      | cons e vars =>
        cases ha
        simp [Machine.valueOf?, lefts, hm]

/-- The accumulator of the block being built evaluates to its list. -/
theorem eval_accumulator {L : List Layer} {m m' : Machine} (h : Agree own L m m')
    (hr : Reserved.isReserved acc) {place : Value} (ha : accumulatorIn? L = some (acc, place))
    (b : Nat) : eval own (b + 1) (lefts L) (.identifier acc) m = .ok place m := by
  rw [eval]
  exact valueNamed_some (valueOf?_accumulator h.layered hr ha)

theorem exec_block (b : Nat) (env : Scoping) (qs : List Node) :
    exec own (b + 1) env (.block qs) = (do
      let inner ← nestedIn env
      inOrder (exec own b inner) qs) := by
  have hnodes : (Node.block qs).nodes = qs := by simp [Node.block]
  have hkind : (Node.block qs).kind = .block := rfl
  rw [exec]
  simp only [hkind, hnodes]

theorem exec_expressionStatement (b : Nat) (env : Scoping) (e : Node) :
    exec own (b + 1) env (.expressionStatement e) = (do
      let _ ← eval own b env e
      return .ongoing) := by
  rw [exec, ← discard_bind (eval own b env e) fun _ => pure Flow.ongoing]
  rfl

theorem exec_returnStatement (b : Nat) (env : Scoping) (e : Node) :
    exec own (b + 1) env (.returnStatement (some e)) = (do
      return .returned (← eval own b env e)) := by
  rw [exec]
  rfl

theorem exec_localDeclaration (b : Nat) (env : Scoping) (name : String) (e : Node) :
    exec own (b + 1) env (.localDeclaration (.ofName name) (some e)) = (do
      define env name (← eval own b env e)
      return .ongoing) := by
  rw [exec]
  simp [Node.localDeclaration, Node.declarator, Node.node?]
  rfl

theorem exec_ifStatement (b : Nat) (env : Scoping) {condition : Node} (thenBlock : Node)
    (elseBlock : Option Node) (hc : condition.kind ≠ .elseClause)
    (ht : thenBlock.kind ≠ .elseClause) :
    exec own (b + 1) env (.ifStatement condition thenBlock elseBlock) = (do
      if ← typed (← eval own b env condition).asBool then exec own b env thenBlock
      else match elseBlock with
        | some branch => exec own b env branch
        | none => return .ongoing) := by
  rw [exec]
  cases elseBlock with
  | none =>
    simp [Node.ifStatement, childOf, Node.node?, Node.nodeOfKind?, hc, ht]
  | some branch =>
    simp [Node.ifStatement, childOf, Node.node?, Node.nodeOfKind?, hc, ht]

theorem exec_forEachStatement (b : Nat) (env : Scoping) {name : Token} (source body : Node)
    (hn : name.kind = .identifier) :
    exec own (b + 1) env (.forEachStatement false name source body) = (do
      let items ← itemsOf (← eval own b env source)
      forEachItem (fun item => do
        let inner ← nestedIn env
        define inner name.text item
        exec own b inner body) items) := by
  have hnodes : (Node.forEachStatement false name source body).nodes = [source, body] := rfl
  have hkind : (Node.forEachStatement false name source body).kind = .forEachStatement := rfl
  have htokens : (Node.forEachStatement false name source body).tokens = [name] := rfl
  rw [exec]
  simp [hkind, childOf, Node.node?, hnodes, Node.hasAwait, Node.tokenOfKind?, htokens, hn,
    Node.nameOrEmpty, Node.name?]

/-! ## What statements perform -/

theorem performs_append {q : Node} {code : Scoping → Run Node} (hr : Reserved.isReserved acc)
    (h : Denotes own q IsNode code) :
    Performs own acc (.expressionStatement (.methodCall acc "Add" [q])) fun place env => do
      appendTo place [.node (← code env)]
      return .ongoing := by
  intro L b place ha hsize
  have hcall : (Node.methodCall acc "Add" [q]).size <
      (Node.expressionStatement (.methodCall acc "Add" [q])).size :=
    Node.size_lt_of_mem (by simp [Node.expressionStatement])
  have hpos := (Node.methodCall acc "Add" [q]).size_pos
  obtain ⟨b, rfl⟩ : ∃ c, b = c + 2 := ⟨b - 2, by omega⟩
  obtain ⟨hpos, hargs⟩ : 0 < b ∧ ∀ p ∈ [q], p.size ≤ b :=
    size_of_mem_methodCall (show (Node.methodCall acc "Add" [q]).size ≤ b + 1 by omega)
  obtain ⟨b, rfl⟩ : ∃ c, b = c + 1 := ⟨b - 1, by omega⟩
  rw [exec_expressionStatement, eval_methodCall]
  simp only [List.mapM_cons, List.mapM_nil, bind_assoc, pure_bind]
  refine .bind (h L _ (hargs q (by simp))) ?_
  rintro _ n rfl
  intro m m' hm
  rw [run_bind, eval_accumulator hm hr ha]
  exact Follows.steady (steady_appendTo place (by simp [Value.isPlain]))
    (fun _ _ => .pure ⟨rfl, nofun⟩) m m' hm

section

variable {store : FactStore}

/-- A statement that the generator keeps. -/
theorem performs_kept {n : Node} (hn : AllFit store n) (hg : n.stage? = some .generationTime)
    (hk : n.kind = .expressionStatement ∨ n.kind = .breakStatement ∨
      n.kind = .continueStatement) :
    Performs own acc n fun place env => Residual.statement store own place env n := by
  intro L b place _ hsize
  have := n.size_pos
  obtain ⟨b, rfl⟩ : ∃ c, b = c + 1 := ⟨b - 1, by omega⟩
  beta_reduce
  rw [exec, Residual.statement, if_pos hg]
  rcases hk with hk | hk | hk <;> simp only [hk]
  · refine .steady (steady_childOf n 0) fun e he => ?_
    have hm := Node.mem_of_node? he
    have := Node.size_lt_of_mem hm
    rw [discard_bind, discard_bind]
    exact .bind (denotes_evaluate (hn.child hm).isDirect L b (by omega)) fun _ _ _ =>
      .pure ⟨rfl, nofun⟩
  · exact .pure ⟨rfl, nofun⟩
  · exact .pure ⟨rfl, nofun⟩

theorem inOrder_attach (run : Node → Run Flow) (ns : List Node) :
    inOrder (fun m : { m // m ∈ ns } => run m.1) ns.attach = inOrder run ns := by
  have unattached {α : Type} (f : α → Node) (xs : List α) :
      inOrder (fun x => run (f x)) xs = inOrder run (xs.map f) := by
    induction xs with
    | nil => rfl
    | cons x xs ih =>
      rw [List.map_cons, inOrder, inOrder]
      exact congrArg _ (funext fun flow => by cases flow <;> first | exact ih | rfl)
  rw [unattached Subtype.val, List.attach_map_subtype_val]

theorem residual_statements (place : Nat) (env : Scoping) (n : Node) :
    Residual.statements store own place env n =
      inOrder (Residual.statement store own place env) n.nodes := by
  rw [Residual.statements]
  exact inOrder_attach (Residual.statement store own place env) n.nodes

/-- The statements of a branch or a loop body. -/
def PerformAll (own : Nat) (acc : String) (store : FactStore) (qs ns : List Node) : Prop :=
  List.Forall₂ (fun q m => Performs own acc q fun place env =>
    Residual.statement store own place env m) qs ns

theorem PerformAll.follows {qs ns : List Node} (h : PerformAll own acc store qs ns)
    {L : List Layer} {b place : Nat} (ha : accumulatorIn? L = some (acc, .list place))
    (hb : ∀ q ∈ qs, q.size ≤ b) :
    Follows own L L Follows.SameFlow (inOrder (exec own b (lefts L)) qs)
      (inOrder (Residual.statement store own place (rights L)) ns) := by
  refine .inOrder ?_
  induction h with
  | nil => exact .nil
  | cons hq _ ih =>
    refine .cons (hq L b place ha (hb _ List.mem_cons_self)) (ih fun q hm => ?_)
    exact hb q (List.mem_cons_of_mem _ hm)

theorem performs_block {n : Node} {qs : List Node} (h : PerformAll own acc store qs n.nodes) :
    Performs own acc (.block qs) fun place env => Residual.statements store own place env n := by
  intro L b place ha hsize
  have := (Node.block qs).size_pos
  obtain ⟨b, rfl⟩ : ∃ c, b = c + 1 := ⟨b - 1, by omega⟩
  beta_reduce
  rw [exec_block, residual_statements]
  refine .nestedLeft fun f => .leave _ (h.follows (L := .left f [] :: L) ha fun q hq => ?_)
  have := Node.size_lt_of_mem (n := .block qs) (by simpa [Node.block] using hq)
  omega

/-- The direct run of the statements of a block, as `Performs` compares it. -/
abbrev running (own : Nat) (store : FactStore) (n : Node) (place : Nat) (env : Scoping) :
    Run Flow :=
  Residual.statements store own place env n

theorem performs_if {n condition thenBranch thenCode : Node} {elseCode : Option Node}
    (hk : n.kind = .ifStatement) (hg : n.stage? = some .generationTime)
    (hc : n.node? 0 = some condition) (hd : IsDirect condition)
    (he : condition.kind ≠ .elseClause) (ht : n.node? 1 = some thenBranch)
    (hthen : Performs own acc thenCode (running own store thenBranch))
    (hte : thenCode.kind ≠ .elseClause)
    (helse : elseCode = none ∧ Residual.branch? n false = none ∨
      ∃ q branch, elseCode = some q ∧ Residual.branch? n false = some branch ∧
        Performs own acc q (running own store branch)) :
    Performs own acc (.ifStatement condition thenCode elseCode)
      fun place env => Residual.statement store own place env n := by
  intro L b place ha hsize
  have part {q : Node} (hq : q ∈ (Node.ifStatement condition thenCode elseCode).nodes) :
      q.size < b := Nat.lt_of_lt_of_le (Node.size_lt_of_mem hq) hsize
  have hcs := part (q := condition) (by simp [Node.ifStatement])
  have hts := part (q := thenCode) (by simp [Node.ifStatement])
  obtain ⟨b, rfl⟩ : ∃ c, b = c + 1 := ⟨b - 1, by omega⟩
  beta_reduce
  rw [exec_ifStatement b _ thenCode elseCode he hte, Residual.statement, if_pos hg]
  simp only [hk, childOf, hc, pure_bind]
  refine .bind (denotes_evaluate hd L b (by omega)) ?_
  rintro v _ ⟨rfl, -⟩
  refine .steady (steady_typed _) fun chosen _ => ?_
  cases chosen with
  | true =>
    rw [if_pos rfl]
    split
    · next branch hb =>
      cases Option.some.inj (ht.symm.trans hb)
      exact hthen L b place ha (by omega)
    · next hb => cases ht.symm.trans hb
  | false =>
    rw [if_neg Bool.false_ne_true]
    rcases helse with ⟨rfl, hb⟩ | ⟨q, branch, rfl, hb, hq⟩
    · dsimp only
      split
      · next other ho => cases ho.symm.trans hb
      · exact .pure ⟨rfl, nofun⟩
    · dsimp only
      split
      · next other ho =>
        cases Option.some.inj (ho.symm.trans hb)
        have hclause := part (q := .build .elseClause [.node q]) (by simp [Node.ifStatement])
        have := Node.size_lt_of_mem (n := .build .elseClause [.node q]) (m := q) (by simp)
        exact hq L b place ha (by omega)
      · next ho => cases ho.symm.trans hb

theorem performs_forEach {n source body bodyCode : Node} {name : Token}
    (hk : n.kind = .forEachStatement) (hg : n.stage? = some .generationTime)
    (hname : n.tokenOfKind? .identifier = some name) (hopen : isOpenName n.nameOrEmpty)
    (hs : n.node? 0 = some source) (hd : IsDirect source) (hb : n.node? 1 = some body)
    (hbody : Performs own acc bodyCode (running own store body)) :
    Performs own acc (.forEachStatement false name source bodyCode)
      fun place env => Residual.statement store own place env n := by
  intro L b place ha hsize
  have part {q : Node} (hq : q ∈ [source, bodyCode]) : q.size < b :=
    Nat.lt_of_lt_of_le (Node.size_lt_of_mem
      (n := .forEachStatement false name source bodyCode) hq) hsize
  have hss := part (q := source) (by simp)
  have hbs := part (q := bodyCode) (by simp)
  obtain ⟨b, rfl⟩ : ∃ c, b = c + 1 := ⟨b - 1, by omega⟩
  have hident : name.kind = .identifier := by simpa using List.find?_some hname
  have htext : n.nameOrEmpty = name.text := by simp [Node.nameOrEmpty, Node.name?, hname]
  rw [htext] at hopen
  beta_reduce
  rw [exec_forEachStatement b _ source bodyCode hident, Residual.statement, if_pos hg]
  simp only [hk, childOf, hs, pure_bind, htext]
  refine .bind (denotes_evaluate hd L b (by omega)) ?_
  rintro v _ ⟨rfl, -⟩
  refine .steady (steady_itemsOf v) fun items hi => ?_
  split
  · next body' hb' =>
    cases Option.some.inj (hb.symm.trans hb')
    refine .forEachItem items hi fun item hitem => ?_
    refine .nestedBoth fun f g => ?_
    have once := hbody (.both f g :: L) b place ha (by omega)
    exact .leave _ (.bind (.defineBoth hopen hitem) fun _ _ _ => once)
  · next hb' => cases hb.symm.trans hb'

/-! ## Blocks built by closures -/

theorem eval_closureCall (b : Nat) (env : Scoping) (body : List Node) :
    eval own (b + 3) env (closureCall body) = (do
      let _ ← newClosure
      let inner ← nestedIn env
      inNestedScope own (exec own (b + 1) inner (.block body) >>= Flow.value)) := by
  have hnodes : (closureCall body).nodes = [.parenthesized (.thunk (.block body))] :=
    Node.nodes_invocation ..
  have hkind : (closureCall body).kind = .invocation := rfl
  have hclosure : eval own (b + 2) env (.parenthesized (.thunk (.block body))) =
      (newClosure >>= fun id => pure (.closure id ⟨[], .block body, env⟩)) := by
    rw [eval]
    change eval own (b + 1) env (.thunk (.block body)) = _
    rw [eval]
    rfl
  rw [eval]
  simp only [hkind, childOf, Node.node?, hnodes, List.getElem?_cons_zero, List.tail_cons, pure_bind,
    List.mapM_nil]
  rw [if_neg (by simp [Node.parenthesized]), hclosure, bind_assoc]
  refine congrArg _ (funext fun id => ?_)
  rw [pure_bind]
  simp only [call]
  rfl

theorem Follows.newClosure {α β : Type} {L L' : List Layer} {R : α → β → Prop} {k : Nat → Run α}
    {g : Run β} (h : ∀ id, Follows own L L' R (k id) g) :
    Follows own L L' R (newClosure >>= k) g :=
  fun m m' hm => h m.closures { m with closures := m.closures + 1 } m'
    ⟨⟨hm.alike.lists, hm.alike.identities, hm.alike.contexts, hm.alike.active, hm.alike.plain,
      hm.alike.owned⟩, hm.layered.congr (fun _ _ => rfl) fun _ _ => rfl⟩

theorem denotes_statementList :
    Denotes own (construct "StatementList" []) (fun v place => v = .list place)
      fun _ => newPlace #[] := by
  refine (denotes_methodCall (x := ([] : List Unit)) (d := fun _ _ => pure ())
    (R := fun _ _ => True) (k := fun _ => newPlace #[]) (by decide) ofName?_syntax .nil
    fun L vs _ _ => ?_).of_eq fun _ => rfl
  have made : Follows own L L (fun v place => v = .list place)
      (newPlace #[] >>= fun place => pure (Value.list place)) (newPlace #[] >>= pure) :=
    .steady (steady_newPlace (by simp)) fun _ _ => .pure rfl
  rw [bind_pure] at made
  exact made

theorem follows_openAccumulator {α β : Type} {L L' : List Layer} {f b : Nat}
    {R : α → β → Prop} {k : Flow → Run α} {k' : Nat → Run β} (hr : Reserved.isReserved acc)
    (hb : (openAccumulator acc).size ≤ b)
    (h : ∀ place, Follows own (.left f [(acc, .list place)] :: L) L' R (k .ongoing) (k' place)) :
    Follows own (.left f [] :: L) L' R
      (exec own b (f :: lefts L) (openAccumulator acc) >>= k) (newPlace #[] >>= k') := by
  have hdeclarator : (Node.declarator (.ofName acc) (some (construct "StatementList" []))).size <
      (openAccumulator acc).size :=
    Node.size_lt_of_mem (by simp [openAccumulator, Node.localDeclaration])
  have hvalue : (construct "StatementList" []).size <
      (Node.declarator (.ofName acc) (some (construct "StatementList" []))).size :=
    Node.size_lt_of_mem (by simp [Node.declarator])
  obtain ⟨b, rfl⟩ : ∃ c, b = c + 1 := ⟨b - 1, by omega⟩
  rw [openAccumulator, exec_localDeclaration, bind_assoc]
  refine .bind (denotes_statementList (.left f [] :: L) b (by omega)) ?_
  rintro _ place rfl
  simp only [bind_assoc, pure_bind]
  exact .defineLeft hr (h place)

/-- A block of the generator that opens an accumulator, runs statements and returns a value made of
what they added. -/
theorem follows_accumulating {n : Node} {inner : String} {qs : List Node} {result : Node}
    {α : Type} {R : Value → α → Prop} {k : Nat → Run α} (hr : Reserved.isReserved inner)
    (h : PerformAll own inner store qs n.nodes)
    (hresult : ∀ L b place, accumulatorIn? L = some (inner, .list place) → result.size ≤ b →
      Follows own L L R (eval own b (lefts L) result) (k place))
    {L : List Layer} {b : Nat}
    (hb : (Node.block (openAccumulator inner :: qs ++
      [Node.returnStatement (some result)])).size ≤ b) :
    Follows own L L R
      (exec own b (lefts L)
        (.block (openAccumulator inner :: qs ++ [Node.returnStatement (some result)])) >>=
          Flow.value)
      (Residual.collected store own (rights L) n >>= k) := by
  have part {q : Node}
      (hq : q ∈ openAccumulator inner :: qs ++ [Node.returnStatement (some result)]) : q.size < b :=
    Nat.lt_of_lt_of_le (Node.size_lt_of_mem (n := .block _) (by simpa [Node.block] using hq)) hb
  have hopen := part (q := openAccumulator inner) (by simp)
  have hreturn := part (q := .returnStatement (some result)) (by simp)
  have hvalue : result.size < (Node.returnStatement (some result)).size :=
    Node.size_lt_of_mem (by simp [Node.returnStatement])
  have := result.size_pos
  obtain ⟨b, rfl⟩ : ∃ c, b = c + 2 := ⟨b - 2, by omega⟩
  rw [exec_block, Residual.collected, List.cons_append]
  simp only [bind_assoc, pure_bind, inOrder, residual_statements]
  refine .nestedLeft fun f => follows_openAccumulator hr (by omega) fun place => ?_
  refine .leave (.left f [(inner, .list place)]) ?_
  rw [inOrder_append, bind_assoc]
  refine .bind (h.follows (L := .left f [(inner, .list place)] :: L) rfl fun q hq => ?_) ?_
  · have := part (q := q) (by simp [hq])
    omega
  · rintro flow _ ⟨rfl, hflow⟩
    cases flow with
    | ongoing =>
      have value := hresult (.left f [(inner, .list place)] :: L) b place rfl (by omega)
      simp only [inOrder, exec_returnStatement, bind_assoc, pure_bind, Flow.value, discard_bind,
        bind_pure]
      exact value
    | returned v => exact (hflow v rfl).elim
    | broken => exact .fail _
    | continued => exact .fail _

theorem follows_accumulator {L : List Layer} {b place : Nat} (hr : Reserved.isReserved acc)
    (ha : accumulatorIn? L = some (acc, .list place)) (hb : 0 < b) :
    Follows own L L (fun v place => v = .list place) (eval own b (lefts L) (.identifier acc))
      (pure place) := by
  intro m m' hm
  obtain ⟨b, rfl⟩ : ∃ c, b = c + 1 := ⟨b - 1, by omega⟩
  rw [eval_accumulator hm hr ha]
  exact ⟨rfl, hm⟩

/-- A closure gives the list of what its statements add. -/
theorem denotes_closureCall {n : Node} {qs : List Node} (hr : Reserved.isReserved acc)
    (h : PerformAll own acc store qs n.nodes) :
    Denotes own (closureCall (openAccumulator acc :: qs ++
        [Node.returnStatement (some (.identifier acc))])) (fun v place => v = .list place)
      fun env => inNestedScope own (Residual.collected store own env n) := by
  intro L b hsize
  obtain ⟨body, hbody⟩ : ∃ body, body = openAccumulator acc :: qs ++
    [Node.returnStatement (some (.identifier acc))] := ⟨_, rfl⟩
  rw [← hbody] at hsize ⊢
  have hparens : (Node.parenthesized (.thunk (.block body))).size < (closureCall body).size :=
    Node.size_lt_of_mem (by simp [closureCall])
  have hthunk : (Node.thunk (.block body)).size <
      (Node.parenthesized (.thunk (.block body))).size :=
    Node.size_lt_of_mem (by simp [Node.parenthesized])
  have hblock : (Node.block body).size < (Node.thunk (.block body)).size :=
    Node.size_lt_of_mem (by simp [Node.thunk])
  obtain ⟨b, rfl⟩ : ∃ c, b = c + 3 := ⟨b - 3, by omega⟩
  rw [eval_closureCall]
  refine Follows.newClosure fun _ => .nestedLeft fun f => .leave (.left f []) (.inNestedScope ?_)
  have accumulated := follows_accumulating (L := .left f [] :: L) (b := b + 1) (k := pure) hr h
    (fun L b place ha hb => follows_accumulator hr ha (Nat.lt_of_lt_of_le (Node.size_pos _) hb))
    (by rw [← hbody]; omega)
  rw [bind_pure, ← hbody] at accumulated
  exact accumulated

/-- The constructor of blocks on a list. -/
theorem follows_blockOf {L : List Layer} (place : Nat) :
    Follows own L L IsNode (callMethod (.builtin .nodes) "Block" [.list place])
      (constructNode .block [.list place] >>= Residual.numbered) := by
  have called : callMethod (.builtin .nodes) "Block" [.list place] =
      constructNode .block [.list place] >>= newNode := callNodes_name .block [.list place]
  rw [called]
  exact .steady (steady_reading _) fun n _ => follows_numbered n

theorem denotes_blockOf {q : Node} {d : Scoping → Run Nat}
    (h : Denotes own q (fun v place => v = .list place) d) :
    Denotes own (construct "Block" [q]) IsNode fun env => (do
      let place ← d env
      Residual.numbered (← constructNode .block [.list place])) := by
  refine denotes_call (by decide) ofName?_syntax h ?_
  rintro L _ place rfl
  exact follows_blockOf place

/-! ## Quoting follows the tree -/

variable {provided : Option (Nat × CallForm)}

/-- How the quoter treats a part of generated code. -/
def quotePart (store : FactStore) (provided : Option (Nat × CallForm)) (callee : Bool)
    (n : Node) : Quoter Node :=
  if n.kind.isStatement then embedded store provided n
  else if callee then quoteCallee store provided n
  else quote store provided n

/-- The quoter makes code that gives what the direct run generates for the node. -/
def QuotesCode (own : Nat) (store : FactStore) (acc : String) (callee : Bool) (n : Node)
    (act : Quoter Node) : Prop :=
  Quotes acc (fun q => Denotes own q IsNode fun env => Residual.code store own env callee n) act

theorem quotes_structural {n : Node}
    (h : ∀ m ∈ n.nodes, ∀ callee, QuotesCode own store acc callee m
      (quotePart store provided callee m)) :
    Quotes acc (fun q => Denotes own q IsNode fun env => Residual.rebuilt store own env n)
      (structural store provided n) := by
  rw [structural]
  simp only [Residual.rebuilt]
  refine .bind (.mapM _ ?_) fun qs hqs => .pure (denotes_construct n.kind hqs)
  rintro ⟨⟨c, hc⟩, index⟩ -
  cases c with
  | token t => exact .pure (evaluates_quoteToken t).denotes
  | node m =>
    have part := h m (Node.mem_nodes.2 hc) (index = 0 && n.kind = .invocation)
    exact part.mono fun q hq => hq.child

theorem lift_keeps (n : Node) (s : State) :
    ((lift store n).run s).2.frame = s.frame ∧ ((lift store n).run s).2.outer = s.outer := by
  unfold lift
  split
  · exact ⟨rfl, rfl⟩
  · exact ⟨rfl, rfl⟩
  · split <;> exact ⟨rfl, rfl⟩

theorem quotes_quote {n : Node} (hn : AllFit store n) (hs : n.kind.isStatement = false)
    (h : Quotes acc (fun q => Denotes own q IsNode fun env => Residual.rebuilt store own env n)
      (structural store provided n)) :
    QuotesCode own store acc false n (quote store provided n) := by
  unfold QuotesCode
  rw [quote]
  simp only [Residual.code, hs, Bool.false_eq_true, if_false]
  split
  · exact .pure (denotes_splice hn.isDirect)
  · cases he : n.kind.isExpression with
    | false =>
      have hl : Residual.isLifted false n = false := by simp [Residual.isLifted, he]
      simpa only [hl, Bool.not_false, if_true, Bool.false_eq_true, if_false] using h
    | true =>
      simp only [Bool.not_true, hn.here.wrapped, Option.isSome_none, Bool.false_eq_true, if_false]
      by_cases hg : (n.stage? = some .generationTime && n.kind ≠ .literal) = true
      · have hl : Residual.isLifted false n = true := by simpa [Residual.isLifted, he] using hg
        simp only [hg, hl, if_true]
        exact fun s _ => ⟨denotes_lift store hn.isDirect s, lift_keeps n s⟩
      · have hl : Residual.isLifted false n = false := by simpa [Residual.isLifted, he] using hg
        simp only [hg, hl, Bool.false_eq_true, if_false]
        split
        · exact .heldOr (store.symbol? n) h
        · exact h

theorem quotes_quoteCallee {n : Node} (hn : AllFit store n) (hs : n.kind.isStatement = false)
    (h : Quotes acc (fun q => Denotes own q IsNode fun env => Residual.rebuilt store own env n)
      (structural store provided n)) :
    QuotesCode own store acc true n (quoteCallee store provided n) := by
  rw [quoteCallee]
  split
  · next hm =>
    obtain ⟨hk, hsplice⟩ : (n.kind = .memberAccess ∨ n.kind = .identifier) ∧
        n.hasMark .splice = false := by simpa using hm
    have hl : Residual.isLifted true n = false := by
      rcases hk with hk | hk <;> simp [Residual.isLifted, hk]
    simpa only [QuotesCode, Residual.code, hs, hsplice, hl, Bool.false_eq_true, if_false] using h
  · next hm =>
    have same (env : Scoping) :
        Residual.code store own env true n = Residual.code store own env false n := by
      simp only [Residual.code, hs, Bool.false_eq_true, if_false]
      cases hsplice : n.hasMark .splice with
      | true => rfl
      | false =>
        have hk : ¬(n.kind = .memberAccess ∨ n.kind = .identifier) := by simpa [hsplice] using hm
        have hl : Residual.isLifted true n = Residual.isLifted false n := by
          simp [Residual.isLifted, not_or.1 hk]
        rw [hl]
    unfold QuotesCode
    simp only [same]
    exact quotes_quote hn hs h

theorem quotes_append {n : Node} {act : Quoter Node} (hr : Reserved.isReserved acc)
    (hs : n.stage? ≠ some .generationTime) (h : QuotesCode own store acc false n act) :
    Quotes acc (fun q => Performs own acc q fun place env =>
      Residual.statement store own place env n) (act >>= append) := by
  refine .bind h fun q hq => .bind .accumulator ?_
  rintro _ rfl
  refine .pure ?_
  have same (place : Nat) (env : Scoping) : Residual.statement store own place env n = (do
      appendTo place [.node (← Residual.code store own env false n)]
      return .ongoing) := by
    rw [Residual.statement, if_neg hs]
  simp only [same]
  exact performs_append hr hq

/-- The code of a generated block with generation-time statements runs them in a closure. -/
theorem quotes_closure {n : Node} (hk : n.kind = .block) (hh : n.nodes.any isHostLevel)
    (h : ∀ inner, Reserved.isReserved inner →
      Quotes inner (fun qs => PerformAll own inner store qs n.nodes)
        (hostStatements store provided n)) (callee : Bool) :
    QuotesCode own store acc callee n (do
      return construct "Block" [← nested do closure (← hostStatements store provided n)]) := by
  have collected (env : Scoping) : Residual.code store own env callee n = (do
      let place ← inNestedScope own (Residual.collected store own env n)
      Residual.numbered (← constructNode .block [.list place])) := by
    have hs : n.kind.isStatement = true := by rw [hk]; rfl
    rw [Residual.code, if_pos hs, if_pos (by simp [hk, hh])]
  unfold QuotesCode
  simp only [collected]
  have closed : Quotes acc (fun q => Denotes own q (fun v place => v = .list place)
      fun env => inNestedScope own (Residual.collected store own env n))
      (nested do closure (← hostStatements store provided n)) := by
    refine .nested fun inner hr => .bind (h inner hr) fun qs hqs => .bind .accumulator ?_
    rintro _ rfl
    exact .pure (denotes_closureCall hr hqs)
  exact .bind closed fun q hq => .pure (denotes_blockOf hq)

/-! ## The simulation -/

/-- What the quoter makes of a node does what the direct run does with it: as a part of generated
code, as a statement, and as the statements of a block. -/
structure Simulated (own : Nat) (store : FactStore) (provided : Option (Nat × CallForm))
    (n : Node) : Prop where
  code : (n.kind.isStatement → n.kind = .block ∨ isHostLevel n = false) → ∀ acc callee,
    QuotesCode own store acc callee n (quotePart store provided callee n)
  statement : n.kind.isStatement → n.kind ≠ .block → ∀ acc, Reserved.isReserved acc →
    Quotes acc (fun qs => ∃ q, qs = [q] ∧ Performs own acc q fun place env =>
      Residual.statement store own place env n) (hostStatement store provided n)
  block : n.kind = .block → ∀ acc, Reserved.isReserved acc →
    Quotes acc (fun qs => PerformAll own acc store qs n.nodes) (hostStatements store provided n)

/-- The parts of a node are simulated. -/
def PartsSimulated (own : Nat) (store : FactStore) (provided : Option (Nat × CallForm))
    (n : Node) : Prop :=
  ∀ m : Node, m.size < n.size → AllFit store m → Simulated own store provided m

/-- Each statement of the template becomes one statement of the generator. -/
theorem PerformAll.of_singletons {ns : List Node} {qss : List (List Node)}
    {xs : List { m // m ∈ ns }} (h : List.Forall₂ (fun qs x => ∃ q, qs = [q] ∧ Performs own acc q fun place env =>
      Residual.statement store own place env x.1) qss xs) :
    PerformAll own acc store qss.flatten (xs.map Subtype.val) := by
  induction h with
  | nil => exact .nil
  | cons hq _ ih =>
    obtain ⟨q, rfl, hq⟩ := hq
    exact .cons hq ih

theorem quotes_hostStatements {n : Node} (hn : AllFit store n)
    (ih : PartsSimulated own store provided n) (hk : n.kind = .block)
    (hr : Reserved.isReserved acc) :
    Quotes acc (fun qs => PerformAll own acc store qs n.nodes)
      (hostStatements store provided n) := by
  have each (x : { m // m ∈ n.nodes }) : Quotes acc (fun qs => ∃ q, qs = [q] ∧
      Performs own acc q fun place env => Residual.statement store own place env x.1)
      (hostStatement store provided x.1) := by
    obtain ⟨hs, hb⟩ := hn.here.block hk x.1 x.2
    exact (ih x.1 (Node.size_lt_of_mem x.2) (hn.child x.2)).statement hs hb acc hr
  rw [hostStatements]
  refine .bind (.mapM n.nodes.attach fun x _ => each x) fun qss hqss => .pure ?_
  have all := PerformAll.of_singletons hqss
  rwa [List.attach_map_subtype_val] at all

theorem quotes_hostBlock {n : Node} (hk : n.kind = .block) (hr : Reserved.isReserved acc)
    (h : Simulated own store provided n) :
    Quotes acc (fun q => Performs own acc q (running own store n) ∧ q.kind = .block)
      (hostBlock store provided n) := by
  rw [hostBlock, if_pos hk]
  exact .bind (h.block hk acc hr) fun qs hqs => .pure ⟨performs_block hqs, rfl⟩

theorem quotes_hostIf {n : Node} (hn : AllFit store n) (ih : PartsSimulated own store provided n)
    (hk : n.kind = .ifStatement) (hg : n.stage? = some .generationTime)
    (hr : Reserved.isReserved acc) :
    Quotes acc (fun q => Performs own acc q fun place env =>
      Residual.statement store own place env n) (hostIf store provided n) := by
  obtain ⟨condition, thenBranch, rest, hnodes, hexpr, hthen, hrest⟩ := hn.here.conditional hk
  have hc : n.node? 0 = some condition := by simp [Node.node?, hnodes]
  have ht : n.node? 1 = some thenBranch := by simp [Node.node?, hnodes]
  have hce : condition.kind ≠ .elseClause := by
    intro h
    simp [h, NodeKind.isExpression] at hexpr
  have hcm := Node.mem_of_node? hc
  have htm := Node.mem_of_node? ht
  have hd := (hn.child hcm).isDirect
  have branch {m : Node} (hsize : m.size < n.size) (hm : AllFit store m) (hb : m.kind = .block) :=
    quotes_hostBlock hb hr (ih m hsize hm)
  rw [hostIf]
  split
  · next c t hc' ht' =>
    cases Option.some.inj (hc.symm.trans hc')
    cases Option.some.inj (ht.symm.trans ht')
    refine .bind (branch (Node.size_lt_of_mem htm) (hn.child htm) hthen) fun thenCode hq => ?_
    have hte : thenCode.kind ≠ .elseClause := by simp [hq.2]
    rcases hrest with rfl | ⟨clause, other, rfl, hclause, hother, hob⟩
    · have hnone : n.nodeOfKind? .elseClause = none := by
        simp [Node.nodeOfKind?, hnodes, hce, hthen]
      split
      · next found hf => cases hnone.symm.trans hf
      · refine .pure (performs_if hk hg hc hd hce ht hq.1 hte (.inl ⟨rfl, ?_⟩))
        simp [Residual.branch?, hnone]
    · have hsome : n.nodeOfKind? .elseClause = some clause := by
        simp [Node.nodeOfKind?, hnodes, hce, hthen, hclause]
      have ho : clause.node? 0 = some other := by simp [Node.node?, hother]
      have hcm := Node.mem_of_nodeOfKind? hsome
      have hom := Node.mem_of_node? ho
      have hsize : other.size < n.size :=
        Nat.lt_trans (Node.size_lt_of_mem hom) (Node.size_lt_of_mem hcm)
      split
      · next found hf =>
        cases Option.some.inj (hsome.symm.trans hf)
        split
        · next found hf =>
          cases Option.some.inj (ho.symm.trans hf)
          refine .bind (branch hsize ((hn.child hcm).child hom) hob) fun elseCode he => .pure ?_
          refine performs_if hk hg hc hd hce ht hq.1 hte (.inr ⟨elseCode, other, rfl, ?_, he.1⟩)
          simp [Residual.branch?, hsome, ho]
        · next hf => cases ho.symm.trans hf
      · next hf => cases hsome.symm.trans hf
  · next no => exact (no _ _ hc ht).elim

theorem quotes_hostForEach {n : Node} (hn : AllFit store n)
    (ih : PartsSimulated own store provided n) (hk : n.kind = .forEachStatement)
    (hg : n.stage? = some .generationTime) (hr : Reserved.isReserved acc) :
    Quotes acc (fun q => Performs own acc q fun place env =>
      Residual.statement store own place env n) (hostForEach store provided n) := by
  obtain ⟨-, hopen, hname, source, body, hnodes, hbody⟩ := hn.here.loop hk
  obtain ⟨name, hname⟩ := Option.isSome_iff_exists.1 hname
  have hs : n.node? 0 = some source := by simp [Node.node?, hnodes]
  have hb : n.node? 1 = some body := by simp [Node.node?, hnodes]
  have hm := Node.mem_of_node? hb
  rw [hostForEach]
  split
  · next name' source' body' hname' hs' hb' =>
    cases Option.some.inj (hname.symm.trans hname')
    cases Option.some.inj (hs.symm.trans hs')
    cases Option.some.inj (hb.symm.trans hb')
    have inner := ih body (Node.size_lt_of_mem hm) (hn.child hm)
    refine .bind (quotes_hostBlock hbody hr inner) fun bodyCode hq => .pure ?_
    exact performs_forEach hk hg hname hopen hs (hn.child (Node.mem_of_node? hs)).isDirect hb hq.1
  · next no => exact (no _ _ _ hname hs hb).elim

theorem quotes_hostStatement {n : Node} (hn : AllFit store n)
    (ih : PartsSimulated own store provided n) (hs : n.kind.isStatement) (hb : n.kind ≠ .block)
    (hr : Reserved.isReserved acc)
    (hcode : isHostLevel n = false → QuotesCode own store acc false n (embedded store provided n)) :
    Quotes acc (fun qs => ∃ q, qs = [q] ∧ Performs own acc q fun place env =>
      Residual.statement store own place env n) (hostStatement store provided n) := by
  rw [hostStatement]
  split
  · next hh =>
    -- a declaration is not in the fragment and its loops are of generation time
    have hg : n.stage? = some .generationTime := by
      rcases hn.here.statement hs with h | h | h | h | h | h
      all_goals first
        | exact absurd h hb
        | exact (hn.here.loop h).1
        | simpa [isHostLevel, h] using hh
    rw [hostLevel, if_pos hg]
    rcases hn.here.statement hs with h | h | h | h | h | h
    · exact absurd h hb
    · simp only [h]
      exact .pure ⟨n, rfl, performs_kept hn hg (.inl h)⟩
    · simp only [h]
      exact .bind (quotes_hostIf hn ih h hg hr) fun q hq => .pure ⟨q, rfl, hq⟩
    · simp only [h]
      exact .bind (quotes_hostForEach hn ih h hg hr) fun q hq => .pure ⟨q, rfl, hq⟩
    · simp only [h]
      exact .pure ⟨n, rfl, performs_kept hn hg (.inr (.inl h))⟩
    · simp only [h]
      exact .pure ⟨n, rfl, performs_kept hn hg (.inr (.inr h))⟩
  · next hh =>
    have hh : isHostLevel n = false := by simpa using hh
    have hg : n.stage? ≠ some .generationTime := by
      intro h
      simp [isHostLevel, h] at hh
    rw [← bind_assoc]
    exact .bind (quotes_append hr hg (hcode hh)) fun q hq => .pure ⟨q, rfl, hq⟩

/-- A statement that is rebuilt rather than run. -/
theorem quotes_rebuilt {n : Node} (hs : n.kind.isStatement)
    (hb : (n.kind = .block && n.nodes.any isHostLevel) = false) (hr : n.kind ≠ .returnStatement)
    (h : ∀ m ∈ n.nodes, ∀ callee, QuotesCode own store acc callee m
      (quotePart store provided callee m)) (callee : Bool) :
    QuotesCode own store acc callee n (quoteStatement store provided n) := by
  have same (env : Scoping) :
      Residual.code store own env callee n = Residual.rebuilt store own env n := by
    rw [Residual.code, if_pos hs, hb]
    rfl
  unfold QuotesCode
  simp only [same]
  rw [quoteStatement, if_pos hr]
  exact quotes_structural h

theorem quotes_embedded {n : Node} (hn : AllFit store n) (ih : PartsSimulated own store provided n)
    (hs : n.kind.isStatement) (hh : n.kind = .block ∨ isHostLevel n = false) (callee : Bool) :
    QuotesCode own store acc callee n (embedded store provided n) := by
  have hret : n.kind ≠ .returnStatement := by
    rcases hn.here.statement hs with h | h | h | h | h | h <;> rw [h] <;> nofun
  have part {m : Node} (hm : m ∈ n.nodes) := ih m (Node.size_lt_of_mem hm) (hn.child hm)
  rw [embedded]
  split
  · next hk =>
    split
    · next hany =>
      exact quotes_closure hk hany (fun inner hr => quotes_hostStatements hn ih hk hr) callee
    · next hany =>
      have hany : n.nodes.any isHostLevel = false := by simpa using hany
      refine quotes_rebuilt hs (by simp [hany]) hret (fun m hm callee => ?_) callee
      refine (part hm).code (fun _ => .inr ?_) acc callee
      simpa using List.any_eq_false.1 hany m hm
  · next hk =>
    have hlevel := hh.resolve_left hk
    rw [if_neg (by simp [hlevel])]
    refine quotes_rebuilt hs (by simp [hk]) hret (fun m hm callee => ?_) callee
    exact (part hm).code (fun hm' => .inl (hn.here.nested hk m hm hm')) acc callee

/-- Every node of the fragment is simulated. -/
theorem simulated (n : Node) (hn : AllFit store n) : Simulated own store provided n := by
  have ih : PartsSimulated own store provided n := fun m _ hm => simulated m hm
  refine ⟨fun h acc callee => ?_, fun hs hb acc hr => ?_, fun hk acc hr => ?_⟩
  · unfold quotePart
    cases hs : n.kind.isStatement with
    | true => exact quotes_embedded hn ih hs (h hs) callee
    | false =>
      have hb : n.kind ≠ .block := by
        intro h
        simp [h, NodeKind.isStatement] at hs
      have parts : Quotes acc (fun q => Denotes own q IsNode fun env =>
          Residual.rebuilt store own env n) (structural store provided n) :=
        quotes_structural fun m hm callee => (ih m (Node.size_lt_of_mem hm) (hn.child hm)).code
          (fun hm' => .inl (hn.here.nested hb m hm hm')) acc callee
      cases callee with
      | true => exact quotes_quoteCallee hn hs parts
      | false => exact quotes_quote hn hs parts
  · exact quotes_hostStatement hn ih hs hb hr fun hh => quotes_embedded hn ih hs (.inr hh) false
  · exact quotes_hostStatements hn ih hk hr
termination_by n.size

end

end Stencil.Quotation
