import Stencil.Proofs.Expansion.Settling
import Stencil.Proofs.Staging.Runs
import Stencil.Proofs.Tree.Respelling

/-!
# Programs that run straight on

The only loops of a straight program go over the items of a list, and it makes a closure only to
call it at once. So it never runs the same code inside itself: the height of its tree bounds how
deep evaluation nests, and two runs with budgets of at least that height do the same. They do so as
well when one of them runs the program as it was spelled again.

Results:

* `settles_eval_plain`, `settles_exec_plain` – expressions and statements;
* `settling` – straight code settles.
-/
namespace Stencil.Expansion

/-- Code whose closures are called where they are made, and which loops over items alone. With
`fence`, no step changes what would be printed in parentheses. -/
inductive Straight (fence : Bool) : Node → Prop
  | plain {n : Node} (supported : Staging.isSupported n.kind) (rule : Rule n.kind n.outline)
    (stepped : fence = true → n.kind = .step → ∀ m ∈ n.nodes, m.kind.fencedOperand = false)
    (parts : ∀ m ∈ n.nodes, Straight fence m) : Straight fence n
  | called {n callee made body : Node} (kind : n.kind = .invocation) (nodes : n.nodes = [callee])
    (calleeKind : callee.kind = .parenthesized) (calleeNodes : callee.nodes = [made])
    (madeKind : made.kind = .lambda) (madeNodes : made.nodes = [body])
    (bodyKind : body.kind = .block) (straight : Straight fence body) : Straight fence n

namespace Straight

variable {fence : Bool} {n m : Node}

theorem child (h : Straight fence n) (hk : n.kind ≠ .invocation) (hm : m ∈ n.nodes) :
    Straight fence m := by
  cases h with
  | plain _ _ _ parts => exact parts m hm
  | called kind => exact absurd kind hk

theorem rule (h : Straight fence n) (hk : n.kind ≠ .invocation) : Rule n.kind n.outline := by
  cases h with
  | plain _ rule => exact rule
  | called kind => exact absurd kind hk

end Straight

/-- A `return` hands on a plain value. -/
def Flow.IsPlain (flow : Flow) : Prop := ∀ v, flow = .returned v → v.isPlain

theorem Flow.isPlain_ongoing : Flow.ongoing.IsPlain := nofun

theorem Flow.isPlain_broken : Flow.broken.IsPlain := nofun

theorem Flow.isPlain_continued : Flow.continued.IsPlain := nofun

theorem Flow.isPlain_returned {v : Value} (h : v.isPlain) : (Flow.returned v).IsPlain := by
  rintro _ ⟨⟩
  exact h

variable {own : Nat} {fence : Bool} {n n' : Node}

/-! ## Parts of nodes -/

section

variable {α : Type} {Q : α → Prop}

theorem settles_typed {β : Type} (e : Except TypeFault β) :
    Settles own (fun _ => True) (typed e) (typed e) :=
  .of_computes (computes_typed e) fun _ _ => trivial

theorem settles_binary (operator : TokenKind) (l r : Value) :
    Settles own (fun v => v.isPlain) (binary operator l r) (binary operator l r) :=
  .of_steady (steady_binary operator l r) (.of_computes (computes_binary operator l r))

theorem settles_newList {items : Array Value} (hi : ∀ v ∈ items, v.isPlain) :
    Settles own (fun v => v.isPlain) (newList items) (newList items) :=
  .of_steady (steady_newList hi) (calm_newList items)

theorem settles_itemsOf (v : Value) :
    Settles own (fun vs => ∀ v ∈ vs, v.isPlain) (itemsOf v) (itemsOf v) :=
  .of_steady (steady_itemsOf v) (calm_itemsOf v)

theorem settles_newClosure : Settles own (fun _ => True) newClosure newClosure :=
  fun _ hm => ⟨⟨trivial, hm.lists, hm.frames, hm.owned⟩, rfl⟩

/-- The same child is asked for. -/
theorem settles_childOf (h : Respells fence n n') (i : Nat) {k k' : Node → Run α}
    (hk : ∀ m m', n.node? i = some m → Respells.Part fence n.kind m m' → m' ∈ n'.nodes →
      Settles own Q (k m) (k' m')) :
    Settles own Q (childOf n i >>= k) (childOf n' i >>= k') := by
  unfold childOf
  rw [h.kind]
  rcases h.node? i with ⟨hm, hm'⟩ | ⟨m, m', hm, hm', part⟩
  · rw [hm, hm']
    exact .bind (P := fun _ => False) (.fail _) fun _ h => h.elim
  · rw [hm, hm']
    exact hk m m' hm part (Node.mem_of_node? hm')

/-- The same operator is asked for. -/
theorem settles_operatorOf (h : Respells fence n n') :
    Settles own (fun _ => True) (operatorOf n) (operatorOf n') := by
  have same : operatorOf n' = operatorOf n := by
    have ht := h.token?
    unfold operatorOf
    rw [h.kind]
    cases hn : n.token? <;> cases hn' : n'.token? <;> simp_all [Token.unplaced]
  rw [same]
  exact .of_computes (computes_operatorOf n) fun _ _ => trivial

/-- The same literal is read. -/
theorem literalValue_respells (h : Respells fence n n') : literalValue n' = literalValue n := by
  have ht := h.token?
  unfold literalValue
  cases hn : n.token? <;> cases hn' : n'.token? <;> simp_all [Token.unplaced]

end

/-! ## Statements one after another -/

section

variable {α : Type} {run run' : α → Run Flow}

theorem Settles.inOrder {xs ys : List α}
    (h : List.Forall₂ (fun x y => Settles own Flow.IsPlain (run x) (run' y)) xs ys) :
    Settles own Flow.IsPlain (Expansion.inOrder run xs) (Expansion.inOrder run' ys) := by
  induction h with
  | nil => exact .pure Flow.isPlain_ongoing
  | cons hx _ ih =>
    refine .bind hx fun flow hf => ?_
    cases flow with
    | ongoing => exact ih
    | _ => exact .pure hf

/-- A loop over items has as many turns as there are items. -/
theorem Settles.forEachItem {turn turn' : Value → Run Flow} (items : List Value)
    (hi : ∀ v ∈ items, v.isPlain)
    (h : ∀ v, v.isPlain → Settles own Flow.IsPlain (turn v) (turn' v)) :
    Settles own Flow.IsPlain (Expansion.forEachItem turn items)
      (Expansion.forEachItem turn' items) := by
  rw [forEachItem_eq, forEachItem_eq]
  have turns (v : Value) (hv : v ∈ items) := Settles.bind (h v (hi v hv)) fun flow hf =>
    .pure (P := Flow.IsPlain) (a := flow.afterTurn) (by simpa [Flow.IsPlain] using hf)
  exact .bind (.inOrder (List.forall₂_same.2 turns)) fun flow hf =>
    .pure (by simpa [Flow.IsPlain] using hf)

theorem settles_value {flow : Flow} (h : flow.IsPlain) :
    Settles own (fun v => v.isPlain) flow.value flow.value := by
  cases flow with
  | ongoing => exact .pure rfl
  | returned v => exact .pure (h v rfl)
  | broken => exact .fail _
  | continued => exact .fail _

end

/-! ## Expressions -/

/-- A child that is evaluated settles, in parentheses or not. -/
theorem settles_part {b b' : Nat} {kind : NodeKind} {m m' : Node} (env : Scoping)
    (hp : Respells.Part fence kind m m') (hb' : m'.height ≤ b')
    (ih : ∀ b' m', Respells fence m m' → m'.height ≤ b' →
      Settles own (fun v => v.isPlain) (eval own b env m) (eval own b' env m')) :
    Settles own (fun v => v.isPlain) (eval own b env m) (eval own b' env m') := by
  cases hp with
  | plain h => exact ih _ _ h hb'
  | @fenced inner _ _ _ outer inside h =>
    have inner_lt := Node.height_lt_of_mem (n := m') (m := inner) (by simp [inside])
    obtain ⟨b', rfl⟩ : ∃ k, b' = k + 1 := ⟨b' - 1, by omega⟩
    have opened : eval own (b' + 1) env m' = eval own b' env inner := by
      rw [eval, outer]
      simp [childOf, Node.node?, inside]
    rw [opened]
    exact ih _ _ h (by omega)

/-- A closure that is called where it is made runs its body in scopes of its own. -/
theorem eval_called {n callee made body : Node} (kind : n.kind = .invocation)
    (nodes : n.nodes = [callee]) (calleeKind : callee.kind = .parenthesized)
    (calleeNodes : callee.nodes = [made]) (madeKind : made.kind = .lambda)
    (madeNodes : made.nodes = [body]) (bodyKind : body.kind = .block) (b : Nat) (env : Scoping) :
    eval own (b + 3) env n = newClosure >>= fun _ => nestedIn env >>= fun inner =>
      inNestedScope own (exec own (b + 1) inner body >>= Flow.value) := by
  have closed : eval own (b + 2) env callee = closureOf env made := by
    rw [eval, calleeKind]
    simp only [childOf, Node.node?, calleeNodes, List.getElem?_cons_zero, pure_bind]
    rw [eval, madeKind]
  have made_eq : closureOf env made =
      newClosure >>= fun id => pure (.closure id ⟨[], body, env⟩) := by
    unfold closureOf
    simp [madeNodes, bodyKind, Option.filter]
  rw [eval, kind]
  simp only [childOf, Node.node?, nodes, List.getElem?_cons_zero, pure_bind, List.tail_cons,
    List.mapM_nil, calleeKind, reduceCtorEq, if_false, closed, made_eq, bind_assoc]
  congr 1
  funext id
  rw [call]
  simp only [List.length_nil, ne_eq, not_true, if_false, List.zip_nil_left, bodyKind, if_true]
  rfl

/-- A plain value cannot be called. -/
theorem settles_applied (b b' : Nat) (vs : List Value) {run run' : Run Value}
    (h : Settles own (fun v => v.isPlain) run run') :
    Settles own (fun v => v.isPlain)
      (run >>= fun
        | .closure _ c => call own b c vs
        | v => fail (.type (.notCallable v.typeName)))
      (run' >>= fun
        | .closure _ c => call own b' c vs
        | v => fail (.type (.notCallable v.typeName))) := by
  refine .bind h fun v hv => ?_
  cases v with
  | closure id c => cases hv
  | _ => exact .fail _

/-- Runs of the code and of a code that it is spelled again as settle, with budgets of at least
their heights. -/
def Settling (own : Nat) (fence : Bool) (n : Node) : Prop :=
  ∀ (n' : Node) (b b' : Nat) (env : Scoping), Respells fence n n' → n.height ≤ b → n'.height ≤ b' →
    Settles own (fun v => v.isPlain) (eval own b env n) (eval own b' env n') ∧
      (n.kind.isExpression = false →
        Settles own Flow.IsPlain (exec own b env n) (exec own b' env n'))

section

variable (supported : Staging.isSupported n.kind) (rule : Rule n.kind n.outline)
  (parts : ∀ m ∈ n.nodes, Straight fence m)
  (ih : ∀ m : Node, m.size < n.size → Straight fence m → Settling own fence m)

include supported rule parts ih

theorem settles_eval_plain
    (stepped : fence = true → n.kind = .step → ∀ m ∈ n.nodes, m.kind.fencedOperand = false)
    {b b' : Nat} (env : Scoping) (h : Respells fence n n')
    (hb : n.height ≤ b) (hb' : n'.height ≤ b') :
    Settles own (fun v => v.isPlain) (eval own b env n) (eval own b' env n') := by
  obtain ⟨b, rfl⟩ : ∃ k, b = k + 1 := ⟨b - 1, by have := n.height_pos; omega⟩
  obtain ⟨b', rfl⟩ : ∃ k, b' = k + 1 := ⟨b' - 1, by have := n'.height_pos; omega⟩
  have evaluated {m m' : Node} (hm : m ∈ n.nodes) (hp : Respells.Part fence n.kind m m')
      (hm' : m' ∈ n'.nodes) :
      Settles own (fun v => v.isPlain) (eval own b env m) (eval own b' env m') := by
    have := Node.height_lt_of_mem hm
    have := Node.height_lt_of_mem hm'
    refine settles_part env hp (by omega) fun b'' m'' hr hb'' => ?_
    exact (ih m (Node.size_lt_of_mem hm) (parts m hm) m'' b b'' env hr (by omega) hb'').1
  have evaluatedAll : List.Forall₂ (fun m m' =>
      Settles own (fun v => v.isPlain) (eval own b env m) (eval own b' env m')) n.nodes n'.nodes :=
    h.forall₂_nodes fun _ _ hm hm' hp => evaluated hm hp hm'
  have part (i : Nat) : Settles own (fun v => v.isPlain)
      (childOf n i >>= fun c => eval own b env c) (childOf n' i >>= fun c => eval own b' env c) :=
    settles_childOf h i fun m m' hm hp hm' => evaluated (Node.mem_of_node? hm) hp hm'
  have childAt {γ : Type} {Q : γ → Prop} (i : Nat) {k k' : Value → Run γ}
      (hk : ∀ v, v.isPlain → Settles own Q (k v) (k' v)) :
      Settles own Q (childOf n i >>= fun c => eval own b env c >>= k)
        (childOf n' i >>= fun c => eval own b' env c >>= k') :=
    settles_childOf h i fun m m' hm hp hm' => .bind (evaluated (Node.mem_of_node? hm) hp hm') hk
  have operator {γ : Type} {Q : γ → Prop} {k k' : TokenKind → Run γ}
      (hk : ∀ o, Settles own Q (k o) (k' o)) :
      Settles own Q (operatorOf n >>= k) (operatorOf n' >>= k') :=
    .bind (settles_operatorOf h) fun o _ => hk o
  rw [eval, eval, h.kind]
  cases hk : n.kind with
  | literal =>
    rw [literalValue_respells h]
    exact .of_computes (computes_literalValue n) fun _ => Value.isPlain_of_isScalar
  | identifier =>
    rw [h.nameOrEmpty]
    exact settles_valueNamed env _
  | parenthesized => exact part 0
  | binary =>
    refine operator fun o => childAt 0 fun l hl => ?_
    split
    · refine .bind (settles_typed _) fun chosen _ => ?_
      split
      · exact .pure rfl
      · exact childAt 1 fun v _ => .bind (settles_typed _) fun _ _ => .pure rfl
    · exact childAt 1 fun v _ => settles_binary _ _ _
  | unary =>
    refine childAt 0 fun v _ => operator fun o => ?_
    split
    · exact .bind (settles_typed _) fun _ _ => .pure rfl
    · exact .pure rfl
    · exact .pure rfl
    · exact .fail _
  | step =>
    refine settles_childOf h 0 fun target target' ht hp ht' => ?_
    have target_mem := Node.mem_of_node? ht
    have same := hp.respells fun hf _ => stepped hf hk target target_mem
    refine .bind (evaluated target_mem hp ht') fun old hold => operator fun o => ?_
    refine .bind (settles_binary _ old (.int 1)) fun v hv => ?_
    exact .bind (settles_assignTo env hv same.kind same.nameOrEmpty) fun _ _ => .pure hold
  | assignment =>
    refine settles_childOf h 0 fun target target' ht hp ht' => childAt 1 fun v hv => ?_
    have target_mem := Node.mem_of_node? ht
    have same := hp.respells fun _ ho => by
      rw [hk] at ho
      cases ho
    have assigned (w : Value) (hw : w.isPlain) : Settles own (fun v => v.isPlain)
        (assignTo env target w >>= fun _ => pure w) (assignTo env target' w >>= fun _ => pure w) :=
      .bind (settles_assignTo env hw same.kind same.nameOrEmpty) fun _ _ => .pure hw
    have combined (o : TokenKind) : Settles own (fun v => v.isPlain)
        (eval own b env target >>= fun old => binary o old v >>= fun w =>
          assignTo env target w >>= fun _ => pure w)
        (eval own b' env target' >>= fun old => binary o old v >>= fun w =>
          assignTo env target' w >>= fun _ => pure w) :=
      .bind (evaluated target_mem hp ht') fun old _ => .bind (settles_binary o old v) assigned
    refine operator fun o => ?_
    dsimp only
    split
    · exact combined .plus
    · exact combined .minus
    · exact assigned v hv
  | conditional =>
    refine childAt 0 fun v _ => .bind (settles_typed _) fun chosen _ => ?_
    split
    · exact part 1
    · exact part 2
  | invocation =>
    refine settles_childOf h 0 fun callee callee' hc hp hc' => ?_
    have callee_mem := Node.mem_of_node? hc
    have arguments : Settles own (fun vs => ∀ v ∈ vs, v.isPlain) (n.nodes.tail.mapM (eval own b env))
        (n'.nodes.tail.mapM (eval own b' env)) := by
      rw [← List.drop_one, ← List.drop_one]
      exact .mapM (List.forall₂_drop 1 evaluatedAll)
    refine .bind arguments fun vs hvs => ?_
    have computed := settles_applied b b' vs (evaluated callee_mem hp hc')
    cases hp with
    | fenced _ _ hfenced outer =>
      have here : callee.kind ≠ .memberAccess := by
        intro hkind
        rw [hkind] at hfenced
        cases hfenced
      rw [if_neg here, if_neg (by rw [outer]; decide)]
      exact computed
    | plain same =>
      rw [same.kind]
      split
      · next hm =>
        refine settles_childOf same 0 fun receiver receiver' hr hpr hr' => ?_
        have receiver_mem := Node.mem_of_node? hr
        have := Node.size_lt_of_mem callee_mem
        have := Node.size_lt_of_mem receiver_mem
        have := Node.height_lt_of_mem callee_mem
        have := Node.height_lt_of_mem receiver_mem
        have := Node.height_lt_of_mem hc'
        have := Node.height_lt_of_mem hr'
        have straight := (parts callee callee_mem).child (by rw [hm]; decide) receiver_mem
        have received : Settles own (fun v => v.isPlain) (eval own b env receiver)
            (eval own b' env receiver') :=
          settles_part env hpr (by omega) fun b'' m'' same hb'' =>
            (ih receiver (by omega) straight m'' b b'' env same (by omega) hb'').1
        refine .bind received fun v hv => ?_
        rw [same.nameOrEmpty]
        exact .of_steady (steady_callMethod hvs v _) (calm_callMethod _ _ _)
      · exact computed
  | memberAccess =>
    rw [h.nameOrEmpty]
    exact childAt 0 fun v _ => .of_steady (steady_memberOf v _) (calm_memberOf _ _)
  | elementAccess =>
    refine childAt 0 fun receiver hr => childAt 1 fun v _ => ?_
    refine .bind (settles_typed _) fun i _ => .bind (settles_itemsOf receiver) fun items hi => ?_
    exact .of_computes (computes_itemAt i items) hi
  | cast =>
    refine settles_childOf h 0 fun type type' ht hp _ => childAt 1 fun v hv => ?_
    have same := hp.respells fun _ _ => by
      rw [rule.typeName_of_cast hk ht]
      rfl
    rw [same.tokenText]
    exact .of_steady (steady_castTo _ hv) (.of_computes (computes_castTo _ v))
  | list => exact .bind (.mapM evaluatedAll) fun vs hvs => settles_newList (by simpa using hvs)
  | lambda => simp [hk, Staging.isSupported] at supported
  | query => simp [hk, Staging.isSupported] at supported
  | _ => exact .fail _

theorem settles_exec_plain {b b' : Nat} (env : Scoping) (h : Respells fence n n')
    (hb : n.height ≤ b) (hb' : n'.height ≤ b') (code : n.kind.isExpression = false) :
    Settles own Flow.IsPlain (exec own b env n) (exec own b' env n') := by
  obtain ⟨b, rfl⟩ : ∃ k, b = k + 1 := ⟨b - 1, by have := n.height_pos; omega⟩
  obtain ⟨b', rfl⟩ : ∃ k, b' = k + 1 := ⟨b' - 1, by have := n'.height_pos; omega⟩
  have bare : n.kind.hasOperand = false := NodeKind.hasOperand_eq_false code
  have notCall : n.kind ≠ .invocation := by
    intro hk
    rw [hk] at code
    cases code
  -- what stands in a statement is evaluated or run with one step less
  have evaluated {kind : NodeKind} {m m' : Node} (env : Scoping) (hs : Straight fence m)
      (hp : Respells.Part fence kind m m') (hsize : m.size < n.size) (hm : m.height ≤ b)
      (hm' : m'.height ≤ b') :
      Settles own (fun v => v.isPlain) (eval own b env m) (eval own b' env m') :=
    settles_part env hp hm' fun b'' m'' hr hb'' => (ih m hsize hs m'' b b'' env hr hm hb'').1
  have run {kind : NodeKind} {m m' : Node} (env : Scoping) (hs : Straight fence m)
      (hp : Respells.Part fence kind m m') (hsize : m.size < n.size) (hm : m.height ≤ b)
      (hm' : m'.height ≤ b') (ho : kind.hasOperand = false) (hcode : m.kind.isStatement) :
      Settles own Flow.IsPlain (exec own b env m) (exec own b' env m') := by
    have same := hp.respells fun _ h => by rw [ho] at h; cases h
    exact (ih m hsize hs m' b b' env same hm hm').2
      (NodeKind.isExpression_eq_false_of_isStatement hcode)
  have childAt {γ : Type} {Q : γ → Prop} (env : Scoping) (i : Nat) {k k' : Value → Run γ}
      (hk : ∀ v, v.isPlain → Settles own Q (k v) (k' v)) :
      Settles own Q (childOf n i >>= fun c => eval own b env c >>= k)
        (childOf n' i >>= fun c => eval own b' env c >>= k') := by
    refine settles_childOf h i fun m m' hm hp hm' => .bind ?_ hk
    have hm := Node.mem_of_node? hm
    have := Node.height_lt_of_mem hm
    have := Node.height_lt_of_mem hm'
    exact evaluated env (parts m hm) hp (Node.size_lt_of_mem hm) (by omega) (by omega)
  have body (env : Scoping) (hk : n.kind = .ifStatement ∨ n.kind = .forEachStatement) :
      Settles own Flow.IsPlain (childOf n 1 >>= fun c => exec own b env c)
        (childOf n' 1 >>= fun c => exec own b' env c) := by
    refine settles_childOf h 1 fun m m' hm hp hm' => ?_
    have statement := rule.body_isStatement (.inl ⟨hk, rfl⟩) hm
    have hm := Node.mem_of_node? hm
    have := Node.height_lt_of_mem hm
    have := Node.height_lt_of_mem hm'
    exact run env (parts m hm) hp (Node.size_lt_of_mem hm) (by omega) (by omega) bare statement
  have otherwise {c c' : Node} (hc : n.nodeOfKind? .elseClause = some c)
      (hc' : n'.nodeOfKind? .elseClause = some c') (same : Respells fence c c') :
      Settles own Flow.IsPlain (childOf c 0 >>= fun x => exec own b env x)
        (childOf c' 0 >>= fun x => exec own b' env x) := by
    have kind : c.kind = .elseClause := by simpa using List.find?_some hc
    have hc := Node.mem_of_nodeOfKind? hc
    have hc' := Node.mem_of_nodeOfKind? hc'
    have apart : c.kind ≠ .invocation := by rw [kind]; nofun
    refine settles_childOf same 0 fun m m' hm hp hm' => ?_
    have statement := ((parts c hc).rule apart).body_isStatement (.inr ⟨kind, rfl⟩) hm
    have hm := Node.mem_of_node? hm
    have := Node.size_lt_of_mem hc
    have := Node.size_lt_of_mem hm
    have := Node.height_lt_of_mem hc
    have := Node.height_lt_of_mem hm
    have := Node.height_lt_of_mem hc'
    have := Node.height_lt_of_mem hm'
    exact run env ((parts c hc).child apart hm) hp (by omega) (by omega) (by omega)
      (by rw [kind]; rfl) statement
  rw [exec, exec, h.kind]
  cases hk : n.kind with
  | block =>
    refine .bind (settles_nestedIn env) fun inner _ => .inOrder (h.forall₂_nodes ?_)
    intro m m' hm hm' hp
    have := Node.height_lt_of_mem hm
    have := Node.height_lt_of_mem hm'
    exact run inner (parts m hm) hp (Node.size_lt_of_mem hm) (by omega) (by omega) bare
      (rule.nodes_block hk m hm)
  | localDeclaration =>
    refine .bind (.forM (h.forall₂_nodes ?_)) fun _ _ => .pure Flow.isPlain_ongoing
    intro d d' hd hd' hp
    have kind := rule.nodes_localDeclaration hk d hd
    have same := hp.respells fun _ h => by rw [bare] at h; cases h
    rw [same.nameOrEmpty]
    rcases same.node? 0 with ⟨hm, hm'⟩ | ⟨m, m', hm, hm', hp⟩
    · rw [hm, hm']
      exact .bind (P := fun v => v.isPlain) (.pure rfl) fun v hv => settles_define env _ hv
    · rw [hm, hm']
      have hm := Node.mem_of_node? hm
      have straight := (parts d hd).child (by rw [kind]; nofun) hm
      have := Node.size_lt_of_mem hd
      have := Node.size_lt_of_mem hm
      have := Node.height_lt_of_mem hd
      have := Node.height_lt_of_mem hm
      have := Node.height_lt_of_mem hd'
      have := Node.height_lt_of_mem (Node.mem_of_node? hm')
      exact .bind (evaluated env straight hp (by omega) (by omega) (by omega)) fun v hv =>
        settles_define env _ hv
  | expressionStatement =>
    simp only [discard_bind]
    exact childAt env 0 fun _ _ => .pure Flow.isPlain_ongoing
  | emptyStatement => exact .pure Flow.isPlain_ongoing
  | ifStatement =>
    refine childAt env 0 fun v _ => .bind (settles_typed _) fun chosen _ => ?_
    split
    · exact body env (.inl hk)
    · rcases h.nodeOfKind? .elseClause rfl nofun with ⟨hc, hc'⟩ | ⟨c, c', hc, hc', same⟩
      · rw [hc, hc']
        exact .pure Flow.isPlain_ongoing
      · rw [hc, hc']
        exact otherwise hc hc' same
  | forEachStatement =>
    rw [h.hasAwait, h.nameOrEmpty]
    dsimp only
    split
    · exact .fail _
    · refine childAt env 0 fun v _ => .bind (settles_itemsOf v) fun items hi => ?_
      refine settles_childOf h 1 fun m m' hm hp hm' => .forEachItem items hi fun v hv => ?_
      refine .bind (settles_nestedIn env) fun inner _ => ?_
      refine .bind (settles_define inner _ hv) fun _ _ => ?_
      have statement := rule.body_isStatement (.inl ⟨.inr hk, rfl⟩) hm
      have hm := Node.mem_of_node? hm
      have := Node.height_lt_of_mem hm
      have := Node.height_lt_of_mem hm'
      exact run inner (parts m hm) hp (Node.size_lt_of_mem hm) (by omega) (by omega) bare statement
  | returnStatement =>
    rcases h.node? 0 with ⟨hm, hm'⟩ | ⟨m, m', hm, hm', hp⟩
    · rw [hm, hm']
      exact .pure (Flow.isPlain_returned rfl)
    · rw [hm, hm']
      have hm := Node.mem_of_node? hm
      have := Node.height_lt_of_mem hm
      have := Node.height_lt_of_mem (Node.mem_of_node? hm')
      exact .bind (evaluated env (parts m hm) hp (Node.size_lt_of_mem hm) (by omega) (by omega))
        fun w hw => .pure (Flow.isPlain_returned hw)
  | breakStatement => exact .pure Flow.isPlain_broken
  | continueStatement => exact .pure Flow.isPlain_continued
  | whileStatement | doStatement | forStatement => simp [hk, Staging.isSupported] at supported
  | _ =>
    rw [hk] at code
    first | exact .fail _ | cases code

end

/-- Straight code settles. -/
theorem settling {n : Node} (hs : Straight fence n) : Settling own fence n := by
  intro n' b b' env h hb hb'
  have ih : ∀ m : Node, m.size < n.size → Straight fence m → Settling own fence m :=
    fun m _ straight => settling straight
  cases hs with
  | plain supported rule stepped parts =>
    exact ⟨settles_eval_plain supported rule parts ih stepped env h hb hb',
      settles_exec_plain supported rule parts ih env h hb hb'⟩
  | @called _ callee made body kind nodes calleeKind calleeNodes madeKind madeNodes bodyKind straight =>
    refine ⟨?_, fun hk => by rw [kind] at hk; cases hk⟩
    obtain ⟨callee', nodes', calleeAgain⟩ := h.only nodes fun _ => by rw [calleeKind]; rfl
    obtain ⟨made', calleeNodes', madeAgain⟩ := calleeAgain.only calleeNodes fun hk => by
      rw [calleeKind] at hk; cases hk
    obtain ⟨body', madeNodes', again⟩ := madeAgain.only madeNodes fun hk => by
      rw [madeKind] at hk; cases hk
    have := Node.height_lt_of_mem (n := n) (m := callee) (by simp [nodes])
    have := Node.height_lt_of_mem (n := callee) (m := made) (by simp [calleeNodes])
    have := Node.height_lt_of_mem (n := made) (m := body) (by simp [madeNodes])
    have := Node.height_lt_of_mem (n := n') (m := callee') (by simp [nodes'])
    have := Node.height_lt_of_mem (n := callee') (m := made') (by simp [calleeNodes'])
    have := Node.height_lt_of_mem (n := made') (m := body') (by simp [madeNodes'])
    have := Node.size_lt_of_mem (n := n) (m := callee) (by simp [nodes])
    have := Node.size_lt_of_mem (n := callee) (m := made) (by simp [calleeNodes])
    have := Node.size_lt_of_mem (n := made) (m := body) (by simp [madeNodes])
    have := body.height_pos
    have := body'.height_pos
    obtain ⟨b, rfl⟩ : ∃ k, b = k + 3 := ⟨b - 3, by omega⟩
    obtain ⟨b', rfl⟩ : ∃ k, b' = k + 3 := ⟨b' - 3, by omega⟩
    rw [eval_called kind nodes calleeKind calleeNodes madeKind madeNodes bodyKind,
      eval_called (h.kind.trans kind) nodes' (calleeAgain.kind.trans calleeKind) calleeNodes'
        (madeAgain.kind.trans madeKind) madeNodes' (again.kind.trans bodyKind)]
    refine .bind settles_newClosure fun _ _ => .bind (settles_nestedIn env) fun inner _ => ?_
    refine settles_inNestedScope (.bind ?_ fun flow hflow => settles_value hflow)
    exact (ih body (by omega) straight body' (b + 1) (b' + 1) inner again (by omega) (by omega)).2
      (by rw [bodyKind]; rfl)
termination_by n.size

end Stencil.Expansion
