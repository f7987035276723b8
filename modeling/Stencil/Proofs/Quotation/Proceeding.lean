import Stencil.Proofs.Quotation.Suiting

/-!
# Generators gather suited code

The statements of a generator add suited code to the blocks under construction and keep the machine
sane. None of them returns: what a closure or the generator itself comes to is the result of its
last statement.

Results:

* `Proceeds.append`, `Proceeds.flatten` – statements one after another;
* `proceeds_kept`, `proceeds_addition`, `proceeds_naming` – each statement that a generator makes;
* `proceeds_if`, `proceeds_forEach` – the generator's own control flow;
* `yields_accumulating`, `gives_closure`, `gives_blockOf` – what is gathered by a whole body.
-/
namespace Stencil.Quotation

open Expansion

variable {own : Nat} {shape : ResultShape} {m : Machine}

/-- Wherever the statements run, they keep the machine sane, and none returns. -/
def Proceeds (own : Nat) (shape : ResultShape) (qs : List Node) : Prop :=
  ∀ b env m, Yields own shape m (inOrder (exec own b env) qs) GoesOn

theorem goesOn_ongoing {n : Machine} : GoesOn .ongoing n := by simp [GoesOn]

namespace Proceeds

theorem nil : Proceeds own shape [] := fun _ _ _ => .pure goesOn_ongoing

theorem append {qs qs' : List Node} (h : Proceeds own shape qs) (h' : Proceeds own shape qs') :
    Proceeds own shape (qs ++ qs') := by
  intro b env m
  rw [inOrder_append]
  refine .bind (h b env m) fun flow n _ hf => ?_
  cases flow with
  | ongoing => exact h' b env n
  | returned v => exact absurd rfl (hf v)
  | broken => exact .pure hf
  | continued => exact .pure hf

theorem flatten {qss : List (List Node)} (h : ∀ qs ∈ qss, Proceeds own shape qs) :
    Proceeds own shape qss.flatten := by
  induction qss with
  | nil => exact .nil
  | cons qs qss ih =>
    exact .append (h qs List.mem_cons_self) (ih fun q hq => h q (List.mem_cons_of_mem _ hq))

theorem of_one {q : Node} (h : ∀ b env m, Yields own shape m (exec own b env q) GoesOn) :
    Proceeds own shape [q] := by
  intro b env m
  refine .inOrder _ fun x hx n _ => ?_
  rw [List.mem_singleton.1 hx]
  exact h b env n

theorem of_each {qs : List Node} (h : ∀ q ∈ qs, Proceeds own shape [q]) :
    Proceeds own shape qs := by
  induction qs with
  | nil => exact .nil
  | cons q qs ih =>
    exact .append (h q List.mem_cons_self) (ih fun q' hq => h q' (List.mem_cons_of_mem _ hq))

end Proceeds

/-! ## Single statements -/

/-- Kinds of statements that the generator keeps as they are. -/
def isKept (k : NodeKind) : Bool :=
  [NodeKind.localDeclaration, .expressionStatement, .breakStatement, .continueStatement].contains k

theorem goesOn_exec {q : Node} (hk : isKept q.kind) {b : Nat} {env : Scoping} {flow : Flow}
    {n : Machine} (h : exec own b env q m = .ok flow n) : GoesOn flow n := by
  have ends {α : Type} {run : Run α} (h : (run >>= fun _ => pure Flow.ongoing) m = .ok flow n) :
      GoesOn flow n := by
    rw [run_bind] at h
    cases hr : run m with
    | error e k => rw [hr] at h; cases h
    | ok a k =>
      rw [hr] at h
      cases h
      exact goesOn_ongoing
  simp only [isKept, List.contains_iff_mem, List.mem_cons, List.not_mem_nil, or_false] at hk
  cases b with
  | zero =>
    rw [exec] at h
    cases h
  | succ b =>
    rw [exec] at h
    rcases hk with hk | hk | hk | hk
    · simp only [hk] at h
      exact ends h
    · simp only [hk] at h
      rw [← bind_assoc] at h
      exact ends h
    · simp only [hk] at h
      cases h
      simp [GoesOn]
    · simp only [hk] at h
      cases h
      simp [GoesOn]

/-- A statement of the template leaves the blocks under construction alone. -/
theorem proceeds_kept {q : Node} (hq : Modest q) (hk : isKept q.kind) : Proceeds own shape [q] := by
  refine .of_one fun b env m hm flow n hn => ?_
  obtain ⟨sane, later, -⟩ := Yields.of_after (fun h => after_exec b hq env h) hm flow n hn
  exact ⟨sane, later, goesOn_exec hk hn⟩

/-- Code for the block that is being built. -/
theorem proceeds_addition (a : Nat) {q : Node} (hq : Gives own shape q fun v _ => IsStep shape v) :
    Proceeds own shape [addition a q] := by
  refine .of_one fun b env m => ?_
  rcases b with _ | _ | b
  · rw [exec]
    exact .throw _
  · rw [addition, exec_expressionStatement, eval]
    exact .throw _
  · rw [addition, exec_expressionStatement, eval_methodCall]
    simp only [bind_assoc]
    refine .bind (GivesAll.one hq b env m) ?_
    rintro _ n - ⟨v, rfl, hv⟩
    refine .bind (gives_accumulator a b env n) ?_
    rintro _ k - ⟨p, rfl, hp⟩
    change Yields own shape k (appendTo p [v] >>= fun _ => pure Flow.ongoing) _
    exact .bind (yields_addTo hp hv) fun _ _ _ _ => .pure goesOn_ongoing

theorem proceeds_naming (e : String × Nat) : Proceeds own shape [naming e] := by
  refine .of_one fun b env m => ?_
  rcases b with _ | b
  · rw [exec]
    exact .throw _
  · rw [naming, exec_localDeclaration]
    refine .bind (gives_freshIdentifier e.1 b env m) ?_
    rintro _ n - ⟨x, rfl⟩
    exact .bind (yields_defineHolder e.1 e.2 rfl env) fun _ _ _ _ => .pure goesOn_ongoing

/-! ## Control flow of the generator -/

/-- A branch or loop body of the generator. -/
def ProceedsIn (own : Nat) (shape : ResultShape) (q : Node) : Prop :=
  ∃ qs, q = .block qs ∧ Proceeds own shape qs

theorem ProceedsIn.kind {q : Node} (h : ProceedsIn own shape q) : q.kind = .block := by
  obtain ⟨qs, rfl, -⟩ := h
  rfl

theorem ProceedsIn.yields {q : Node} (h : ProceedsIn own shape q) (b : Nat) (env : Scoping) :
    Yields own shape m (exec own b env q) GoesOn := by
  obtain ⟨qs, rfl, h⟩ := h
  cases b with
  | zero =>
    rw [exec]
    exact .throw _
  | succ b =>
    rw [exec_block]
    exact .bind (.of_after fun hm => after_nestedIn hm env) fun inner n _ _ => h b inner n

theorem proceeds_if {condition thenCode : Node} {elseCode : Option Node} (hc : Modest condition)
    (he : condition.kind ≠ .elseClause) (ht : ProceedsIn own shape thenCode)
    (helse : ∀ code, elseCode = some code → ProceedsIn own shape code) :
    Proceeds own shape [.ifStatement condition thenCode elseCode] := by
  refine .of_one fun b env m => ?_
  cases b with
  | zero =>
    rw [exec]
    exact .throw _
  | succ b =>
    rw [exec_ifStatement b _ _ elseCode he (by simp [ht.kind])]
    refine .bind (gives_kept hc b env m) fun v n _ _ => ?_
    refine .bind (yields_typed _) fun chosen n' _ _ => ?_
    cases chosen with
    | true => exact ht.yields b env
    | false =>
      cases elseCode with
      | none => exact .pure goesOn_ongoing
      | some code => exact (helse code rfl).yields b env

theorem proceeds_forEach {name : Token} {source body : Node} (hn : name.kind = .identifier)
    (ho : isOpenName name.text) (hs : Modest source) (hb : ProceedsIn own shape body) :
    Proceeds own shape [.forEachStatement false name source body] := by
  refine .of_one fun b env m => ?_
  cases b with
  | zero =>
    rw [exec]
    exact .throw _
  | succ b =>
    rw [exec_forEachStatement b _ source body hn]
    refine .bind (gives_kept hs b env m) fun v n _ hv => ?_
    refine .bind (.of_after fun hm => after_itemsOf hm hv) fun items n' _ hi => ?_
    refine .forEachItem items hi fun item k _ hitem => ?_
    refine .bind (.of_after fun hm => after_nestedIn hm env) fun inner k' hk _ => ?_
    refine .bind (.of_after fun hm => after_define hm ho (hitem.later hk) inner) ?_
    exact fun _ l _ _ => hb.yields b inner

/-! ## Bodies -/

/-- A block of the generator that opens an accumulator, runs statements and comes to its result. -/
theorem yields_accumulating (a : Nat) {qs : List Node} {result : Node}
    {Q : Value → Machine → Prop} (h : Proceeds own shape qs) (hr : Gives own shape result Q)
    (b : Nat) (env : Scoping) :
    Yields own shape m (exec own b env (.block (openAccumulator (accumulatorName a) :: qs ++
      [Node.returnStatement (some result)])) >>= Flow.value) Q := by
  rcases b with _ | b
  · rw [exec]
    exact .throw _
  rw [exec_block, List.cons_append]
  simp only [inOrder, bind_assoc]
  rw [bind_paired]
  refine .bind (yields_opening a b env) ?_
  rintro ⟨inner, flow⟩ n - rfl
  dsimp only
  rw [inOrder_append, bind_assoc]
  refine .bind (h b inner n) fun flow n' _ hf => ?_
  cases flow with
  | broken => exact .fail _
  | continued => exact .fail _
  | returned v => exact absurd rfl (hf v)
  | ongoing =>
    rcases b with _ | b
    · simp only [inOrder, bind_assoc]
      refine .bind (Q := fun _ _ => False) ?_ fun _ _ _ h => h.elim
      rw [exec]
      exact .throw _
    · simp only [inOrder, exec_returnStatement, bind_assoc, pure_bind, Flow.value, bind_pure]
      exact hr b inner n'

theorem gives_closureCall {body : List Node} {P : Value → Machine → Prop}
    (h : ∀ b env m, Yields own shape m
      (inNestedScope own (exec own b env (.block body) >>= Flow.value)) P) :
    Gives own shape (closureCall body) P := by
  intro b env m
  rcases b with _ | b
  · rw [eval]
    exact .throw _
  have hnodes : (closureCall body).nodes = [.parenthesized (.thunk (.block body))] :=
    Node.nodes_invocation ..
  have hkind : (closureCall body).kind = .invocation := rfl
  rw [eval]
  simp only [hkind, childOf, Node.node?, hnodes, List.getElem?_cons_zero, List.tail_cons, pure_bind,
    List.mapM_nil]
  rw [if_neg (by simp [Node.parenthesized])]
  refine .bind (.of_after fun hm => after_thunk hm b env (.block body) (by simp [Node.block])) ?_
  rintro _ n - ⟨id, rfl⟩
  rcases b with _ | b
  · change Yields own shape n (call own 0 _ _) P
    rw [call]
    exact .throw _
  · change Yields own shape n (call own (b + 1) _ _) P
    rw [call]
    change Yields own shape n (nestedIn env >>= fun inner =>
      inNestedScope own (exec own b inner (.block body) >>= Flow.value)) P
    exact .bind (.of_after fun hm => after_nestedIn hm env) fun inner n' _ _ => h b inner n'

/-- The value is the list of a block. -/
def IsBlockList (v : Value) (n : Machine) : Prop := ∃ p, v = .list p ∧ Held n p

theorem gives_closure (a : Nat) {qs : List Node} (h : Proceeds own shape qs) :
    Gives own shape (closureCall (openAccumulator (accumulatorName a) :: qs ++
      [Node.returnStatement (some (.identifier (accumulatorName a)))])) IsBlockList := by
  refine gives_closureCall fun b env m => yields_inNestedScope
    (fun k => yields_accumulating a h (gives_accumulator a) b env) ?_
  rintro _ n n' hf ⟨p, rfl, f, i, hv⟩
  exact ⟨p, rfl, f, i, by rwa [look, hf]⟩

/-! ## Blocks of what was gathered -/

theorem exists_steps {items : List Value} (h : ∀ v ∈ items, IsStep shape v) :
    ∃ cs : List (Child Node), items = cs.map valueOf ∧
      ∀ c ∈ cs, ∃ t, c = .node t ∧ t.kind.isStatement ∧ t.Suits shape.Permits := by
  induction items with
  | nil => exact ⟨[], rfl, by simp⟩
  | cons v items ih =>
    obtain ⟨⟨t, rfl, hk, ht⟩, hitems⟩ := List.forall_mem_cons.1 h
    obtain ⟨cs, rfl, hcs⟩ := ih hitems
    exact ⟨.node t :: cs, rfl, List.forall_mem_cons.2 ⟨⟨t, rfl, hk, ht⟩, hcs⟩⟩

/-- A block of the statements in a list under construction. -/
theorem yields_constructBlock {p : Nat} (hp : Held m p) :
    Yields own shape m (constructNode .block [.list p])
      fun t _ => t.kind = .block ∧ t.Suits shape.Permits := by
  refine .sane fun hm => .of_after fun tame => (after_constructBlock tame _).mono ?_
  rintro _ _ - ⟨-, cs, rfl, hcs⟩
  have inside := tame.lt_of_held hp
  have list := Array.getElem?_eq_getElem inside
  obtain ⟨ds, hds, hsuits⟩ := exists_steps fun v hv =>
    hm.blocks p m.lists[p] list hp v (Array.mem_toList_iff.1 hv)
  have found : m.lists[p]? = some (ds.map valueOf).toArray := by
    rw [list, ← hds, Array.toArray_toList]
  cases (toChildren_list found).symm.trans hcs
  exact ⟨rfl, Node.suits_blockOf hsuits⟩

theorem gives_blockOf {q : Node} (h : Gives own shape q IsBlockList) :
    Gives own shape (construct "Block" [q]) fun v _ => IsTree shape (· = .block) v := by
  refine gives_methodCall (by decide) ofName?_syntax (.one h) ?_
  rintro _ n ⟨_, rfl, p, rfl, hp⟩
  change Yields own shape n (callMethod (.builtin .nodes) NodeKind.block.name [.list p]) _
  rw [callMethod_construct]
  exact .bind (yields_constructBlock hp) fun t _ _ ht => yields_newNode ht.1 ht.2

theorem gives_syntheticBlockOf {q : Node} (h : Gives own shape q IsBlockList) :
    Gives own shape (construct "SyntheticBlock" [q]) fun v _ => IsTree shape (· = .block) v := by
  refine gives_methodCall (by decide) ofName?_syntax (.one h) ?_
  rintro _ n ⟨_, rfl, p, rfl, hp⟩
  change Yields own shape n (constructNode .block [.list p] >>= fun t =>
    newNode (t.mark .synthetic)) _
  refine .bind (yields_constructBlock hp) fun t _ _ ht => yields_newNode ?_ (ht.2.mark .synthetic)
  rw [Node.kind_mark, ht.1]

/-! ## Declarations -/

theorem IsTree.operandFor {k : NodeKind} {v : Value} (h : IsOperand shape v)
    (hk : k.isExpression) : IsPartFor shape (.node k) v :=
  h.isPartFor fun _ hk' => .inr (.inl ⟨hk, hk'⟩)

/-- The name that a holder has, as a part of a declaration. -/
theorem gives_name (e : String × Nat) : Gives own shape (.identifier (holderName e.1 e.2))
    fun v _ => IsPartFor shape (.token (.ofName "")) v :=
  (gives_holder e.1 e.2).mono fun _ _ hv => IsTokenOf.isPartFor hv

/-- A declarator under a made-up name. -/
theorem gives_declaring {e : (String × Nat) × List Node} (hl : e.2.length ≤ 1)
    (hv : ∀ q ∈ e.2, Gives own shape q fun v _ => IsOperand shape v) :
    Gives own shape (declaring e) fun v _ => IsTree shape (· = .declarator) v := by
  obtain ⟨e, qs⟩ := e
  cases qs with
  | nil =>
    have fills : Fills (places .declarator) [.token (.ofName "")] := .one rfl (.omitted .nil)
    exact gives_structural (by decide) _ fills (by decide) (.cons (gives_name e) .nil)
  | cons q qs =>
    obtain rfl : qs = [] := by simpa using hl
    have fills : Fills (places .declarator) [.token (.ofName ""), .node .literal] :=
      .one rfl (.given rfl .nil)
    refine gives_structural (by decide) _ fills (by decide) (.cons (gives_name e) (.cons ?_ .nil))
    exact (hv q List.mem_cons_self).mono fun _ _ h => h.operandFor rfl

theorem gives_declaration {es : List ((String × Nat) × List Node)} (hne : es ≠ [])
    (he : ∀ e ∈ es, Gives own shape (declaring e) fun v _ => IsTree shape (· = .declarator) v) :
    Gives own shape (construct NodeKind.localDeclaration.name (es.map declaring))
      fun v _ => IsStep shape v := by
  have fills : Fills (places .localDeclaration)
      (es.map fun _ => (.node .declarator : Child NodeKind)) := by
    cases es with
    | nil => exact absurd rfl hne
    | cons e es =>
      exact .one rfl (fills_many.2 ⟨_, [], (List.append_nil _).symm, by simp [Slot.admits], .nil⟩)
  have parts : List.Forall₂ (fun d q => Gives own shape q fun v _ => IsPartFor shape d v)
      (es.map fun _ => (.node .declarator : Child NodeKind)) (es.map declaring) := by
    rw [List.forall₂_map_left_iff, List.forall₂_map_right_iff, List.forall₂_same]
    exact fun e hmem => (he e hmem).mono fun _ _ hv => hv.isPartFor fun _ hk => .inl hk
  exact (gives_structural (by decide) _ fills (by decide) parts).mono
    fun _ _ hv => hv.mono fun k hk => by rw [hk]; rfl

/-- A loop over a variable whose name was made up for it. -/
theorem gives_loop (e : String × Nat) {ks : List NodeKind} {parts : List Node}
    (hf : Fills [.one .expression, .one .statement] (ks.map .node))
    (hp : List.Forall₂ (fun k q => Gives own shape q fun v _ => IsPartFor shape (.node k) v) ks
      parts) :
    Gives own shape (construct NodeKind.forEachStatement.name
      (.identifier (holderName e.1 e.2) :: parts)) fun v _ => IsStep shape v := by
  have fills : Fills (places .forEachStatement)
      (.token (.ofName "") :: ks.map (.node : NodeKind → Child NodeKind)) :=
    .omitted (.one rfl hf)
  have made := gives_structural (by decide) _ fills (by decide)
    (.cons (gives_name e) (List.forall₂_map_left_iff.2 hp))
  exact made.mono fun _ _ hv => hv.mono fun k hk => by rw [hk]; rfl

/-- The names of generated locals are made up, then code that declares them is added. -/
theorem proceeds_named (es : List (String × Nat)) (a : Nat) {q : Node}
    (hq : Gives own shape q fun v _ => IsStep shape v) :
    Proceeds own shape (es.map naming ++ [addition a q]) :=
  .append (.of_each (List.forall_mem_map.2 fun e _ => proceeds_naming e)) (proceeds_addition a hq)

end Stencil.Quotation
