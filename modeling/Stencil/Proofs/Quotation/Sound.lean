import Stencil.Proofs.Quotation.Proceeding
import Stencil.Proofs.Quotation.Unshadowed

/-!
# Generators build suited code

Whatever the template says, the quoter makes code that comes to a tree which may stand in the place
of what was quoted, and statements of the generator that add suited code. No `return` of a template
is rebuilt as it is: each is handed to the context, which lowers it for the target. So an expansion
is laid out, and its `return` statements are such as the target may have.

Results:

* `emits_parts`, `emits_part`, `emits_step` – the quoted children, parts and statements;
* `sound` – the quoter only makes suited code;
* `suits_expand` – expansions suit their targets.
-/
namespace Stencil.Quotation

open Expansion

/-! ## Templates -/

/-- Code of a template that is laid out, with marks where they may stand. -/
structure Placeable (n : Node) : Prop extends Quotable n where
  laid : n.Laid
  /-- only expressions are spliced -/
  spliced : ∀ m ∈ n.preorder, m.hasMark .splice → m.kind.isExpression
  /-- what leaves a method is generated -/
  staged : ∀ m ∈ n.preorder, m.stage? = some .generationTime →
    Staging.allows m.kind .generationTime

namespace Placeable

variable {n m : Node}

theorem child (h : Placeable n) (hm : m ∈ n.nodes) : Placeable m where
  toQuotable := h.toQuotable.child hm
  laid := h.laid.child hm
  spliced x hx := h.spliced x (Node.preorder_subset hm hx)
  staged x hx := h.staged x (Node.preorder_subset hm hx)

theorem isOpen (h : Placeable n) : ∀ p ∈ places n.kind, p.slot.isOpen := by
  have supported := h.modest.supported
  revert supported
  cases n.kind <;> decide

/-- A statement of generation time that is no control flow is kept as it is. -/
theorem isKept (h : Placeable n) (hs : n.kind.isStatement) (hg : n.stage? = some .generationTime)
    (hi : n.kind ≠ .ifStatement) (hf : n.kind ≠ .forEachStatement) : isKept n.kind := by
  have supported := h.modest.supported
  have staged := h.staged n n.mem_preorder_self hg
  revert supported staged hs hi hf
  cases n.kind <;> decide

end Placeable

/-! ## Quoted code -/

/-- What quoted code may be instead of a node of the kind. -/
def Replaces (k k' : NodeKind) : Prop := (Child.node k).StandsFor (.node k')

theorem Replaces.isStatement {k k' : NodeKind} (h : Replaces k k') (hk : k.isStatement) :
    k'.isStatement := by
  rcases h with rfl | ⟨he, -⟩ | ⟨-, -, h⟩
  · exact hk
  · rw [NodeKind.isExpression_eq_false_of_isStatement hk] at he
    cases he
  · exact h

theorem Replaces.isExpression {k k' : NodeKind} (h : Replaces k k') (hk : k.isExpression) :
    k'.isExpression := by
  rcases h with rfl | ⟨-, h⟩ | ⟨hs, -⟩
  · exact hk
  · exact h
  · rw [NodeKind.isExpression_eq_false_of_isStatement hs] at hk
    cases hk

variable {own a : Nat} {shape : ResultShape}

/-- The code comes to what may stand in the place of a child of the template. -/
def GivesPart (own : Nat) (shape : ResultShape) (c : Child Node) (q : Node) : Prop :=
  Gives own shape q fun v _ => IsPartFor shape c.outline v

theorem GivesPart.of_tree {K : NodeKind → Prop} {n q : Node}
    (h : Gives own shape q fun v _ => IsTree shape K v) (hK : ∀ k, K k → Replaces n.kind k) :
    GivesPart own shape (.node n) q :=
  h.mono fun _ _ hv => hv.isPartFor hK

theorem GivesPart.tree {n q : Node} (h : GivesPart own shape (.node n) q) :
    Gives own shape q fun v _ => IsTree shape (Replaces n.kind) v := by
  refine h.mono ?_
  rintro v _ ⟨c, rfl, hc, ht⟩
  cases c with
  | token t => exact hc.elim
  | node t => exact ⟨t, rfl, hc, ht t rfl⟩

theorem GivesPart.step {n q : Node} (h : GivesPart own shape (.node n) q)
    (hs : n.kind.isStatement) : Gives own shape q fun v _ => IsStep shape v :=
  h.tree.mono fun _ _ hv => hv.mono fun _ hk => hk.isStatement hs

theorem GivesPart.operand {n q : Node} (h : GivesPart own shape (.node n) q)
    (he : n.kind.isExpression) : Gives own shape q fun v _ => IsOperand shape v :=
  h.tree.mono fun _ _ hv => hv.mono fun _ hk => hk.isExpression he

theorem GivesPart.of_operand {n q : Node} (h : Gives own shape q fun v _ => IsOperand shape v)
    (he : n.kind.isExpression) : GivesPart own shape (.node n) q :=
  h.mono fun _ _ hv => hv.operandFor he

theorem GivesPart.of_step {n q : Node} (h : Gives own shape q fun v _ => IsStep shape v)
    (hs : n.kind.isStatement) (hb : n.kind ≠ .block) : GivesPart own shape (.node n) q :=
  .of_tree h fun _ hk => .inr (.inr ⟨hs, hb, hk⟩)

theorem GivesPart.of_same {n q : Node}
    (h : Gives own shape q fun v _ => IsTree shape (· = n.kind) v) :
    GivesPart own shape (.node n) q :=
  .of_tree h fun _ hk => .inl hk

section

variable {store : FactStore} {provided : Option (Nat × CallForm)} {n : Node}

/-- What the quoter makes of each of several things. -/
theorem Emits.each {α γ : Type} {P : γ → α → Prop} {f : γ → Quoter α} (xs : List γ)
    (h : ∀ x ∈ xs, Emits a (P x) (f x)) : Emits a (List.Forall₂ P xs) (xs.mapM f) := by
  induction xs with
  | nil => exact .pure .nil
  | cons x xs ih =>
    rw [List.mapM_cons]
    refine .bind (h x List.mem_cons_self) fun y hy => ?_
    exact .bind (ih fun x' hx => h x' (List.mem_cons_of_mem _ hx)) fun ys hys =>
      .pure (.cons hy hys)

/-- The arguments of a constructor call are the quoted children, in their places. -/
theorem emits_parts
    (h : ∀ m ∈ n.nodes, ∀ callee,
      Emits a (GivesPart own shape (.node m)) (quotePart store provided callee m)) :
    Emits a (fun q => ∃ qs, q = construct n.kind.name qs ∧
      List.Forall₂ (GivesPart own shape) n.children qs) (structural store provided n) := by
  rw [structural]
  refine .bind (Emits.each (P := fun e q => GivesPart own shape e.1.1 q) _ ?_)
    fun qs hqs => .pure ⟨qs, rfl, ?_⟩
  · rintro ⟨⟨c, hc⟩, index⟩ -
    cases c with
    | token t => exact .pure ((gives_quoteToken t).mono fun _ _ hv => hv.isPartFor)
    | node m => exact h m (Node.mem_nodes.2 hc) (index = 0 && n.kind = .invocation)
  · have children : n.children.attach.zipIdx.map (fun e => e.1.1) = n.children := by
      have firsts : (n.children.attach.zipIdx.map Prod.fst).map Subtype.val = n.children := by simp
      rwa [List.map_map] at firsts
    rwa [← children, List.forall₂_map_left_iff]

theorem emits_rebuilt (hn : Placeable n) (hr : n.kind ≠ .returnStatement)
    (h : ∀ m ∈ n.nodes, ∀ callee,
      Emits a (GivesPart own shape (.node m)) (quotePart store provided callee m)) :
    Emits a (GivesPart own shape (.node n)) (structural store provided n) := by
  refine (emits_parts h).mono ?_
  rintro _ ⟨qs, rfl, hqs⟩
  exact .of_same (gives_structural hr _ hn.laid.here hn.isOpen (List.forall₂_map_left_iff.2 hqs))

theorem emits_quoted (hn : Placeable n)
    (h : Emits a (GivesPart own shape (.node n)) (structural store provided n)) :
    Emits a (GivesPart own shape (.node n)) (quote store provided n) := by
  rw [quote]
  split
  · next hs => exact .pure (.of_operand (gives_splice hn.modest)
      (hn.spliced n n.mem_preorder_self hs))
  split
  · exact h
  · next he =>
    have he : n.kind.isExpression := by simpa using he
    split
    · exact .pure (.of_operand gives_placeholder he)
    split
    · have lifted : Emits a (BuildsPiece own) (lift store n) := emits_lift hn.modest
      exact fun s hs => ⟨.of_operand (gives_lift store hn.modest s) he, (lifted s hs).2⟩
    split
    · refine .heldOr (store.symbol? n) (fun hint i => .of_operand ?_ he) h
      exact (gives_identifierName (gives_holder hint i)).mono
        fun _ _ hv => hv.mono fun k hk => by rw [hk]; rfl
    · exact h

theorem emits_callee (hn : Placeable n)
    (h : Emits a (GivesPart own shape (.node n)) (structural store provided n)) :
    Emits a (GivesPart own shape (.node n)) (quoteCallee store provided n) := by
  rw [quoteCallee]
  split
  · exact h
  · exact emits_quoted hn h

/-- The code of a nested block that needs statements of the generator. -/
theorem emits_gathered {act : Quoter (List Node)} (h : ∀ b, Emits b (Proceeds own shape) act) :
    Emits a (fun q => Gives own shape q IsBlockList) (nested do closure (← act)) := by
  refine .nested fun b => .bind (h b) fun qs hqs => ?_
  rw [closure]
  refine .bind .accumulator ?_
  rintro _ rfl
  exact .pure (gives_closure b hqs)

/-! ## Following the tree -/

/-- What the quoter makes of a node: as a part of generated code, as a statement, and as the
statements of a block. -/
structure Sound (own : Nat) (shape : ResultShape) (store : FactStore)
    (provided : Option (Nat × CallForm)) (n : Node) : Prop where
  part : ∀ a callee, Emits a (GivesPart own shape (.node n)) (quotePart store provided callee n)
  statement : n.kind.isStatement → ∀ a,
    Emits a (Proceeds own shape) (hostStatement store provided n)
  block : n.kind = .block → ∀ a, Emits a (Proceeds own shape) (hostStatements store provided n)

/-- Smaller trees are quoted well. -/
def PartsSound (own : Nat) (shape : ResultShape) (store : FactStore)
    (provided : Option (Nat × CallForm)) (n : Node) : Prop :=
  ∀ m : Node, m.size < n.size → Placeable m → Sound own shape store provided m

theorem PartsSound.child {m : Node} (ih : PartsSound own shape store provided n)
    (hn : Placeable n) (hm : m ∈ n.nodes) : Sound own shape store provided m :=
  ih m (Node.size_lt_of_mem hm) (hn.child hm)

/-- A quoted expression. -/
theorem PartsSound.value {v : Node} (ih : PartsSound own shape store provided n)
    (hn : Placeable n) (hv : v ∈ n.nodes) (he : v.kind.isExpression) :
    Emits a (fun q => Gives own shape q fun w _ => IsOperand shape w) (quote store provided v) := by
  have hs : v.kind.isStatement = false := by
    revert he
    cases v.kind <;> decide
  have quoted := (ih.child hn hv).part a false
  rw [quotePart, hs, if_neg Bool.false_ne_true, if_neg Bool.false_ne_true] at quoted
  exact quoted.mono fun q hq => hq.operand he

theorem emits_quoteReturn (hn : Placeable n) (ih : PartsSound own shape store provided n)
    (hb : n.kind ≠ .block) (hs : n.kind.isStatement) :
    Emits a (GivesPart own shape (.node n)) (quoteStatement store provided n) := by
  rw [quoteStatement]
  split
  · next hr => exact emits_rebuilt hn hr fun m hm callee => (ih.child hn hm).part a callee
  · next hk =>
    have hk : n.kind = .returnStatement := not_not.1 hk
    split
    · exact .pure (.of_step gives_return hs hb)
    · next value hv =>
      have he := hn.here.first_isExpression (.inl hk) hv
      split
      · next form _ => exact .pure (.of_step (gives_returnWrapped form) hs hb)
      · exact .bind (ih.value hn (Node.mem_of_node? hv) he) fun q hq =>
          .pure (.of_step (gives_returnValue hq _) hs hb)

/-- A statement that becomes generated code as a whole. -/
theorem emits_statement (hn : Placeable n) (ih : PartsSound own shape store provided n)
    (hs : n.kind.isStatement)
    (hblock : n.kind = .block → ∀ b, Emits b (Proceeds own shape) (hostStatements store provided n))
    (hlevel : isHostLevel n → ∀ b, Emits b (Proceeds own shape) (hostLevel store provided n)) :
    Emits a (GivesPart own shape (.node n)) (embedded store provided n) := by
  rw [embedded]
  split
  · next hk =>
    split
    · exact .bind (emits_gathered (hblock hk)) fun q hq =>
        .pure (.of_same (by rw [hk]; exact gives_blockOf hq))
    · rw [quoteStatement, if_pos (by simp [hk])]
      exact emits_rebuilt hn (by simp [hk]) fun m hm callee => (ih.child hn hm).part a callee
  · next hk =>
    split
    · next level =>
      refine .bind (emits_gathered (hlevel level)) fun q hq => .pure (.of_step ?_ hs hk)
      exact (gives_syntheticBlockOf hq).mono fun _ _ hv => hv.mono fun k h => by rw [h]; rfl
    · exact emits_quoteReturn hn ih hk hs

/-! ## Statements of the generator -/

theorem emits_body (hn : Placeable n) (ih : PartsSound own shape store provided n)
    (hk : n.kind = .block) :
    Emits a (Proceeds own shape) (hostStatements store provided n) := by
  have statements := hn.here.nodes_block hk
  rw [hostStatements]
  refine .bind (.mapM _ fun m _ => (ih.child hn m.2).statement (statements m.1 m.2) a)
    fun qss hqss => ?_
  exact .pure (.flatten hqss)

theorem Sound.branch (h : Sound own shape store provided n) (hs : n.kind.isStatement) :
    Emits a (ProceedsIn own shape) (hostBlock store provided n) := by
  rw [hostBlock]
  split
  · next hk => exact .bind (h.block hk a) fun qs hqs => .pure ⟨qs, rfl, hqs⟩
  · exact .bind (h.statement hs a) fun qs hqs => .pure ⟨qs, rfl, hqs⟩

theorem emits_generatorIf (hn : Placeable n) (ih : PartsSound own shape store provided n)
    (hk : n.kind = .ifStatement) :
    Emits a (fun q => Proceeds own shape [q]) (hostIf store provided n) := by
  rw [hostIf]
  split
  · next condition thenBranch hc ht =>
    have hexpr := hn.here.first_isExpression (.inr (.inr hk)) hc
    have he : condition.kind ≠ .elseClause := by
      intro h
      simp [h, NodeKind.isExpression] at hexpr
    have modest := (hn.child (Node.mem_of_node? hc)).modest
    have hthen := hn.here.body_isStatement (.inl ⟨.inl hk, rfl⟩) ht
    refine .bind ((ih.child hn (Node.mem_of_node? ht)).branch hthen) fun thenCode hthen => ?_
    have alone : Proceeds own shape [.ifStatement condition thenCode none] :=
      proceeds_if modest he hthen (by rintro _ ⟨⟩)
    split
    · next clause hclause =>
      have hm := Node.mem_of_nodeOfKind? hclause
      have hkind : clause.kind = .elseClause := by simpa using List.find?_some hclause
      split
      · next branch hb =>
        have hsize : branch.size < n.size := Nat.lt_trans
          (Node.size_lt_of_mem (Node.mem_of_node? hb)) (Node.size_lt_of_mem hm)
        have inner := ih branch hsize ((hn.child hm).child (Node.mem_of_node? hb))
        have hs := (hn.child hm).here.body_isStatement (.inr ⟨hkind, rfl⟩) hb
        refine .bind (inner.branch hs) fun elseCode helse => .pure (proceeds_if modest he hthen ?_)
        rintro _ ⟨⟩
        exact helse
      · exact .pure alone
    · exact .pure alone
  · next missing =>
    obtain ⟨c, hc⟩ := n.exists_node? hn.laid.here (i := 0) (by rw [hk]; decide)
    obtain ⟨t, ht⟩ := n.exists_node? hn.laid.here (i := 1) (by rw [hk]; decide)
    exact (missing c t hc ht).elim

theorem emits_generatorForEach (hn : Placeable n) (ih : PartsSound own shape store provided n)
    (hk : n.kind = .forEachStatement) :
    Emits a (fun q => Proceeds own shape [q]) (hostForEach store provided n) := by
  rw [hostForEach]
  split
  · next name source body hname hs hb =>
    have hkind : name.kind = .identifier := by simpa using List.find?_some hname
    have hopen : isOpenName name.text :=
      (hn.modest n n.mem_preorder_self).2 name (List.mem_of_find?_eq_some hname) hkind
    have hbody := hn.here.body_isStatement (.inl ⟨.inr hk, rfl⟩) hb
    refine .bind ((ih.child hn (Node.mem_of_node? hb)).branch hbody) fun code hcode => .pure ?_
    exact proceeds_forEach hkind hopen (hn.child (Node.mem_of_node? hs)).modest hcode
  · next missing =>
    obtain ⟨name, -, -, hname⟩ := hn.here.name (.inr hk)
    obtain ⟨s, hs⟩ := n.exists_node? hn.laid.here (i := 0) (by rw [hk]; decide)
    obtain ⟨b, hb⟩ := n.exists_node? hn.laid.here (i := 1) (by rw [hk]; decide)
    exact (missing name s b hname hs hb).elim

theorem emits_addition {q : Node} (hq : Gives own shape q fun v _ => IsStep shape v) :
    Emits a (fun s => Proceeds own shape [s]) (append q) :=
  (emits_append q).mono fun _ hs => hs ▸ proceeds_addition a hq

theorem emits_generatedLoop (hn : Placeable n) (ih : PartsSound own shape store provided n)
    (hk : n.kind = .forEachStatement) :
    Emits a (Proceeds own shape) (generatedForEach store provided n) := by
  rw [generatedForEach]
  refine .bind (Numbers.freshLocal store n).emits ?_
  rintro _ ⟨e, rfl⟩
  dsimp only
  refine .bind (Emits.each (P := fun m q => GivesPart own shape (.node m.1) q) _ fun m _ => ?_)
    fun parts hparts => ?_
  · exact (ih.child hn m.2).part a false
  · have quoted : List.Forall₂ (fun k q => Gives own shape q fun v _ => IsPartFor shape (.node k) v)
        (n.nodes.map Node.kind) parts := by
      rw [← List.attach_map_subtype_val n.nodes, List.map_map, List.forall₂_map_left_iff]
      exact hparts
    have fills : Fills [.one .expression, .one .statement] ((n.nodes.map Node.kind).map .node) := by
      obtain ⟨source, body, hnodes, hs, hb⟩ := hn.here.nodes_forEach hk
      rw [hnodes]
      exact .one hs (.one hb .nil)
    exact .bind (emits_addition (gives_loop e fills quoted)) fun q hq =>
      .pure (.append (proceeds_naming e) hq)

/-- A declarator, and the variable that holds its name. -/
def IsDeclaring (own : Nat) (shape : ResultShape) (e : (String × Nat) × List Node)
    (r : Node × Node) : Prop :=
  r = (naming e.1, declaring e) ∧
    Gives own shape (declaring e) fun v _ => IsTree shape (· = .declarator) v

theorem exists_declaring {γ : Type} {xs : List γ} {rs : List (Node × Node)}
    (h : List.Forall₂ (fun _ r => ∃ e, IsDeclaring own shape e r) xs rs) :
    ∃ es : List ((String × Nat) × List Node), es.length = xs.length ∧
      rs = es.map (fun e => (naming e.1, declaring e)) ∧
      ∀ e ∈ es, Gives own shape (declaring e) fun v _ => IsTree shape (· = .declarator) v := by
  induction h with
  | nil => exact ⟨[], rfl, rfl, by simp⟩
  | cons hr _ ih =>
    obtain ⟨e, rfl, he⟩ := hr
    obtain ⟨es, hl, rfl, hes⟩ := ih
    exact ⟨e :: es, congrArg (· + 1) hl, rfl, List.forall_mem_cons.2 ⟨he, hes⟩⟩

theorem emits_declaration (hn : Placeable n) (ih : PartsSound own shape store provided n)
    (hk : n.kind = .localDeclaration) :
    Emits a (Proceeds own shape) (generatedDeclaration store provided n) := by
  rw [generatedDeclaration]
  dsimp only
  split
  · next declarator form _ =>
    refine .bind (Numbers.freshLocal store declarator).emits ?_
    rintro _ ⟨e, rfl⟩
    exact .bind (emits_addition (gives_assignWrapped e.1 e.2 form)) fun q hq =>
      .pure (.append (proceeds_naming e) hq)
  · refine .bind (Emits.each (P := fun _ r => ∃ e, IsDeclaring own shape e r) _ ?_) ?_
    · rintro ⟨declarator, hm⟩ -
      have inner : PartsSound own shape store provided declarator := fun m hsize hm' =>
        ih m (Nat.lt_trans hsize (Node.size_lt_of_mem hm)) hm'
      have hd := hn.here.nodes_localDeclaration hk declarator hm
      refine .bind (Numbers.freshLocal store declarator).emits ?_
      rintro _ ⟨e, rfl⟩
      simp only [pure_bind]
      split
      · next value hv =>
        have he := (hn.child hm).here.first_isExpression (.inr (.inl hd)) hv
        refine .bind (inner.value (hn.child hm) (Node.mem_of_node? hv) he) fun q hq => .pure ?_
        refine ⟨(e, [q]), rfl, gives_declaring (Nat.le_refl 1) ?_⟩
        exact List.forall_mem_singleton.2 hq
      · exact .pure ⟨(e, []), rfl, gives_declaring (Nat.zero_le 1) (by simp)⟩
    · intro parts hparts
      obtain ⟨es, hl, rfl, hes⟩ := exists_declaring hparts
      have hne : es ≠ [] := by
        rintro rfl
        obtain ⟨d, hd⟩ := n.exists_node? hn.laid.here (i := 0) (by rw [hk]; decide)
        have empty : n.nodes = [] := by simpa using hl.symm
        simp [Node.node?, empty] at hd
      have named := proceeds_named (es.map Prod.fst) a (gives_declaration hne hes)
      refine .bind (emits_append _) ?_
      rintro _ rfl
      rw [List.map_map, List.map_map]
      rw [List.map_map] at named
      exact .pure named

theorem emits_level (hn : Placeable n) (ih : PartsSound own shape store provided n)
    (hs : n.kind.isStatement) (level : isHostLevel n) :
    Emits a (Proceeds own shape) (hostLevel store provided n) := by
  rw [hostLevel]
  split
  · next hg =>
    split
    · next hk => exact .bind (emits_generatorIf hn ih hk) fun q hq => .pure hq
    · next hk => exact .bind (emits_generatorForEach hn ih hk) fun q hq => .pure hq
    · next hi hf => exact .pure (proceeds_kept hn.modest (hn.isKept hs hg hi hf))
  · next hg =>
    split
    · next hk => exact emits_generatedLoop hn ih hk
    · next hk => exact emits_declaration hn ih (by simpa [isHostLevel, hg, hk] using level)

/-- The quoter only makes suited code. -/
theorem sound (own : Nat) (shape : ResultShape) (store : FactStore)
    (provided : Option (Nat × CallForm)) (n : Node) (hn : Placeable n) :
    Sound own shape store provided n := by
  have ih : PartsSound own shape store provided n := fun m _ hm =>
    sound own shape store provided m hm
  have block (hk : n.kind = .block) (b : Nat) :
      Emits b (Proceeds own shape) (hostStatements store provided n) :=
    emits_body hn ih hk
  have level (hs : n.kind.isStatement) (h : isHostLevel n) (b : Nat) :
      Emits b (Proceeds own shape) (hostLevel store provided n) :=
    emits_level hn ih hs h
  have statement (hs : n.kind.isStatement) (a : Nat) :
      Emits a (GivesPart own shape (.node n)) (embedded store provided n) :=
    emits_statement hn ih hs block (level hs)
  refine ⟨fun a callee => ?_, fun hs a => ?_, block⟩
  · rw [quotePart]
    split
    · next hs => exact statement hs a
    · next hs =>
      have hr : n.kind ≠ .returnStatement := fun h => hs (by rw [h]; rfl)
      have parts : Emits a (GivesPart own shape (.node n)) (structural store provided n) :=
        emits_rebuilt hn hr fun m hm callee => (ih.child hn hm).part a callee
      split
      · exact emits_callee hn parts
      · exact emits_quoted hn parts
  · rw [hostStatement]
    split
    · next h => exact level hs h a
    · exact .bind (statement hs a) fun q hq =>
        .bind (emits_addition (hq.step hs)) fun s hs => .pure hs
termination_by n.size

end

/-! ## Running a generator -/

section

variable {store : FactStore} {t : Node} {m : Machine}

/-- A generator comes to a tree that suits its target. -/
theorem yields_interpret (store : FactStore) (ht : Placeable t) (hk : t.kind = .template)
    (ha : BareArguments own m) (b : Nat) :
    Yields own shape m (interpret own b (quoteTemplate store t).1.program)
      fun v _ => IsTree shape (· = .block) v := by
  obtain ⟨body, found⟩ := ht.here.body_template hk
  have inside := Node.mem_of_nodeOfKind? found
  have kind : body.kind = .block := by simpa using List.find?_some found
  obtain ⟨proceeds, -⟩ := (sound own shape store (provided? store t) body
    (ht.child inside)).block kind 0 .initial ⟨rfl, by simp [State.initial]⟩
  have hparameters : ∀ p ∈ t.nodes.filter (·.kind == .parameter), p.kind = .parameter := by simp
  obtain ⟨parameters, block⟩ := parts_template (t.nameOrEmpty ++ generatorEnding)
    (openAccumulator (accumulatorName 0) :: bodyStatements store t body ++
      [Node.returnStatement (some (construct "Block" [.identifier (accumulatorName 0)]))])
    hparameters
  rw [program_quoteTemplate store found, interpret, parameters, block]
  rw [bind_paired]
  refine .bind (Q := fun _ _ => True) (.of_after fun hm => ?_) fun out n _ _ => ?_
  · refine .bind (after_nestedIn hm []) fun env n hn ho _ => ?_
    refine .bind (.forM _ hn fun p hp k hk' ho' => ?_) fun _ k hk' _ _ => .pure hk' trivial
    have open_ := (ht.child (List.mem_filter.1 hp).1).modest.name
    exact after_bindParameter hk' (ha.onward hm (ho.trans ho')) open_
  · exact yields_accumulating 0 proceeds (gives_blockOf (gives_accumulator 0)) b out.1

/-- Expanding a generator gives a tree that suits the target. -/
theorem suits_expand (ht : Placeable t) (hk : t.kind = .template) {target : Target}
    {arguments : List (String × Datum)} {n : Node}
    (h : expand target arguments (quoteTemplate store t).1.program = .ok n) :
    n.Suits target.result.Permits := by
  obtain ⟨own, m, k, hstart, hrun⟩ := run_of_expand h
  have started := started_addContext target arguments hstart
  have sane : Sane own target.result (m.enter own).2 := by
    obtain ⟨c, hc, ht⟩ := started.target
    exact ⟨started.tame, ⟨c, hc, congrArg Target.result ht⟩,
      fun p _ _ hp => absurd hp (started.free p)⟩
  have run : Yields own target.result (m.enter own).2
      (interpret own (budgetFor (quoteTemplate store t).1.program)
        (quoteTemplate store t).1.program >>= flattened)
      fun n _ => n.Suits target.result.Permits := by
    refine .bind (yields_interpret store ht hk started.arguments _) ?_
    rintro _ n - ⟨t, rfl, -, ht⟩
    exact .pure ht.flatten
  exact (run sane n k hrun).2.2

end

end Stencil.Quotation
