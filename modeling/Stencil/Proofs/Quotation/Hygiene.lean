import Stencil.Proofs.Quotation.Gathering

/-!
# Generators only add code that shadows nothing

Whatever the template says, the quoter makes statements that add code with variables of its own to
the block that is being built, and code that builds such parts. The proof follows the quoter: a
state of the quoter is orderly if its block has a numbered accumulator and all generated locals in
reach have holders, and the numbers of holders never repeat, so one declaration never uses the same
holder twice.

Results:

* `Emits.nested`, `Numbers.mapM` – nested blocks and declarations keep the state orderly;
* `emits_structural`, `emits_embedded` – quoted code builds parts, and pieces where it may;
* `emits_hostLevel` – statements of the generator add such code;
* `hygienic` – so does all that the quoter makes of a template.
-/
namespace Stencil.Quotation

open Expansion

/-! ## The quoter -/

/-- A block with the accumulator numbered `a` is built, and every generated local has a holder. -/
structure State.Orderly (a : Nat) (s : State) : Prop where
  accumulator : s.frame.accumulator = accumulatorName a
  locals : ∀ f ∈ s.frame :: s.outer, ∀ e ∈ f.locals, ∃ hint i, e.2 = holderName hint i

/-- The quoter is back in the same block. -/
structure State.Continues (a : Nat) (s s' : State) : Prop where
  orderly : s'.Orderly a
  outer : s'.outer = s.outer
  names : s.names ≤ s'.names

theorem State.Orderly.continues {a : Nat} {s : State} (hs : s.Orderly a) : s.Continues a s :=
  ⟨hs, rfl, Nat.le_refl _⟩

theorem State.Continues.trans {a : Nat} {s s' s'' : State} (h : s.Continues a s')
    (h' : s'.Continues a s'') : s.Continues a s'' :=
  ⟨h'.orderly, h'.outer.trans h.outer, Nat.le_trans h.names h'.names⟩

/-- From an orderly state the quoter comes back to the same block, and `P` holds of what it made. -/
def Emits {α : Type} (a : Nat) (P : α → Prop) (act : Quoter α) : Prop :=
  ∀ s : State, s.Orderly a → P (act.run s).1 ∧ s.Continues a (act.run s).2

namespace Emits

variable {α β γ : Type} {a : Nat} {P : α → Prop} {Q : β → Prop}

theorem pure {x : α} (h : P x) : Emits a P (pure x) := fun _ hs => ⟨h, hs.continues⟩

theorem bind {act : Quoter α} {k : α → Quoter β} (h : Emits a P act)
    (hk : ∀ x, P x → Emits a Q (k x)) : Emits a Q (act >>= k) := by
  intro s hs
  obtain ⟨hp, hc⟩ := h s hs
  obtain ⟨hq, hc'⟩ := hk (act.run s).1 hp (act.run s).2 hc.orderly
  exact ⟨hq, hc.trans hc'⟩

theorem mono {P' : α → Prop} {act : Quoter α} (h : Emits a P act) (hP : ∀ x, P x → P' x) :
    Emits a P' act :=
  fun s hs => ⟨hP _ (h s hs).1, (h s hs).2⟩

theorem mapM {f : γ → Quoter α} (xs : List γ) (h : ∀ x ∈ xs, Emits a P (f x)) :
    Emits a (fun ys => ∀ y ∈ ys, P y) (xs.mapM f) := by
  induction xs with
  | nil => exact .pure (by simp)
  | cons x xs ih =>
    rw [List.mapM_cons]
    refine .bind (h x List.mem_cons_self) fun y hy => ?_
    refine .bind (ih fun x' hx => h x' (List.mem_cons_of_mem _ hx)) fun ys hys => ?_
    exact .pure (List.forall_mem_cons.2 ⟨hy, hys⟩)

theorem accumulator : Emits a (fun name => name = accumulatorName a) Quotation.accumulator :=
  fun _ hs => ⟨hs.accumulator, hs.continues⟩

/-- A local that is found has a holder. -/
theorem heldOr {P : Node → Prop} {otherwise : Quoter Node} (v : Option Symbol)
    (held : ∀ hint i, P (construct "IdentifierName" [.identifier (holderName hint i)]))
    (h : Emits a P otherwise) : Emits a P (Quotation.heldOr v otherwise) := by
  intro s hs
  cases hv : v.bind s.holder? with
  | none =>
    rw [run_heldOr_none hv]
    exact h s hs
  | some holder =>
    obtain ⟨f, hf, w, hw⟩ := exists_of_holder? hv
    obtain ⟨hint, i, rfl⟩ := hs.locals f hf (w, holder) hw
    rw [run_heldOr_some hv]
    exact ⟨held hint i, hs.continues⟩

/-- A nested block has an accumulator and locals of its own. -/
theorem nested {build : Quoter α} (h : ∀ b, Emits b P build) :
    Emits a P (Quotation.nested build) := by
  intro s hs
  obtain ⟨hp, hc⟩ := h s.accumulators s.enter ⟨rfl, List.forall_mem_cons.2 ⟨nofun, hs.locals⟩⟩
  rw [run_nested, State.leave, hc.outer]
  exact ⟨hp, ⟨hs.accumulator, hs.locals⟩, rfl, hc.names⟩

end Emits

/-- The quoter makes something about a new holder, whose number `number` tells. -/
def Numbers {α δ : Type} (a : Nat) (number : δ → Nat) (P : δ → α → Prop) (act : Quoter α) : Prop :=
  ∀ s : State, s.Orderly a → ∃ e, s.names ≤ number e ∧ number e < (act.run s).2.names ∧
    P e (act.run s).1 ∧ s.Continues a (act.run s).2

namespace Numbers

variable {α β γ δ ε : Type} {a : Nat} {number : δ → Nat} {number' : ε → Nat} {P : δ → α → Prop}
  {Q : ε → β → Prop}

theorem emits {act : Quoter α} (h : Numbers a number P act) :
    Emits a (fun x => ∃ e, P e x) act := by
  intro s hs
  obtain ⟨e, -, -, hp, hc⟩ := h s hs
  exact ⟨⟨e, hp⟩, hc⟩

theorem bind {act : Quoter α} {k : α → Quoter β} (h : Numbers a number P act)
    (hk : ∀ e x, P e x → Emits a (fun y => ∃ e', number' e' = number e ∧ Q e' y) (k x)) :
    Numbers a number' Q (act >>= k) := by
  intro s hs
  obtain ⟨e, hl, hu, hp, hc⟩ := h s hs
  obtain ⟨⟨e', he, hq⟩, hc'⟩ := hk e (act.run s).1 hp (act.run s).2 hc.orderly
  refine ⟨e', he ▸ hl, ?_, hq, hc.trans hc'⟩
  rw [he]
  exact Nat.lt_of_lt_of_le hu hc'.names

/-- Holders that are made one after another have different numbers. -/
theorem mapM (number : δ → Nat) {f : γ → Quoter α} (xs : List γ)
    (h : ∀ x ∈ xs, Numbers a number P (f x)) :
    Emits a (fun ys => ∃ es, (es.map number).Nodup ∧ List.Forall₂ P es ys) (xs.mapM f) := by
  suffices later : ∀ s : State, s.Orderly a → (∃ es : List δ, (es.map number).Nodup ∧
      (∀ e ∈ es, s.names ≤ number e) ∧ List.Forall₂ P es ((xs.mapM f).run s).1) ∧
        s.Continues a ((xs.mapM f).run s).2 by
    intro s hs
    obtain ⟨⟨es, hd, -, hp⟩, hc⟩ := later s hs
    exact ⟨⟨es, hd, hp⟩, hc⟩
  induction xs with
  | nil => exact fun s hs => ⟨⟨[], .nil, by simp, .nil⟩, hs.continues⟩
  | cons x xs ih =>
    intro s hs
    obtain ⟨e, hl, hu, hp, hc⟩ := h x List.mem_cons_self s hs
    obtain ⟨⟨es, hd, hle, hps⟩, hc'⟩ :=
      ih (fun y hy => h y (List.mem_cons_of_mem _ hy)) ((f x).run s).2 hc.orderly
    rw [List.mapM_cons]
    refine ⟨⟨e :: es, ?_, ?_, .cons hp hps⟩, hc.trans hc'⟩
    · refine List.nodup_cons.2 ⟨fun hmem => ?_, hd⟩
      obtain ⟨e', he', heq⟩ := List.mem_map.1 hmem
      have := hle e' he'
      omega
    · exact List.forall_mem_cons.2 ⟨hl, fun e' he' => Nat.le_trans hc.names (hle e' he')⟩

/-- A local is declared with a holder of its own. -/
theorem declare (name : String) (v : Option Symbol) : Numbers a Prod.snd
    (fun e holder => e.1 = name ∧ holder = holderName e.1 e.2) (Quotation.declare name v) := by
  intro s hs
  refine ⟨(name, s.names), Nat.le_refl _, Nat.lt_succ_self _, ⟨rfl, rfl⟩, ?_⟩
  refine ⟨⟨hs.accumulator, ?_⟩, rfl, Nat.le_succ _⟩
  obtain ⟨here, outer⟩ := List.forall_mem_cons.1 hs.locals
  refine List.forall_mem_cons.2 ⟨?_, outer⟩
  cases v with
  | none => exact here
  | some v => exact List.forall_mem_cons.2 ⟨⟨_, _, rfl⟩, here⟩

theorem freshLocal (store : FactStore) (declaring : Node) : Numbers a Prod.snd
    (fun e r => r = (naming e, holderName e.1 e.2)) (freshLocal store declaring) := by
  refine (declare declaring.nameOrEmpty (store.declared? declaring)).bind ?_
  rintro ⟨_, i⟩ _ ⟨rfl, rfl⟩
  exact .pure ⟨(_, i), rfl, rfl⟩

end Numbers

/-! ## Quoted code -/

/-- The code builds a part of generated code, wherever it is run. -/
def BuildsPart (own : Nat) (q : Node) : Prop :=
  ∀ start env, Builds own start env q (IsPart own)

/-- The code builds what may also stand in the block that is being built. -/
def BuildsPiece (own : Nat) (q : Node) : Prop :=
  ∀ start env, Builds own start env q (IsPiece own)

variable {own a : Nat}

theorem BuildsPiece.part {q : Node} (h : BuildsPiece own q) : BuildsPart own q :=
  fun start env => (h start env).mono fun _ _ _ hv => hv.isPart

/-- Code of a template that follows the grammar. -/
structure Quotable (n : Node) : Prop where
  modest : Modest n
  rule : ∀ m ∈ n.preorder, Rule m.kind m.outline

theorem Quotable.child {n m : Node} (h : Quotable n) (hm : m ∈ n.nodes) : Quotable m :=
  ⟨h.modest.child hm, fun x hx => h.rule x (Node.preorder_subset hm hx)⟩

theorem Quotable.here {n : Node} (h : Quotable n) : Rule n.kind n.outline :=
  h.rule n n.mem_preorder_self

/-- Of the statements, only blocks and those that need statements of the generator open a scope. -/
theorem Quotable.not_scoping {n : Node} (h : Quotable n)
    (hn : n.kind.isStatement → n.kind ≠ .block ∧ isHostLevel n = false) :
    n.kind.isScoping = false := by
  have supported := h.modest.supported
  cases hk : n.kind with
  | block => exact absurd hk (hn (by rw [hk]; rfl)).1
  | localDeclaration | forEachStatement =>
    have level := (hn (by rw [hk]; rfl)).2
    simp [isHostLevel, hk] at level
  | usingStatement => simp [hk, Staging.isSupported] at supported
  | _ => rfl

section

variable {store : FactStore} {provided : Option (Nat × CallForm)} {n : Node}

/-- The arguments of a constructor call are the quoted children. -/
theorem emits_arguments {P : Node → Prop} (token : ∀ t, P (quoteToken t))
    (h : ∀ m ∈ n.nodes, ∀ callee, Emits a P (quotePart store provided callee m)) :
    Emits a (fun q => ∃ qs, q = construct n.kind.name qs ∧ ∀ p ∈ qs, P p)
      (structural store provided n) := by
  rw [structural]
  refine .bind (.mapM _ ?_) fun qs hqs => .pure ⟨qs, rfl, hqs⟩
  rintro ⟨⟨c, hc⟩, index⟩ -
  cases c with
  | token t => exact .pure (token t)
  | node m => exact h m (Node.mem_nodes.2 hc) (index = 0 && n.kind = .invocation)

theorem emits_structural (hk : n.kind.isScoping = false)
    (h : ∀ m ∈ n.nodes, ∀ callee, Emits a (BuildsPart own) (quotePart store provided callee m)) :
    Emits a (BuildsPiece own) (structural store provided n) := by
  refine (emits_arguments (fun t start env => ?_) h).mono ?_
  · exact (builds_quoteToken t).mono fun _ _ _ hv => hv.isPart
  · rintro _ ⟨qs, rfl, hqs⟩ start env
    exact builds_construct n.kind hk fun q hq => hqs q hq start env

theorem emits_block (hk : n.kind = .block)
    (h : ∀ m ∈ n.nodes, ∀ callee, Emits a (BuildsPiece own) (quotePart store provided callee m)) :
    Emits a (BuildsPiece own) (structural store provided n) := by
  refine (emits_arguments (fun t start env => ?_) h).mono ?_
  · exact (builds_quoteToken t).mono fun _ _ _ hv => hv.isPiece
  · rintro _ ⟨qs, rfl, hqs⟩ start env
    rw [hk]
    exact builds_block fun q hq => hqs q hq start env

theorem emits_lift (hn : Modest n) : Emits a (BuildsPiece own) (lift store n) := by
  intro s hs
  refine ⟨fun start env => builds_lift store hn s, ?_⟩
  unfold lift
  split
  · exact hs.continues
  · exact hs.continues
  · split
    · exact hs.continues
    · exact ⟨⟨hs.accumulator, hs.locals⟩, rfl, Nat.le_refl _⟩

theorem emits_quote (hn : Modest n) (h : Emits a (BuildsPiece own) (structural store provided n)) :
    Emits a (BuildsPiece own) (quote store provided n) := by
  rw [quote]
  split
  · exact .pure fun _ _ => builds_splice hn
  split
  · exact h
  split
  · exact .pure fun _ _ => builds_placeholder
  split
  · exact emits_lift hn
  split
  · refine .heldOr (store.symbol? n) (fun hint i start env => ?_) h
    exact builds_construct .identifier rfl (List.forall_mem_singleton.2
      ((builds_holder hint i).mono fun _ _ _ hv => hv.isPart))
  · exact h

theorem emits_quoteCallee (hn : Modest n)
    (h : Emits a (BuildsPiece own) (structural store provided n)) :
    Emits a (BuildsPiece own) (quoteCallee store provided n) := by
  rw [quoteCallee]
  split
  · exact h
  · exact emits_quote hn h

/-- The code of a nested block that needs statements of the generator. -/
theorem emits_closure {act : Quoter (List Node)} (h : ∀ b, Emits b (Adds own b) act) :
    Emits a (fun q => ∀ start env, Builds own start env q (Encloses own))
      (nested do closure (← act)) := by
  refine .nested fun b => .bind (h b) fun qs hqs => ?_
  rw [closure]
  refine .bind .accumulator ?_
  rintro _ rfl
  exact .pure fun _ _ => builds_closure hqs

/-! ## Following the tree -/

/-- What the quoter makes of a node: as a part of generated code, as a statement, and as the
statements of a block. -/
structure Hygienic (own : Nat) (store : FactStore) (provided : Option (Nat × CallForm))
    (n : Node) : Prop where
  part : ∀ a callee, Emits a (BuildsPart own) (quotePart store provided callee n)
  piece : (n.kind.isStatement → n.kind = .block ∨ isHostLevel n = false) → ∀ a callee,
    Emits a (BuildsPiece own) (quotePart store provided callee n)
  statement : ∀ a, Emits a (Adds own a) (hostStatement store provided n)
  block : ∀ a, Emits a (Adds own a) (hostStatements store provided n)

/-- Smaller trees are quoted well. -/
def PartsHygienic (own : Nat) (store : FactStore) (provided : Option (Nat × CallForm))
    (n : Node) : Prop :=
  ∀ m : Node, m.size < n.size → Quotable m → Hygienic own store provided m

theorem PartsHygienic.child {m : Node} (ih : PartsHygienic own store provided n)
    (hn : Quotable n) (hm : m ∈ n.nodes) : Hygienic own store provided m :=
  ih m (Node.size_lt_of_mem hm) (hn.child hm)

/-- The quoted value of a `return` or a declarator. -/
theorem PartsHygienic.value {v : Node} (ih : PartsHygienic own store provided n) (hn : Quotable n)
    (hv : n.node? 0 = some v) (hk : n.kind = .returnStatement ∨ n.kind = .declarator) :
    Emits a (BuildsPart own) (quote store provided v) := by
  have hexpr := hn.here.first_isExpression (hk.imp_right .inl) hv
  have hs : v.kind.isStatement = false := by
    revert hexpr
    cases v.kind <;> decide
  have quoted := (ih.child hn (Node.mem_of_node? hv)).part a false
  rwa [quotePart, hs, if_neg Bool.false_ne_true, if_neg Bool.false_ne_true] at quoted

theorem emits_quoteStatement (hn : Quotable n) (ih : PartsHygienic own store provided n)
    (hs : n.kind.isScoping = false) :
    Emits a (BuildsPiece own) (quoteStatement store provided n) := by
  rw [quoteStatement]
  split
  · exact emits_structural hs fun m hm callee => (ih.child hn hm).part a callee
  · next hk =>
    have hk : n.kind = .returnStatement := not_not.1 hk
    split
    · exact .pure fun _ _ => builds_return
    · next value hv =>
      split
      · next form _ => exact .pure fun _ _ => builds_returnWrapped form
      · refine .bind (ih.value hn hv (.inl hk)) fun q hq => .pure fun start env => ?_
        exact builds_returnValue (hq start env) _

/-- A statement that becomes generated code as a whole. -/
theorem emits_embedded (hn : Quotable n) (ih : PartsHygienic own store provided n)
    (hs : n.kind = .block ∨ isHostLevel n = false)
    (hblock : ∀ b, Emits b (Adds own b) (hostStatements store provided n)) :
    Emits a (BuildsPiece own) (embedded store provided n) := by
  rw [embedded]
  split
  · next hk =>
    split
    · exact .bind (emits_closure hblock) fun q hq =>
        .pure fun start env => builds_blockOf (hq start env)
    · next hany =>
      rw [quoteStatement, if_pos (by simp [hk])]
      refine emits_block hk fun m hm callee => (ih.child hn hm).piece (fun _ => .inr ?_) a callee
      simpa using List.any_eq_false.1 (Bool.not_eq_true _ ▸ hany) m hm
  · next hk =>
    have level := hs.resolve_left hk
    rw [if_neg (by simp [level])]
    exact emits_quoteStatement hn ih (hn.not_scoping fun _ => ⟨hk, level⟩)

/-- A single statement that needs statements of the generator is a part, but no piece. -/
theorem emits_embedded_part (hn : Quotable n) (ih : PartsHygienic own store provided n)
    (hblock : ∀ b, Emits b (Adds own b) (hostStatements store provided n))
    (hlevel : ∀ b, isHostLevel n → Emits b (Adds own b) (hostLevel store provided n)) :
    Emits a (BuildsPart own) (embedded store provided n) := by
  by_cases hs : n.kind = .block ∨ isHostLevel n = false
  · exact (emits_embedded hn ih hs hblock).mono fun _ hq => hq.part
  · obtain ⟨hk, level⟩ := not_or.1 hs
    have level : isHostLevel n = true := by simpa using level
    rw [embedded, if_neg hk, if_pos level]
    exact .bind (emits_closure fun b => hlevel b level) fun q hq =>
      .pure fun start env => builds_syntheticBlockOf (hq start env)

/-! ## Statements of the generator -/

theorem emits_append (q : Node) : Emits a (fun s => s = addition a q) (append q) := by
  rw [append]
  refine .bind .accumulator ?_
  rintro _ rfl
  exact .pure rfl

theorem emits_hostStatements (hn : Quotable n) (ih : PartsHygienic own store provided n) :
    Emits a (Adds own a) (hostStatements store provided n) := by
  rw [hostStatements]
  refine .bind (.mapM _ fun m _ => (ih.child hn m.2).statement a) fun qss hqss => ?_
  exact .pure (.flatten hqss)

theorem Hygienic.branch (h : Hygienic own store provided n) :
    Emits a (IsBranch own a) (hostBlock store provided n) := by
  rw [hostBlock]
  split
  · exact .bind (h.block a) fun qs hqs => .pure ⟨qs, rfl, hqs⟩
  · exact .bind (h.statement a) fun qs hqs => .pure ⟨qs, rfl, hqs⟩

theorem emits_hostIf (hn : Quotable n) (ih : PartsHygienic own store provided n)
    (hk : n.kind = .ifStatement) :
    Emits a (fun q => Adds own a [q]) (hostIf store provided n) := by
  rw [hostIf]
  split
  · next condition thenBranch hc ht =>
    have hexpr := hn.here.first_isExpression (.inr (.inr hk)) hc
    have he : condition.kind ≠ .elseClause := by
      intro h
      simp [h, NodeKind.isExpression] at hexpr
    have modest := (hn.child (Node.mem_of_node? hc)).modest
    refine .bind (ih.child hn (Node.mem_of_node? ht)).branch fun thenCode hthen => ?_
    have alone : Adds own a [.ifStatement condition thenCode none] :=
      adds_if modest he hthen (by rintro _ ⟨⟩)
    split
    · next clause hclause =>
      have hm := Node.mem_of_nodeOfKind? hclause
      split
      · next branch hb =>
        have hsize : branch.size < n.size := Nat.lt_trans
          (Node.size_lt_of_mem (Node.mem_of_node? hb)) (Node.size_lt_of_mem hm)
        have inner := ih branch hsize ((hn.child hm).child (Node.mem_of_node? hb))
        refine .bind inner.branch fun elseCode helse => .pure (adds_if modest he hthen ?_)
        rintro _ ⟨⟩
        exact helse
      · exact .pure alone
    · exact .pure alone
  · exact .pure (adds_kept hn.modest)

theorem emits_hostForEach (hn : Quotable n) (ih : PartsHygienic own store provided n) :
    Emits a (fun q => Adds own a [q]) (hostForEach store provided n) := by
  rw [hostForEach]
  split
  · next name source body hname hs hb =>
    have hkind : name.kind = .identifier := by simpa using List.find?_some hname
    have hopen : isOpenName name.text :=
      (hn.modest n n.mem_preorder_self).2 name (List.mem_of_find?_eq_some hname) hkind
    refine .bind (ih.child hn (Node.mem_of_node? hb)).branch fun code hcode => .pure ?_
    exact adds_forEach hkind hopen (hn.child (Node.mem_of_node? hs)).modest hcode
  · exact .pure (adds_kept hn.modest)

theorem emits_generatedForEach (hn : Quotable n) (ih : PartsHygienic own store provided n) :
    Emits a (Adds own a) (generatedForEach store provided n) := by
  rw [generatedForEach]
  refine .bind (Numbers.freshLocal store n).emits ?_
  rintro _ ⟨e, rfl⟩
  dsimp only
  refine .bind (.mapM (P := BuildsPart own) _ fun m _ => ?_) fun parts hparts => ?_
  · exact (ih.child hn m.2).part a false
  · refine .bind (emits_append _) ?_
    rintro _ rfl
    exact .pure (adds_loop e fun q hq start env => hparts q hq start env)

/-- A declarator, and the variable that holds its name. -/
def IsDeclared (own : Nat) (e : (String × Nat) × List Node) (r : Node × Node) : Prop :=
  (∀ q ∈ e.2, BuildsPart own q) ∧ (naming e.1, declaring e) = r

theorem emits_generatedDeclaration (hn : Quotable n) (ih : PartsHygienic own store provided n)
    (hk : n.kind = .localDeclaration) :
    Emits a (Adds own a) (generatedDeclaration store provided n) := by
  rw [generatedDeclaration]
  dsimp only
  split
  · next declarator form _ =>
    refine .bind (Numbers.freshLocal store declarator).emits ?_
    rintro _ ⟨e, rfl⟩
    refine .bind (emits_append _) ?_
    rintro _ rfl
    exact .pure (adds_assignWrapped e form)
  · refine .bind (Numbers.mapM (fun e => e.1.2) (P := IsDeclared own) _ ?_) ?_
    · rintro ⟨declarator, hm⟩ -
      have inner : PartsHygienic own store provided declarator := fun m hsize hm' =>
        ih m (Nat.lt_trans hsize (Node.size_lt_of_mem hm)) hm'
      refine (Numbers.freshLocal store declarator).bind ?_
      rintro e _ rfl
      simp only [pure_bind]
      split
      · next value hv =>
        have hd := hn.here.nodes_localDeclaration hk declarator hm
        refine .bind (inner.value (hn.child hm) hv (.inr hd)) fun q hq => .pure ?_
        exact ⟨(e, [q]), rfl, List.forall_mem_singleton.2 hq, rfl⟩
      · exact .pure ⟨(e, []), rfl, by simp, rfl⟩
    · rintro parts ⟨es, hes, hparts⟩
      obtain ⟨hv, hparts⟩ := (List.forall₂_and_left _ _).1 hparts
      obtain rfl : es.map (fun e => (naming e.1, declaring e)) = parts := by
        rwa [← List.forall₂_eq_eq_eq, List.forall₂_map_left_iff]
      refine .bind (emits_append _) ?_
      rintro _ rfl
      rw [List.map_map, List.map_map]
      exact .pure (adds_declaration hes fun e he q hq start env => hv e he q hq start env)

theorem emits_hostLevel (hn : Quotable n) (ih : PartsHygienic own store provided n)
    (level : isHostLevel n) :
    Emits a (Adds own a) (hostLevel store provided n) := by
  rw [hostLevel]
  split
  · split
    · next hk => exact .bind (emits_hostIf hn ih hk) fun q hq => .pure hq
    · exact .bind (emits_hostForEach hn ih) fun q hq => .pure hq
    · exact .pure (adds_kept hn.modest)
  · next hg =>
    split
    · exact emits_generatedForEach hn ih
    · next hk => exact emits_generatedDeclaration hn ih (by simpa [isHostLevel, hg, hk] using level)

/-- The quoter only makes code that shadows nothing. -/
theorem hygienic (own : Nat) (store : FactStore) (provided : Option (Nat × CallForm)) (n : Node)
    (hn : Quotable n) : Hygienic own store provided n := by
  have ih : PartsHygienic own store provided n := fun m _ hm =>
    hygienic own store provided m hm
  have block (b : Nat) : Emits b (Adds own b) (hostStatements store provided n) :=
    emits_hostStatements hn ih
  have level (b : Nat) (h : isHostLevel n) : Emits b (Adds own b) (hostLevel store provided n) :=
    emits_hostLevel hn ih h
  have piece (h : n.kind.isStatement → n.kind = .block ∨ isHostLevel n = false) (a : Nat)
      (callee : Bool) : Emits a (BuildsPiece own) (quotePart store provided callee n) := by
    rw [quotePart]
    split
    · next hs => exact emits_embedded hn ih (h hs) block
    · next hs =>
      have parts : Emits a (BuildsPiece own) (structural store provided n) :=
        emits_structural (hn.not_scoping fun h => absurd h hs)
          fun m hm callee => (ih.child hn hm).part a callee
      split
      · exact emits_quoteCallee hn.modest parts
      · exact emits_quote hn.modest parts
  refine ⟨fun a callee => ?_, piece, fun a => ?_, block⟩
  · by_cases hs : n.kind.isStatement
    · rw [quotePart, if_pos hs]
      exact emits_embedded_part hn ih block level
    · exact (piece (fun h => absurd h hs) a callee).mono fun _ hq => hq.part
  · rw [hostStatement]
    split
    · next h => exact level a h
    · next h =>
      refine .bind (emits_embedded hn ih (.inr (by simpa using h)) block) fun q hq => ?_
      refine .bind (emits_append q) ?_
      rintro _ rfl
      exact .pure (adds_built hq)
termination_by n.size

end

end Stencil.Quotation
