import Stencil.Proofs.Expansion.Straight
import Stencil.Proofs.Quotation.Correctness

/-!
# The shape of generator programs

A generator is made of code that was kept from its template and of a few forms of calls and
statements around it. `Made` is the grammar of these forms, over the nodes that may be kept and the
words that may be names. The quoter stays inside it, whatever the template says.

Results:

* `writes_structural`, `writes_hostLevel` and so on – what each function of the quoter makes;
* `made_quoteTemplate` – the generator of a template;
* `Made.straight` – such code is straight where the kept code is.
-/
namespace Stencil.Quotation

open Expansion

/-- Whether code computes something or does something. -/
inductive Role where
  | value
  | step
deriving DecidableEq

/-- Code of generators: a kept expression is the only argument of a call or decides about control
flow, a kept statement stands in a block, and all else is made of calls, names, texts, closures that
are called at once, declarations and control flow with blocks as branches. -/
inductive Made (kept : Node → Prop) (word : String → Prop) : Role → Node → Prop
  | value {s t : String} {n : Node} (hs : word s) (ht : word t) (h : kept n)
    (hk : n.kind.isExpression) : Made kept word .value (.methodCall s t [n])
  | text (s : String) : Made kept word .value (.stringLiteral s)
  | name {s : String} (h : word s) : Made kept word .value (.identifier s)
  | member {s t : String} (hs : word s) (ht : word t) :
    Made kept word .value (.memberAccess (.identifier s) t)
  | call {s t : String} {arguments : List Node} (hs : word s) (ht : word t)
    (h : ∀ q ∈ arguments, Made kept word .value q) : Made kept word .value (.methodCall s t arguments)
  | closure {steps : List Node} (h : ∀ q ∈ steps, Made kept word .step q) :
    Made kept word .value (closureCall steps)
  | step {n : Node} (h : kept n) (hk : n.kind.isStatement) : Made kept word .step n
  | declare {s : String} {q : Node} (hs : word s) (h : Made kept word .value q) :
    Made kept word .step (.localDeclaration (.ofName s) (some q))
  | effect {q : Node} (h : Made kept word .value q) : Made kept word .step (.expressionStatement q)
  | result {q : Node} (h : Made kept word .value q) :
    Made kept word .step (.returnStatement (some q))
  | branch {c : Node} {steps : List Node} (hc : kept c) (hk : c.kind.isExpression)
    (h : ∀ q ∈ steps, Made kept word .step q) :
    Made kept word .step (.ifStatement c (.block steps) none)
  | branches {c : Node} {steps others : List Node} (hc : kept c) (hk : c.kind.isExpression)
    (h : ∀ q ∈ steps, Made kept word .step q) (h' : ∀ q ∈ others, Made kept word .step q) :
    Made kept word .step (.ifStatement c (.block steps) (some (.block others)))
  | loop {name : Token} {source : Node} {steps : List Node} (hn : name.kind = .identifier)
    (hw : word name.text) (hs : kept source) (hk : source.kind.isExpression)
    (h : ∀ q ∈ steps, Made kept word .step q) :
    Made kept word .step (.forEachStatement false name source (.block steps))

/-- The names of built-in globals and their members that the quoter writes. -/
def hostNames : List String :=
  ["Syntax", "Context", "TokenKind", "DeferredCallForm", "StatementList", "Token", "Splice",
   "SyntheticBlock", "FreshIdentifier", "CreateAssignStatement", "CreateReturnStatement", "Add"] ++
    NodeKind.all.map NodeKind.name ++ TokenKind.all.map TokenKind.name ++
    CallForm.all.map CallForm.name

/-- What may be kept is code of a template, and the names that the quoter gives are words. -/
structure Vocabulary (kept : Node → Prop) (word : String → Prop) : Prop where
  rule : ∀ n, kept n → Rule n.kind n.outline
  child : ∀ n m, kept n → m ∈ n.nodes → kept m
  spliced : ∀ n, kept n → n.hasMark .splice → n.kind.isExpression
  host : ∀ s ∈ hostNames, word s
  accumulator : ∀ a, word (accumulatorName a)
  holder : ∀ n, kept n → ∀ k, word (holderName n.nameOrEmpty k)
  loop : ∀ n t, kept n → n.tokenOfKind? .identifier = some t → word t.text

/-! ## The quoter -/

section

variable {kept : Node → Prop} {word : String → Prop}

/-- All variables that the quoter knows are words. -/
def State.Worded (word : String → Prop) (s : State) : Prop :=
  ∀ f ∈ s.frame :: s.outer, word f.accumulator ∧ ∀ e ∈ f.locals, word e.2

/-- `P` holds of what the quoter makes. -/
def Writes {α : Type} (word : String → Prop) (P : α → Prop) (act : Quoter α) : Prop :=
  ∀ s : State, s.Worded word → P (act.run s).1 ∧ (act.run s).2.Worded word

namespace Writes

variable {α β γ : Type} {P : α → Prop} {Q : β → Prop}

theorem pure {x : α} (h : P x) : Writes word P (pure x) := fun _ hs => ⟨h, hs⟩

theorem bind {act : Quoter α} {k : α → Quoter β} (h : Writes word P act)
    (hk : ∀ x, P x → Writes word Q (k x)) : Writes word Q (act >>= k) := by
  intro s hs
  obtain ⟨hp, hs'⟩ := h s hs
  exact hk (act.run s).1 hp (act.run s).2 hs'

theorem mapM {f : γ → Quoter α} (xs : List γ) (h : ∀ x ∈ xs, Writes word P (f x)) :
    Writes word (fun ys => ∀ y ∈ ys, P y) (xs.mapM f) := by
  induction xs with
  | nil => exact .pure (by simp)
  | cons x xs ih =>
    rw [List.mapM_cons]
    refine .bind (h x List.mem_cons_self) fun y hy => ?_
    refine .bind (ih fun x' hx => h x' (List.mem_cons_of_mem _ hx)) fun ys hys => ?_
    exact .pure (List.forall_mem_cons.2 ⟨hy, hys⟩)

theorem accumulator : Writes word word Quotation.accumulator :=
  fun _ hs => ⟨(hs _ List.mem_cons_self).1, hs⟩

theorem report (d : Diagnostic) : Writes word (fun _ => True) (report d) :=
  fun _ hs => ⟨trivial, hs⟩

theorem heldOr {P : Node → Prop} {otherwise : Quoter Node} (v : Option Symbol)
    (held : ∀ holder, word holder → P (construct "IdentifierName" [.identifier holder]))
    (h : Writes word P otherwise) : Writes word P (Quotation.heldOr v otherwise) := by
  intro s hs
  cases hv : v.bind s.holder? with
  | none =>
    rw [run_heldOr_none hv]
    exact h s hs
  | some holder =>
    obtain ⟨f, hf, w, hw⟩ := exists_of_holder? hv
    rw [run_heldOr_some hv]
    exact ⟨held holder ((hs f hf).2 (w, holder) hw), hs⟩

theorem nested {build : Quoter α} (accumulators : ∀ a, word (accumulatorName a))
    (h : Writes word P build) : Writes word P (Quotation.nested build) := by
  intro s hs
  obtain ⟨hp, hs'⟩ := h s.enter (List.forall_mem_cons.2 ⟨⟨accumulators _, nofun⟩, hs⟩)
  rw [run_nested]
  refine ⟨hp, ?_⟩
  unfold State.leave
  split
  · exact hs'
  · next heq =>
    rw [State.Worded, heq] at hs'
    exact (List.forall_mem_cons.1 hs').2

theorem declare {name : String} (v : Option Symbol) (h : ∀ k, word (holderName name k)) :
    Writes word word (Quotation.declare name v) := by
  intro s hs
  obtain ⟨⟨ha, hl⟩, outer⟩ := List.forall_mem_cons.1 hs
  refine ⟨h _, List.forall_mem_cons.2 ⟨⟨ha, ?_⟩, outer⟩⟩
  cases v with
  | none => exact hl
  | some v => exact List.forall_mem_cons.2 ⟨h _, hl⟩

end Writes

/-! ### Names of the host -/

theorem mem_hostNames_kind (k : NodeKind) : k.name ∈ hostNames := by
  simp only [hostNames, List.mem_append]
  exact .inl (.inl (.inr (List.mem_map_of_mem k.mem_all)))

theorem mem_hostNames_tokenKind (k : TokenKind) : k.name ∈ hostNames := by
  simp only [hostNames, List.mem_append]
  exact .inl (.inr (List.mem_map_of_mem k.mem_all))

theorem mem_hostNames_form (form : CallForm) : form.name ∈ hostNames := by
  simp only [hostNames, List.mem_append]
  exact .inr (List.mem_map_of_mem (by cases form <;> decide))

theorem mem_hostNames_literalConstructor {t : TypeExpr} {s : String}
    (h : literalConstructor? t = some s) : s ∈ hostNames := by
  cases t <;> simp only [literalConstructor?, Option.some.injEq, reduceCtorEq] at h
  case string => exact h ▸ mem_hostNames_tokenKind .stringLiteral
  case char => exact h ▸ mem_hostNames_tokenKind .charLiteral
  case int | long => exact h ▸ mem_hostNames_tokenKind .intLiteral
  case float | double => exact h ▸ mem_hostNames_tokenKind .floatLiteral

variable {store : FactStore} {provided : Option (Nat × CallForm)} {n : Node}
  (hv : Vocabulary kept word)

include hv

theorem Vocabulary.call {s t : String} {arguments : List Node} (hs : s ∈ hostNames)
    (ht : t ∈ hostNames) (h : ∀ q ∈ arguments, Made kept word .value q) :
    Made kept word .value (.methodCall s t arguments) :=
  .call (hv.host s hs) (hv.host t ht) h

theorem Vocabulary.construct {t : String} {arguments : List Node} (ht : t ∈ hostNames)
    (h : ∀ q ∈ arguments, Made kept word .value q) :
    Made kept word .value (construct t arguments) :=
  hv.call (by simp [hostNames]) ht h

/-- A kept expression is handed to a constructor. -/
theorem Vocabulary.constructKept {t : String} (ht : t ∈ hostNames) (hn : kept n)
    (hk : n.kind.isExpression) : Made kept word .value (Quotation.construct t [n]) :=
  .value (hv.host _ (by simp [hostNames])) (hv.host t ht) hn hk

theorem Vocabulary.tokenKindPath (k : TokenKind) : Made kept word .value (tokenKindPath k) :=
  .member (hv.host _ (by simp [hostNames])) (hv.host _ (mem_hostNames_tokenKind k))

theorem Vocabulary.formPath (form : CallForm) : Made kept word .value (formPath form) :=
  .member (hv.host _ (by simp [hostNames])) (hv.host _ (mem_hostNames_form form))

theorem Vocabulary.placeholder : Made kept word .value placeholder := by
  refine hv.construct (mem_hostNames_kind .literal) (List.forall_mem_singleton.2 ?_)
  exact hv.construct (by simp [hostNames]) (List.forall_mem_singleton.2 (hv.tokenKindPath _))

theorem Vocabulary.quoteToken (t : Token) : Made kept word .value (quoteToken t) := by
  refine hv.construct (by simp [hostNames]) (List.forall_mem_cons.2 ⟨hv.tokenKindPath _, ?_⟩)
  split
  · nofun
  · exact List.forall_mem_singleton.2 (.text _)

theorem Vocabulary.openAccumulator {s : String} (hs : word s) :
    Made kept word .step (openAccumulator s) :=
  .declare hs (hv.construct (by simp [hostNames]) nofun)

/-! ### Quoted code -/

theorem writes_lift (hn : kept n) (hk : n.kind.isExpression) :
    Writes word (Made kept word .value) (lift store n) := by
  unfold lift
  split
  · exact .pure hv.placeholder
  · exact .pure hv.placeholder
  · split
    · next constructor hc =>
      refine .pure (hv.construct (mem_hostNames_kind .literal) (List.forall_mem_singleton.2 ?_))
      exact hv.constructKept (mem_hostNames_literalConstructor hc) hn hk
    · exact .bind (.report _) fun _ _ => .pure hv.placeholder

theorem writes_structural
    (h : ∀ m ∈ n.nodes, ∀ callee,
      Writes word (Made kept word .value) (quotePart store provided callee m)) :
    Writes word (Made kept word .value) (structural store provided n) := by
  rw [structural]
  refine .bind (.mapM (P := Made kept word .value) _ ?_) fun qs hqs =>
    .pure (hv.construct (mem_hostNames_kind _) hqs)
  rintro ⟨⟨c, hc⟩, index⟩ -
  cases c with
  | token t => exact .pure (hv.quoteToken t)
  | node m => exact h m (Node.mem_nodes.2 hc) (index = 0 && n.kind = .invocation)

theorem writes_quote (hn : kept n)
    (h : Writes word (Made kept word .value) (structural store provided n)) :
    Writes word (Made kept word .value) (quote store provided n) := by
  rw [quote]
  split
  · next hsplice =>
    exact .pure (hv.constructKept (by simp [hostNames]) hn (hv.spliced n hn hsplice))
  split
  · exact h
  next hk =>
  split
  · exact .pure hv.placeholder
  split
  · exact writes_lift hv hn (by simpa using hk)
  split
  · refine .heldOr (store.symbol? n) (fun holder hw => ?_) h
    exact hv.construct (mem_hostNames_kind .identifier) (List.forall_mem_singleton.2 (.name hw))
  · exact h

theorem writes_quoteCallee (hn : kept n)
    (h : Writes word (Made kept word .value) (structural store provided n)) :
    Writes word (Made kept word .value) (quoteCallee store provided n) := by
  rw [quoteCallee]
  split
  · exact h
  · exact writes_quote hv hn h

/-- The code of a nested block that needs statements of the generator. -/
theorem writes_closure {act : Quoter (List Node)}
    (h : Writes word (fun qs => ∀ q ∈ qs, Made kept word .step q) act) :
    Writes word (Made kept word .value) (nested do closure (← act)) := by
  refine .nested hv.accumulator (.bind h fun qs hqs => ?_)
  rw [closure]
  refine .bind .accumulator fun name hname => .pure (.closure ?_)
  simp only [List.cons_append, List.forall_mem_cons, List.forall_mem_append]
  exact ⟨hv.openAccumulator hname, hqs, .result (.name hname), nofun⟩

theorem writes_append {q : Node} (hq : Made kept word .value q) :
    Writes word (Made kept word .step) (append q) := by
  rw [append]
  refine .bind .accumulator fun name hname => .pure (.effect ?_)
  exact .call hname (hv.host _ (by simp [hostNames])) (List.forall_mem_singleton.2 hq)

theorem writes_freshLocal (hn : kept n) : Writes word
    (fun r => Made kept word .step r.1 ∧ word r.2) (freshLocal store n) := by
  refine .bind (.declare _ (hv.holder n hn)) fun holder hw => .pure ⟨?_, hw⟩
  exact Made.declare hw (hv.call (s := "Context") (t := "FreshIdentifier") (by simp [hostNames])
    (by simp [hostNames]) (List.forall_mem_singleton.2 (.text _)))

/-! ### Following the tree -/

/-- What the quoter makes of a node: as a part of generated code, as a statement, and as the
statements of a block. -/
structure Written (kept : Node → Prop) (word : String → Prop) (store : FactStore)
    (provided : Option (Nat × CallForm)) (n : Node) : Prop where
  part : ∀ callee, Writes word (Made kept word .value) (quotePart store provided callee n)
  statement : n.kind.isStatement →
    Writes word (fun qs => ∀ q ∈ qs, Made kept word .step q) (hostStatement store provided n)
  block : n.kind = .block →
    Writes word (fun qs => ∀ q ∈ qs, Made kept word .step q) (hostStatements store provided n)

section

variable (ih : ∀ m : Node, m.size < n.size → kept m → Written kept word store provided m)

include ih

/-- The quoted value of a `return` or a declarator. -/
theorem writes_value (hn : kept n) {v : Node} (hk : n.kind = .returnStatement ∨ n.kind = .declarator)
    (hn0 : n.node? 0 = some v) : Writes word (Made kept word .value) (quote store provided v) := by
  have hexpr := (hv.rule n hn).first_isExpression (hk.imp_right .inl) hn0
  have hs : v.kind.isStatement = false := by
    revert hexpr
    cases v.kind <;> decide
  have hm := Node.mem_of_node? hn0
  have quoted := (ih v (Node.size_lt_of_mem hm) (hv.child n v hn hm)).part false
  rwa [quotePart, hs, if_neg Bool.false_ne_true, if_neg Bool.false_ne_true] at quoted

theorem writes_part (hn : kept n) {m : Node} (hm : m ∈ n.nodes) (callee : Bool) :
    Writes word (Made kept word .value) (quotePart store provided callee m) :=
  (ih m (Node.size_lt_of_mem hm) (hv.child n m hn hm)).part callee

theorem writes_quoteStatement (hn : kept n) :
    Writes word (Made kept word .value) (quoteStatement store provided n) := by
  rw [quoteStatement]
  split
  · exact writes_structural hv fun m hm callee => writes_part hv ih hn hm callee
  · next hk =>
    have hk : n.kind = .returnStatement := not_not.1 hk
    split
    · exact .pure (hv.call (by simp [hostNames]) (mem_hostNames_kind .returnStatement) nofun)
    · next value hn0 =>
      split
      · next form _ =>
        exact .pure (hv.call (by simp [hostNames]) (by simp [hostNames])
          (List.forall_mem_singleton.2 (hv.formPath form)))
      · refine .bind (writes_value hv ih hn (.inl hk) hn0) fun q hq => .pure ?_
        refine hv.call (by simp [hostNames]) (mem_hostNames_kind .returnStatement)
          (List.forall_mem_cons.2 ⟨hq, ?_⟩)
        exact List.forall_mem_singleton.2 (.text _)

theorem writes_embedded (hn : kept n)
    (block : n.kind = .block → Writes word (fun qs => ∀ q ∈ qs, Made kept word .step q)
      (hostStatements store provided n))
    (level : isHostLevel n → Writes word (fun qs => ∀ q ∈ qs, Made kept word .step q)
      (hostLevel store provided n)) :
    Writes word (Made kept word .value) (embedded store provided n) := by
  rw [embedded]
  split
  · next hk =>
    split
    · exact .bind (writes_closure hv (block hk)) fun q hq =>
        .pure (hv.construct (mem_hostNames_kind .block) (List.forall_mem_singleton.2 hq))
    · exact writes_quoteStatement hv ih hn
  · split
    · next h =>
      exact .bind (writes_closure hv (level h)) fun q hq =>
        .pure (hv.construct (by simp [hostNames]) (List.forall_mem_singleton.2 hq))
    · exact writes_quoteStatement hv ih hn

/-! ### Statements of the generator -/

theorem writes_hostStatements (hn : kept n) (hk : n.kind = .block) :
    Writes word (fun qs => ∀ q ∈ qs, Made kept word .step q) (hostStatements store provided n) := by
  rw [hostStatements]
  refine .bind (.mapM (P := fun qs => ∀ q ∈ qs, Made kept word .step q) _ fun m _ => ?_)
    fun qss hqss => .pure ?_
  · exact (ih m.1 (Node.size_lt_of_mem m.2) (hv.child n m.1 hn m.2)).statement
      ((hv.rule n hn).nodes_block hk m.1 m.2)
  · intro q hq
    obtain ⟨qs, hqs, hq⟩ := List.mem_flatten.1 hq
    exact hqss qs hqs q hq

omit hv in
theorem writes_hostBlock {m : Node} (hm : kept m) (hsize : m.size < n.size)
    (hk : m.kind.isStatement) :
    Writes word (fun q => ∃ steps, q = .block steps ∧ ∀ p ∈ steps, Made kept word .step p)
      (hostBlock store provided m) := by
  have written := ih m hsize hm
  rw [hostBlock]
  split
  · next hb => exact .bind (written.block hb) fun qs hqs => .pure ⟨qs, rfl, hqs⟩
  · exact .bind (written.statement hk) fun qs hqs => .pure ⟨qs, rfl, hqs⟩

theorem writes_hostIf (hn : kept n) (hk : n.kind = .ifStatement) :
    Writes word (Made kept word .step) (hostIf store provided n) := by
  rw [hostIf]
  split
  · next condition thenBranch hc ht =>
    have hexpr := (hv.rule n hn).first_isExpression (.inr (.inr hk)) hc
    have hstmt := (hv.rule n hn).body_isStatement (.inl ⟨.inl hk, rfl⟩) ht
    have hc := hv.child n _ hn (Node.mem_of_node? hc)
    have ht := Node.mem_of_node? ht
    refine .bind (writes_hostBlock ih (hv.child n _ hn ht) (Node.size_lt_of_mem ht) hstmt) ?_
    rintro _ ⟨steps, rfl, hsteps⟩
    split
    · next clause hclause =>
      have kind : clause.kind = .elseClause := by simpa using List.find?_some hclause
      have hm := Node.mem_of_nodeOfKind? hclause
      have hclause := hv.child n _ hn hm
      split
      · next branch hb =>
        have hstmt := (hv.rule clause hclause).body_isStatement (.inr ⟨kind, rfl⟩) hb
        have hb := Node.mem_of_node? hb
        have hsize := Nat.lt_trans (Node.size_lt_of_mem hb) (Node.size_lt_of_mem hm)
        refine .bind (writes_hostBlock ih (hv.child clause _ hclause hb) hsize hstmt) ?_
        rintro _ ⟨others, rfl, hothers⟩
        exact .pure (.branches hc hexpr hsteps hothers)
      · exact .pure (.branch hc hexpr hsteps)
    · exact .pure (.branch hc hexpr hsteps)
  · exact .pure (.step hn (by rw [hk]; rfl))

theorem writes_hostForEach (hn : kept n) (hk : n.kind = .forEachStatement) :
    Writes word (Made kept word .step) (hostForEach store provided n) := by
  rw [hostForEach]
  split
  · next name source body hname hs hb =>
    obtain ⟨source', body', hnodes, hexpr, hstmt⟩ := (hv.rule n hn).nodes_forEach hk
    obtain rfl : source' = source := by simpa [Node.node?, hnodes] using hs
    obtain rfl : body' = body := by simpa [Node.node?, hnodes] using hb
    have hs := Node.mem_of_node? hs
    have hb := Node.mem_of_node? hb
    refine .bind (writes_hostBlock ih (hv.child n _ hn hb) (Node.size_lt_of_mem hb) hstmt) ?_
    rintro _ ⟨steps, rfl, hsteps⟩
    exact .pure (.loop (by simpa using List.find?_some hname) (hv.loop n name hn hname)
      (hv.child n _ hn hs) hexpr hsteps)
  · exact .pure (.step hn (by rw [hk]; rfl))

theorem writes_generatedForEach (hn : kept n) :
    Writes word (fun qs => ∀ q ∈ qs, Made kept word .step q)
      (generatedForEach store provided n) := by
  rw [generatedForEach]
  refine .bind (writes_freshLocal hv hn) ?_
  rintro ⟨declaration, holder⟩ ⟨hd, hw⟩
  dsimp only
  refine .bind (.mapM (P := Made kept word .value) _ fun m _ => ?_) fun parts hparts => ?_
  · exact writes_part hv ih hn m.2 false
  · have built := hv.construct (t := "ForEachStatement") (mem_hostNames_kind .forEachStatement)
      (List.forall_mem_cons.2 ⟨.name hw, hparts⟩)
    exact .bind (writes_append hv built) fun q hq =>
      .pure (List.forall_mem_cons.2 ⟨hd, List.forall_mem_singleton.2 hq⟩)

theorem writes_generatedDeclaration (hn : kept n) (hk : n.kind = .localDeclaration) :
    Writes word (fun qs => ∀ q ∈ qs, Made kept word .step q)
      (generatedDeclaration store provided n) := by
  rw [generatedDeclaration]
  dsimp only
  split
  · next declarator form hsingle =>
    have hd : kept declarator := by
      split at hsingle
      · next only hnodes =>
        obtain ⟨v, -, hv0⟩ := Option.bind_eq_some_iff.1 hsingle
        obtain ⟨f, -, heq⟩ := Option.bind_eq_some_iff.1 hv0
        cases heq
        exact hv.child n _ hn (by simp [hnodes])
      · cases hsingle
    refine .bind (writes_freshLocal hv hd) ?_
    rintro ⟨declaration, holder⟩ ⟨hd, hw⟩
    have assigned := hv.call (s := "Context") (t := "CreateAssignStatement") (by simp [hostNames])
      (by simp [hostNames]) (List.forall_mem_cons.2 ⟨.name hw,
        List.forall_mem_singleton.2 (hv.formPath form)⟩)
    exact .bind (writes_append hv assigned) fun q hq =>
      .pure (List.forall_mem_cons.2 ⟨hd, List.forall_mem_singleton.2 hq⟩)
  · refine .bind (.mapM (P := fun r => Made kept word .step r.1 ∧ Made kept word .value r.2) _
      fun m _ => ?_) fun parts hparts => ?_
    · have hm := hv.child n _ hn m.2
      have inner : ∀ x : Node, x.size < m.1.size → kept x → Written kept word store provided x :=
        fun x hx => ih x (Nat.lt_trans hx (Node.size_lt_of_mem m.2))
      refine .bind (writes_freshLocal hv hm) ?_
      rintro ⟨declaration, holder⟩ ⟨hd, hw⟩
      dsimp only
      have declarator (values : List Node) (h : ∀ q ∈ values, Made kept word .value q) :=
        hv.construct (t := "VariableDeclarator") (mem_hostNames_kind .declarator)
          (List.forall_mem_cons.2 ⟨.name hw, h⟩)
      split
      · next value hn0 =>
        have kind := (hv.rule n hn).nodes_localDeclaration hk m.1 m.2
        refine .bind (writes_value hv inner hm (.inr kind) hn0) fun q hq => ?_
        exact .pure ⟨hd, declarator [q] (List.forall_mem_singleton.2 hq)⟩
      · exact .pure ⟨hd, declarator [] (by simp)⟩
    · have built : Made kept word .value (construct "LocalDeclaration" (parts.map Prod.snd)) :=
        hv.construct (mem_hostNames_kind .localDeclaration)
          (by simpa using fun a b h => (hparts _ h).2)
      refine .bind (writes_append hv built) fun q hq => .pure ?_
      simp only [List.forall_mem_append, List.forall_mem_map, List.forall_mem_singleton]
      exact ⟨fun r hr => (hparts r hr).1, hq⟩

theorem writes_hostLevel (hn : kept n) (hs : n.kind.isStatement) (level : isHostLevel n) :
    Writes word (fun qs => ∀ q ∈ qs, Made kept word .step q) (hostLevel store provided n) := by
  rw [hostLevel]
  split
  · split
    · next hk =>
      exact .bind (writes_hostIf hv ih hn hk) fun q hq => .pure (List.forall_mem_singleton.2 hq)
    · next hk =>
      exact .bind (writes_hostForEach hv ih hn hk) fun q hq =>
        .pure (List.forall_mem_singleton.2 hq)
    · exact .pure (List.forall_mem_singleton.2 (.step hn hs))
  · next hg =>
    split
    · exact writes_generatedForEach hv ih hn
    · next hk =>
      exact writes_generatedDeclaration hv ih hn (by simpa [isHostLevel, hg, hk] using level)

end

/-- The quoter makes code of generators only. -/
theorem written (store : FactStore) (provided : Option (Nat × CallForm)) (n : Node) (hn : kept n) :
    Written kept word store provided n := by
  have ih : ∀ m : Node, m.size < n.size → kept m → Written kept word store provided m :=
    fun m _ hm => written store provided m hm
  have block (hk : n.kind = .block) := writes_hostStatements hv ih hn hk
  have level (hs : n.kind.isStatement) (h : isHostLevel n) := writes_hostLevel hv ih hn hs h
  refine ⟨fun callee => ?_, fun hs => ?_, block⟩
  · rw [quotePart]
    split
    · next hs => exact writes_embedded hv ih hn block (level hs)
    · have parts : Writes word (Made kept word .value) (structural store provided n) :=
        writes_structural hv fun m hm callee => writes_part hv ih hn hm callee
      split
      · exact writes_quoteCallee hv hn parts
      · exact writes_quote hv hn parts
  · rw [hostStatement]
    split
    · next h => exact level hs h
    · exact .bind (writes_embedded hv ih hn block (level hs)) fun q hq =>
        .bind (writes_append hv hq) fun q' hq' => .pure (List.forall_mem_singleton.2 hq')
termination_by n.size

/-- The generator of a template has its parameters, and a body that the quoter made. -/
theorem made_quoteTemplate (store : FactStore) {t : Node} (ht : kept t) (hk : t.kind = .template) :
    ∃ steps, (∀ q ∈ steps, Made kept word .step q) ∧ (quoteTemplate store t).1.program =
      .template (t.nameOrEmpty ++ generatorEnding) (t.nodes.filter (·.kind == .parameter))
        (.block steps) := by
  obtain ⟨body, hb⟩ := (hv.rule t ht).body_template hk
  refine ⟨_, ?_, program_quoteTemplate store hb⟩
  have kind : body.kind = .block := by simpa using List.find?_some hb
  have initial : State.initial.Worded word :=
    List.forall_mem_singleton.2 ⟨hv.accumulator 0, nofun⟩
  have body_kept := hv.child t body ht (Node.mem_of_nodeOfKind? hb)
  have steps : ∀ q ∈ bodyStatements store t body, Made kept word .step q := by
    unfold bodyStatements
    exact ((written hv store (provided? store t) body body_kept).block kind _ initial).1
  simp only [List.cons_append, List.forall_mem_cons, List.forall_mem_append]
  refine ⟨hv.openAccumulator (hv.accumulator 0), steps, .result ?_, nofun⟩
  exact hv.construct (mem_hostNames_kind .block)
    (List.forall_mem_singleton.2 (.name (hv.accumulator 0)))

end

/-! ## Generators run straight on -/

section

variable {kept : Node → Prop} {word : String → Prop}

/-- What computes is an expression, what does something a statement. -/
theorem Made.kind {r : Role} {n : Node} (h : Made kept word r n) :
    (r = .value → n.kind.isExpression) ∧ (r = .step → n.kind.isStatement) := by
  cases h with
  | step _ hk => exact ⟨nofun, fun _ => hk⟩
  | value | text | name | member | call | closure => exact ⟨fun _ => rfl, nofun⟩
  | declare | effect | result | branch | branches | loop => exact ⟨nofun, fun _ => rfl⟩

theorem rule_methodCall {s t : String} {arguments : List Node}
    (h : ∀ q ∈ arguments, q.kind.isExpression) :
    Rule .invocation (Node.methodCall s t arguments).outline := by
  have rule : Rule .invocation ((NodeKind.memberAccess :: arguments.map Node.kind).map .node) :=
    .invocation nofun (List.forall_mem_cons.2 ⟨rfl, by simpa using h⟩)
  have outline : (Node.methodCall s t arguments).outline =
      (.node (.memberAccess (.identifier s) t) :: arguments.map .node : List (Child Node)).map
        Child.outline := rfl
  simpa [outline, Function.comp_def, Child.outline, Node.memberAccess] using rule

theorem rule_block {steps : List Node} (h : ∀ q ∈ steps, q.kind.isStatement) :
    Rule .block (Node.block steps).outline := by
  have rule : Rule .block ((steps.map Node.kind).map .node) := .block (by simpa using h)
  have outline : (Node.block steps).outline =
      (steps.map .node : List (Child Node)).map Child.outline := rfl
  simpa [outline, Function.comp_def, Child.outline] using rule

theorem straight_build {fence : Bool} (kind : NodeKind) (cs : List (Child Node))
    (supported : Staging.isSupported kind) (rule : Rule kind (cs.map Child.outline))
    (hk : kind ≠ .step) (parts : ∀ m ∈ cs.filterMap Child.node?, Straight fence m) :
    Straight fence (.build kind cs) :=
  .plain supported rule (fun _ h => absurd h hk) parts

section

variable {fence : Bool}

theorem straight_identifier (s : String) : Straight fence (.identifier s) :=
  straight_build .identifier [.token (.ofName s)] rfl (.identifier rfl) nofun nofun

theorem straight_memberAccess (s t : String) :
    Straight fence (.memberAccess (.identifier s) t) :=
  straight_build .memberAccess [.node (.identifier s), .token (.ofName t)] rfl
    (.memberAccess rfl rfl) nofun (List.forall_mem_singleton.2 (straight_identifier s))

theorem straight_methodCall {s t : String} {arguments : List Node}
    (h : ∀ q ∈ arguments, q.kind.isExpression) (hs : ∀ q ∈ arguments, Straight fence q) :
    Straight fence (.methodCall s t arguments) := by
  refine straight_build .invocation
    (.node (.memberAccess (.identifier s) t) :: arguments.map .node) rfl (rule_methodCall h) nofun ?_
  simpa [List.filterMap_map, Function.comp_def] using ⟨straight_memberAccess s t, hs⟩

theorem straight_block {steps : List Node} (h : ∀ q ∈ steps, q.kind.isStatement)
    (hs : ∀ q ∈ steps, Straight fence q) : Straight fence (.block steps) := by
  refine straight_build .block (steps.map .node) rfl (rule_block h) nofun ?_
  simpa [List.filterMap_map, Function.comp_def] using hs

theorem straight_localDeclaration {s : String} {q : Node} (h : q.kind.isExpression)
    (hs : Straight fence q) : Straight fence (.localDeclaration (.ofName s) (some q)) := by
  have declarator : Straight fence (.declarator (.ofName s) (some q)) :=
    straight_build .declarator [.token (.ofName s), .node q] rfl (.initialized rfl h) nofun
      (List.forall_mem_singleton.2 hs)
  have rule : Rule .localDeclaration ([NodeKind.declarator].map .node) :=
    .localDeclaration (List.forall_mem_singleton.2 rfl)
  exact straight_build .localDeclaration [.node (.declarator (.ofName s) (some q))] rfl rule nofun
    (List.forall_mem_singleton.2 declarator)

theorem straight_ifStatement {c body : Node} {no : Option Node} (hc : c.kind.isExpression)
    (hb : body.kind.isStatement) (hn : ∀ m, no = some m → m.kind.isStatement)
    (sc : Straight fence c) (sb : Straight fence body) (sn : ∀ m, no = some m → Straight fence m) :
    Straight fence (.ifStatement c body no) := by
  cases no with
  | none =>
    exact straight_build .ifStatement [.node c, .node body] rfl
      (.ifStatement hc hb) nofun
      (List.forall_mem_cons.2 ⟨sc, List.forall_mem_singleton.2 sb⟩)
  | some m =>
    have clause : Straight fence (.build .elseClause [.node m]) :=
      straight_build .elseClause [.node m] rfl (.elseClause (hn m rfl)) nofun
        (List.forall_mem_singleton.2 (sn m rfl))
    exact straight_build .ifStatement
      [.node c, .node body, .node (.build .elseClause [.node m])] rfl (.ifElse hc hb) nofun
      (List.forall_mem_cons.2 ⟨sc, List.forall_mem_cons.2 ⟨sb, List.forall_mem_singleton.2 clause⟩⟩)

theorem straight_forEachStatement {name : Token} {source body : Node}
    (hn : name.kind = .identifier) (hs : source.kind.isExpression) (hb : body.kind.isStatement)
    (ss : Straight fence source) (sb : Straight fence body) :
    Straight fence (.forEachStatement false name source body) :=
  straight_build .forEachStatement [.token name, .node source, .node body] rfl
    (.forEachStatement hn hs hb) nofun
    (List.forall_mem_cons.2 ⟨ss, List.forall_mem_singleton.2 sb⟩)

end

/-- Code of a generator is straight if what it keeps is. -/
theorem Made.straight {fence : Bool} (hkept : ∀ m, kept m → Straight fence m) {r : Role} {n : Node}
    (h : Made kept word r n) : Straight fence n := by
  have block {steps : List Node} (h : ∀ q ∈ steps, Made kept word .step q)
      (hs : ∀ q ∈ steps, Straight fence q) : Straight fence (.block steps) :=
    straight_block (fun q hq => (h q hq).kind.2 rfl) hs
  induction h with
  | value _ _ h hk =>
    exact straight_methodCall (List.forall_mem_singleton.2 hk) (List.forall_mem_singleton.2 (hkept _ h))
  | step h _ => exact hkept _ h
  | text s =>
    exact straight_build .literal [.token (.detached .stringLiteral s)] rfl
      (.literal _ nofun) nofun nofun
  | name _ => exact straight_identifier _
  | member _ _ => exact straight_memberAccess _ _
  | call _ _ h ih => exact straight_methodCall (fun q hq => (h q hq).kind.1 rfl) ih
  | @closure steps h ih =>
    exact .called (n := closureCall steps) rfl rfl rfl rfl rfl rfl rfl (block h ih)
  | declare _ h ih => exact straight_localDeclaration (h.kind.1 rfl) ih
  | @effect q h ih =>
    exact straight_build .expressionStatement [.node q] rfl
      (.expressionStatement (h.kind.1 rfl)) nofun (List.forall_mem_singleton.2 ih)
  | @result q h ih =>
    exact straight_build .returnStatement [.node q] rfl
      (.returning (.inl rfl) (h.kind.1 rfl)) nofun (List.forall_mem_singleton.2 ih)
  | branch hc hk h ih =>
    exact straight_ifStatement hk rfl nofun (hkept _ hc) (block h ih) nofun
  | branches hc hk h h' ih ih' =>
    refine straight_ifStatement hk rfl ?_ (hkept _ hc) (block h ih) ?_
    · rintro _ ⟨⟩
      rfl
    · rintro _ ⟨⟩
      exact block h' ih'
  | loop hn _ hs hk h ih =>
    exact straight_forEachStatement hn hk rfl (hkept _ hs) (block h ih)

end

end Stencil.Quotation
