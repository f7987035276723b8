import Stencil.Proofs.Tree.Places
import Stencil.Source.Parser

/-!
# The shape of trees that were read

Every tree that the parser returns follows the grammar of outlines, and no node of it carries a
mark. `Yields P p` says that `P` holds of all that the parser `p` returns; it composes along the
productions, so each production is looked at once, for any parsers of its parts.

Results:

* `reads_expression`, `reads_statement` – one lemma for each production, closed by induction on
  the fuel;
* `isRead_parseUnit` – a text that parses gives a tree of the grammar;
* `IsRead.laid` – trees that were read are laid out.
-/
namespace Stencil.Source

/-- The node and all below it follow the grammar and carry no marks. -/
def IsRead (n : Node) : Prop :=
  ∀ m ∈ n.preorder, m.marks = [] ∧ Rule m.kind m.outline ∧ Exact m.kind m.outline

/-- Trees that were read are laid out. -/
theorem IsRead.laid {n : Node} (h : IsRead n) : n.Laid := fun m hm =>
  (h m hm).2.1.fills (h m hm).2.2

/-- `P` holds of whatever the parser returns. -/
def Yields {α : Type} (P : α → Prop) (p : Parse α) : Prop :=
  ∀ c a c', p.run c = .ok (a, c') → P a

namespace Yields

variable {α β : Type} {P : α → Prop} {Q : β → Prop}

theorem bind {p : Parse α} {k : α → Parse β} (h : Yields P p) (hk : ∀ a, P a → Yields Q (k a)) :
    Yields Q (p >>= k) := by
  intro c b c' hr
  rw [StateT.run_bind] at hr
  cases hp : p.run c with
  | error e => rw [hp] at hr; cases hr
  | ok r =>
    rw [hp] at hr
    exact hk r.1 (h c r.1 r.2 hp) r.2 b c' hr

theorem pure {a : α} (h : P a) : Yields P (pure a) := by
  intro c b c' hr
  cases hr
  exact h

theorem throw (e : SourceError) : Yields P (throw e) := by
  intro c b c' hr
  cases hr

theorem mono {P' : α → Prop} {p : Parse α} (h : Yields P p) (hP : ∀ a, P a → P' a) :
    Yields P' p :=
  fun c a c' hr => hP a (h c a c' hr)

/-- Nothing is asked of what the parser returns. -/
theorem any (p : Parse α) : Yields (fun _ => True) p := fun _ _ _ _ => trivial

theorem skip {p : Parse α} {k : α → Parse β} (hk : ∀ a, Yields Q (k a)) : Yields Q (p >>= k) :=
  bind (any p) fun a _ => hk a

theorem given {a : α} {k : α → Parse β} (h : Yields Q (k a)) :
    Yields Q (Pure.pure a >>= k) := by
  rwa [pure_bind]

theorem fail (what : Expectation) : Yields P (Parse.fail what) := skip fun _ => throw _

theorem tooDeep : Yields P Parse.tooDeep := skip fun _ => throw _

theorem takeToken (kind : TokenKind) : Yields (fun t => t.kind = kind) (Parse.takeToken kind) :=
  skip fun _ => pure rfl

theorem identifier : Yields (fun t => t.kind = .identifier) Parse.identifier := by
  unfold Parse.identifier
  refine skip fun c => ?_
  split
  · exact takeToken _
  · exact fail _

theorem operator? (texts : List String) :
    Yields (fun o => ∀ t, o = some t → t.kind ∈ TokenKind.operators) (Parse.operator? texts) := by
  unfold Parse.operator?
  refine skip fun c => ?_
  dsimp only
  split
  · split
    · next kind hk =>
      refine bind (takeToken kind) fun t ht => pure ?_
      rintro _ ⟨⟩
      rw [ht]
      exact List.mem_of_find?_eq_some hk
    · exact pure nofun
  · exact pure nofun

theorem separated {p : Parse α} (h : Yields P p) (fuel : Nat) :
    Yields (fun as => (∀ a ∈ as, P a) ∧ as ≠ []) (Parse.separated p fuel) := by
  induction fuel with
  | zero => exact tooDeep
  | succ fuel ih =>
    refine bind h fun a ha => skip fun more => ?_
    split
    · exact bind ih fun as has => pure (by simpa using ⟨ha, has.1⟩)
    · exact pure (by simpa using ha)

theorem bracketed {p : Parse α} (h : Yields P p) (opening closing : String) (fuel : Nat) :
    Yields (fun as => ∀ a ∈ as, P a) (Parse.bracketed opening closing p fuel) := by
  refine skip fun _ => skip fun c => ?_
  split
  · exact given (skip fun _ => pure nofun)
  · exact bind (separated h fuel) fun as has => skip fun _ => pure has.1

theorem itemsUntil {p : Parse α} (h : Yields P p) (stop : Cursor → Bool) (fuel : Nat) :
    Yields (fun as => ∀ a ∈ as, P a) (Parse.itemsUntil stop p fuel) := by
  induction fuel with
  | zero => exact tooDeep
  | succ fuel ih =>
    refine skip fun c => ?_
    split
    · exact pure nofun
    · split
      · exact fail _
      · exact bind h fun a ha => bind ih fun as has => pure (by simpa using ⟨ha, has⟩)

end Yields

/-! ## Nodes -/

/-- A tree of the grammar whose root has a kind with the property `p`. -/
abbrev Reads (p : NodeKind → Prop) : Parse Node → Prop :=
  Yields fun n => IsRead n ∧ p n.kind

theorem reads_finish {kind : NodeKind} {at0 : Nat} {children : List (Child Node)}
    (hr : Rule kind (children.map Child.outline)) (hx : Exact kind (children.map Child.outline))
    (hc : ∀ n, .node n ∈ children → IsRead n) :
    Reads (· = kind) (Parse.finish kind at0 children) := by
  refine .skip fun c => .pure ⟨?_, rfl⟩
  intro m hm
  rcases Node.mem_preorder.1 hm with rfl | ⟨n, hn, hm⟩
  · exact ⟨rfl, hr, hx⟩
  · exact hc n (Node.mem_nodes.1 hn) m hm

theorem Yields.isExpression {p : Parse Node} {kind : NodeKind} (hk : kind.isExpression)
    (h : Reads (· = kind) p) : Reads (·.isExpression) p :=
  h.mono fun n hn => ⟨hn.1, by rw [hn.2]; exact hk⟩

theorem Yields.isStatement {p : Parse Node} {kind : NodeKind} (hk : kind.isStatement)
    (h : Reads (· = kind) p) : Reads (·.isStatement) p :=
  h.mono fun n hn => ⟨hn.1, by rw [hn.2]; exact hk⟩

theorem outline_asNodes (ns : List Node) :
    (Grammar.asNodes ns).map Child.outline = (ns.map Node.kind).map .node := by
  simp [Grammar.asNodes, Child.outline]

theorem mem_asNodes {n : Node} {ns : List Node} : .node n ∈ Grammar.asNodes ns ↔ n ∈ ns := by
  simp [Grammar.asNodes]

/-- A node whose children are all nodes. -/
theorem reads_nodes {kind : NodeKind} {at0 : Nat} {ns : List Node}
    (hr : Rule kind ((ns.map Node.kind).map .node))
    (hx : Exact kind ((ns.map Node.kind).map .node)) (hn : ∀ n ∈ ns, IsRead n) :
    Reads (· = kind) (Parse.finish kind at0 (Grammar.asNodes ns)) :=
  reads_finish (by rwa [outline_asNodes]) (by rwa [outline_asNodes])
    fun n hm => hn n (mem_asNodes.1 hm)

namespace Grammar

open Parse

/-! ## Names, types and parameters -/

theorem reads_typeName (fuel : Nat) : Reads (· = .typeName) (typeName fuel) :=
  .skip fun _ => .skip fun _ => .skip fun _ => reads_finish (.typeName rfl) trivial (by simp)

theorem reads_parameter (fuel : Nat) : Reads (· = .parameter) (parameter fuel) := by
  refine .skip fun c => ?_
  split
  · refine .bind (reads_typeName fuel) fun type ht => .bind .identifier fun name hn => ?_
    refine reads_finish ?_ trivial (by simpa using ht.1)
    simpa [Child.outline, ht.2] using Rule.typedParameter hn
  · exact .bind .identifier fun name hn => reads_finish (.parameter hn) trivial (by simp)

theorem reads_lambdaNames (fuel : Nat) :
    Yields (fun ns => ∀ n ∈ ns, IsRead n ∧ n.kind = .parameter) (lambdaNames fuel) := by
  induction fuel with
  | zero => exact .tooDeep
  | succ fuel ih =>
    refine .skip fun c => ?_
    split
    · exact .pure nofun
    · refine .bind .identifier fun name hn => ?_
      refine .bind (reads_finish (.parameter hn) trivial (by simp)) fun p hp => .skip fun more => ?_
      split
      · exact .bind ih fun ps hps => .pure (by simpa using ⟨hp, hps⟩)
      · exact .pure (by simpa using hp)

/-! ## Expressions -/

section

variable {expr stmt : Parse Node} (he : Reads (·.isExpression) expr)
  (hs : Reads (·.isStatement) stmt)

include hs in
theorem reads_block (fuel : Nat) : Reads (· = .block) (block stmt fuel) := by
  refine .skip fun _ => .skip fun _ => .bind (.itemsUntil hs _ fuel) fun ns hns => .skip fun _ => ?_
  exact reads_nodes (.block (by simpa using fun n hn => (hns n hn).2)) trivial fun n hn =>
    (hns n hn).1

include he hs in
theorem reads_lambda (fuel : Nat) : Reads (· = .lambda) (lambda expr stmt fuel) := by
  refine .skip fun at0 => ?_
  have body (ps : List Node) (hps : ∀ n ∈ ps, IsRead n ∧ n.kind = .parameter) :
      Reads (· = .lambda) (do
        expectPunct "=>"
        let body ← if (← get).atPunct openBrace then block stmt fuel else expr
        finish .lambda at0 (asNodes (ps ++ [body]))) := by
    have finished {b : Node} (hb : IsRead b) (hk : b.kind = .block ∨ b.kind.isExpression) :
        Reads (· = .lambda) (finish .lambda at0 (asNodes (ps ++ [b]))) := by
      refine reads_nodes ?_ trivial fun n hn => ?_
      · have names : ∀ k ∈ ps.map Node.kind, k = .parameter := by
          simpa using fun n hn => (hps n hn).2
        simpa using Rule.lambda names hk
      · rcases List.mem_append.1 hn with hn | hn
        · exact (hps n hn).1
        · cases List.mem_singleton.1 hn
          exact hb
    refine .skip fun _ => .skip fun c => ?_
    split
    · exact .bind (reads_block hs fuel) fun b hb => finished hb.1 (.inl hb.2)
    · exact .bind he fun b hb => finished hb.1 (.inr hb.2)
  refine .skip fun more => ?_
  split
  · refine .bind (reads_lambdaNames fuel) fun ps hps => .skip fun _ => body ps hps
  · refine .bind .identifier fun name hn => ?_
    refine .bind (reads_finish (.parameter hn) trivial (by simp)) fun p hp => ?_
    exact body [p] (by simpa using hp)

theorem exact_operand {kind : NodeKind} {cs : List (Child NodeKind)}
    (hkind : kind ∈ [NodeKind.parenthesized, .await, .whereClause, .selectClause]) :
    Exact kind cs := by
  simp only [List.mem_cons, List.not_mem_nil, or_false] at hkind
  rcases hkind with rfl | rfl | rfl | rfl <;> trivial

include he in
theorem reads_clause {kind : NodeKind} (at0 : Nat)
    (hkind : kind ∈ [NodeKind.parenthesized, .await, .whereClause, .selectClause]) :
    Reads (· = kind) (do
      let e ← expr
      finish kind at0 [.node e]) :=
  .bind he fun e h => reads_finish (.operand hkind h.2) (exact_operand hkind) (by simpa using h.1)

include he in
theorem reads_query : Reads (· = .query) (query expr) := by
  refine .skip fun at0 => .skip fun _ => .bind .identifier fun name hn => .skip fun _ => ?_
  refine .bind he fun source hsource => .skip fun whereAt => ?_
  have rest (filters : List Node) (hf : ∀ n ∈ filters, IsRead n ∧ n.kind = .whereClause)
      (hlen : filters.length ≤ 1) :
      Reads (· = .query) (do
        let selectAt ← start
        expectWord "select"
        let selection ← expr
        let select ← finish .selectClause selectAt [.node selection]
        finish .query at0 (.token name :: asNodes (source :: filters ++ [select]))) := by
    refine .skip fun selectAt => .skip fun _ => ?_
    rw [← bind_assoc]
    refine .bind (reads_clause he selectAt (by simp)) fun select hselect => reads_finish ?_ ?_ ?_
    · rw [List.map_cons, outline_asNodes, Child.outline]
      have clauses : ∀ k ∈ filters.map Node.kind, k = .whereClause := by
        simpa using fun n hn => (hf n hn).2
      simpa [hselect.2] using Rule.query hn hsource.2 clauses
    · simp only [Exact, asNodes, List.length_cons, List.length_map, List.length_append,
        List.length_nil]
      omega
    · intro n hn
      have hn : n ∈ source :: filters ++ [select] := mem_asNodes.1 (by simpa using hn)
      simp only [List.cons_append, List.mem_cons, List.mem_append, List.not_mem_nil,
        or_false] at hn
      rcases hn with rfl | hn | rfl
      · exact hsource.1
      · exact (hf n hn).1
      · exact hselect.1
  refine .skip fun more => ?_
  split
  · rw [← bind_assoc]
    exact .bind (reads_clause he whereAt (by simp)) fun f hf =>
      rest [f] (by simpa using hf) (by simp)
  · exact rest [] (by simp) (by simp)

theorem isLiteral_of_literalKind? {l : Lexeme} {kind : TokenKind}
    (h : literalKind? l = some kind) : kind.isLiteral := by
  unfold literalKind? at h
  repeat' split at h
  all_goals first
    | cases h; done
    | (cases h; rfl)

theorem ne_identifier_of_literalKind? {l : Lexeme} {kind : TokenKind}
    (h : literalKind? l = some kind) : kind ≠ .identifier := by
  rintro rfl
  cases isLiteral_of_literalKind? h

theorem ne_identifier_of_operator {kind : TokenKind} (h : kind ∈ TokenKind.operators) :
    kind ≠ .identifier := by
  rintro rfl
  revert h
  decide

include he in
theorem reads_primary (fuel : Nat) : Reads (·.isExpression) (primary expr fuel) := by
  refine .skip fun c => ?_
  dsimp only
  split
  · next kind hk =>
    refine .bind (.takeToken kind) fun t ht => ?_
    have literal : t.kind.isLiteral := ht ▸ isLiteral_of_literalKind? hk
    have notName : t.kind ≠ .identifier := ht ▸ ne_identifier_of_literalKind? hk
    exact .isExpression rfl (reads_finish (.literal t notName)
      (by simpa [Exact, Child.outline] using literal) (by simp))
  · split
    · exact .skip fun _ => .isExpression rfl (reads_finish (.bare (by simp)) trivial (by simp))
    · split
      · exact .isExpression rfl (reads_query he)
      · split
        · exact .bind .identifier fun name hn =>
            .isExpression rfl (reads_finish (.identifier hn) trivial (by simp))
        · split
          · refine .skip fun _ => .bind he fun inner hi => .skip fun _ => ?_
            exact .isExpression rfl <| reads_finish (.operand (by simp) hi.2) trivial
              (by simpa using hi.1)
          · split
            · refine .bind (.bracketed he _ _ fuel) fun es hes =>
                .isExpression rfl (reads_nodes ?_ trivial ?_)
              · exact .list (by simpa using fun n hn => (hes n hn).2)
              · exact fun n hn => (hes n hn).1
            · exact .fail _

include he in
theorem reads_suffixes (fuel at0 : Nat) {base : Node}
    (hb : IsRead base ∧ base.kind.isExpression) (more : Nat) :
    Reads (·.isExpression) (suffixes expr fuel at0 base more) := by
  induction more generalizing base with
  | zero => exact .tooDeep
  | succ more ih =>
    have next {kind : NodeKind} (hk : kind.isExpression) {children : List (Child Node)}
        (hr : Rule kind (children.map Child.outline))
        (hx : Exact kind (children.map Child.outline)) (hc : ∀ n, .node n ∈ children → IsRead n) :
        Reads (·.isExpression)
          (finish kind at0 children >>= fun n => suffixes expr fuel at0 n more) :=
      .bind (reads_finish hr hx hc) fun n hn => ih ⟨hn.1, by rw [hn.2]; exact hk⟩
    refine .skip fun dot => ?_
    split
    · refine .bind .identifier fun name hn => ?_
      exact next rfl (.memberAccess hb.2 hn) trivial (by simpa using hb.1)
    · refine .skip fun c => ?_
      split
      · refine .bind (.bracketed he _ _ fuel) fun es hes => next rfl ?_ trivial ?_
        · rw [outline_asNodes]
          exact .invocation (by simp) (by simpa using ⟨hb.2, fun n hn => (hes n hn).2⟩)
        · intro n hn
          rcases List.mem_cons.1 (mem_asNodes.1 hn) with rfl | hn
          · exact hb.1
          · exact (hes n hn).1
      · refine .skip fun bracket => ?_
        split
        · refine .bind he fun index hi => .skip fun _ => ?_
          exact next rfl (.elementAccess hb.2 hi.2) trivial (by simpa using ⟨hb.1, hi.1⟩)
        · refine .bind (.operator? _) fun operator ho => ?_
          split
          · next t =>
            exact next rfl (.step hb.2 (ne_identifier_of_operator (ho t rfl)))
              (by simpa [Exact, Child.outline] using ho t rfl) (by simpa using hb.1)
          · exact .pure hb

include he in
theorem reads_unary (fuel more : Nat) : Reads (·.isExpression) (unary expr fuel more) := by
  induction more with
  | zero => exact .tooDeep
  | succ more ih =>
    refine .skip fun at0 => .bind (.operator? _) fun operator ho => ?_
    split
    · next t =>
      refine .bind ih fun n hn => ?_
      exact .isExpression rfl (reads_finish (.unary (ne_identifier_of_operator (ho t rfl)) hn.2)
        (by simpa [Exact, Child.outline] using ho t rfl) (by simpa using hn.1))
    · refine .skip fun awaited => ?_
      split
      · refine .bind ih fun n hn => ?_
        exact .isExpression rfl (reads_finish (.operand (by simp) hn.2) trivial
          (by simpa using hn.1))
      · refine .skip fun c => ?_
        split
        · refine .skip fun _ => .bind (reads_typeName fuel) fun type ht => .skip fun _ => ?_
          refine .bind ih fun n hn => .isExpression rfl (reads_finish ?_ trivial
            (by simpa using ⟨ht.1, hn.1⟩))
          simpa [Child.outline, ht.2] using Rule.cast hn.2
        · exact .bind (reads_primary he fuel) fun base hb => reads_suffixes he fuel at0 hb fuel

theorem reads_binaryRest {operand : Parse Node} (ho : Reads (·.isExpression) operand)
    (operators : List String) (at0 : Nat) {left : Node}
    (hl : IsRead left ∧ left.kind.isExpression) (fuel : Nat) :
    Reads (·.isExpression) (binaryRest operand operators at0 left fuel) := by
  induction fuel generalizing left with
  | zero => exact .tooDeep
  | succ fuel ih =>
    refine .bind (.operator? operators) fun operator hop => ?_
    split
    · next t =>
      refine .bind ho fun right hr => ?_
      refine .bind (reads_finish
        (.operation (.inl rfl) hl.2 (ne_identifier_of_operator (hop t rfl)) hr.2)
        (by simpa [Exact, Child.outline] using hop t rfl) (by simpa using ⟨hl.1, hr.1⟩)) fun n hn => ?_
      exact ih ⟨hn.1, by rw [hn.2]; rfl⟩
    · exact .pure hl

theorem reads_binary {operand : Parse Node} (ho : Reads (·.isExpression) operand) (fuel : Nat)
    (levels : List (List String)) : Reads (·.isExpression) (binary operand fuel levels) := by
  induction levels with
  | nil => exact ho
  | cons operators tighter ih =>
    exact .skip fun at0 => .bind ih fun left hl => reads_binaryRest ih operators at0 hl fuel

include he in
theorem reads_conditional (fuel : Nat) : Reads (·.isExpression) (conditional expr fuel) := by
  refine .skip fun at0 => .bind (reads_binary (reads_unary he fuel fuel) fuel _) fun c hc => ?_
  refine .skip fun more => ?_
  split
  · refine .bind he fun t ht => .skip fun _ => .bind he fun f hf => ?_
    exact .isExpression rfl <| reads_nodes (.conditional hc.2 ht.2 hf.2) trivial
      (by simpa using ⟨hc.1, ht.1, hf.1⟩)
  · exact .pure hc

include he hs in
theorem reads_expression (fuel : Nat) : Reads (·.isExpression) (expression expr stmt fuel) := by
  refine .skip fun c => ?_
  split
  · exact .isExpression rfl (reads_lambda he hs fuel)
  · refine .bind (reads_conditional he fuel) fun target ht => ?_
    refine .bind (.operator? _) fun operator ho => ?_
    split
    · next t =>
      refine .bind he fun value hv => .isExpression rfl (reads_finish ?_
        (by simpa [Exact, Child.outline] using ho t rfl) (by simpa using ⟨ht.1, hv.1⟩))
      exact .operation (.inr rfl) ht.2 (ne_identifier_of_operator (ho t rfl)) hv.2
    · exact .pure ht

/-! ## Statements -/

include he in
theorem reads_declarator : Reads (· = .declarator) (declarator expr) := by
  refine .skip fun at0 => .bind .identifier fun name hn => .skip fun more => ?_
  split
  · exact .bind he fun value hv => reads_finish (.initialized hn hv.2) trivial
      (by simpa using hv.1)
  · exact reads_finish (.declarator hn) trivial (by simp)

include he in
theorem reads_declaration (fuel : Nat) : Reads (· = .localDeclaration) (declaration expr fuel) := by
  refine .skip fun at0 => .skip fun _ => .bind (.separated (reads_declarator he) fuel) fun ds hds => ?_
  exact reads_nodes (.localDeclaration (by simpa using fun n hn => (hds.1 n hn).2))
    (by simpa [Exact] using hds.2) fun n hn => (hds.1 n hn).1

include he in
theorem reads_parenthesizedCondition :
    Reads (·.isExpression) (parenthesizedCondition expr) :=
  .skip fun _ => .bind he fun _ hc => .skip fun _ => .pure hc

include he hs in
theorem reads_ifStatement : Reads (· = .ifStatement) (ifStatement expr stmt) := by
  refine .skip fun at0 => .skip fun _ => .bind (reads_parenthesizedCondition he) fun c hc => ?_
  refine .bind hs fun t ht => .skip fun elseAt => .skip fun more => ?_
  split
  · refine .bind hs fun f hf => ?_
    refine .bind (reads_finish (.elseClause hf.2) trivial (by simpa using hf.1)) ?_
    intro clause hclause
    refine reads_nodes ?_ trivial (by simpa using ⟨hc.1, ht.1, hclause.1⟩)
    simpa [hclause.2] using Rule.ifElse hc.2 ht.2
  · exact reads_nodes (.ifStatement hc.2 ht.2) trivial (by simpa using ⟨hc.1, ht.1⟩)

/-- `await` in front of a statement, or nothing. -/
def IsAwait (parts : List (Child Node)) : Prop :=
  parts = [] ∨ ∃ t : Token, t.kind = .awaitKeyword ∧ parts = [.token t]

include he hs in
theorem reads_forEachStatement (at0 : Nat) {await? : List (Child Node)} (ha : IsAwait await?) :
    Reads (· = .forEachStatement) (forEachStatement expr stmt at0 await?) := by
  refine .skip fun _ => .skip fun _ => .skip fun _ => .bind .identifier fun name hn => ?_
  refine .skip fun _ => .bind he fun source hsource => .skip fun _ => .bind hs fun body hb => ?_
  rcases ha with rfl | ⟨t, ht, rfl⟩
  · exact reads_finish (.forEachStatement hn hsource.2 hb.2) trivial
      (by simpa using ⟨hsource.1, hb.1⟩)
  · exact reads_finish (.awaitForEach ht hn hsource.2 hb.2) trivial
      (by simpa using ⟨hsource.1, hb.1⟩)

include he hs in
theorem reads_usingStatement (fuel at0 : Nat) {await? : List (Child Node)} (ha : IsAwait await?) :
    Reads (· = .usingStatement) (usingStatement expr stmt fuel at0 await?) := by
  refine .skip fun _ => .skip fun _ => .bind (reads_declaration he fuel) fun declared hd => ?_
  refine .skip fun _ => .bind hs fun body hb => ?_
  rcases ha with rfl | ⟨t, ht, rfl⟩
  · refine reads_finish ?_ trivial (by simpa using ⟨hd.1, hb.1⟩)
    simpa [Child.outline, hd.2] using Rule.usingStatement hb.2
  · refine reads_finish ?_ trivial (by simpa using ⟨hd.1, hb.1⟩)
    simpa [Child.outline, hd.2] using Rule.awaitUsing ht hb.2

theorem reads_emptyPart : Reads (· = .emptyStatement) emptyPart := by
  refine .skip fun at0 => .pure ⟨fun m hm => ?_, rfl⟩
  rcases Node.mem_preorder.1 hm with rfl | ⟨n, hn, -⟩
  · exact ⟨rfl, .bare (by simp), trivial⟩
  · cases hn

include he hs in
theorem reads_forStatement (fuel : Nat) : Reads (· = .forStatement) (forStatement expr stmt fuel) := by
  refine .skip fun at0 => .skip fun _ => .skip fun _ => .skip fun c => ?_
  -- a part that may be left out
  have part {closing : String} {k : Node → Parse Node}
      (hk : ∀ n, IsRead n → (n.kind = .emptyStatement ∨ n.kind.isExpression) →
        Reads (· = .forStatement) (k n)) :
      Reads (· = .forStatement) (do
        let n ← if (← get).atPunct closing then emptyPart else expr
        k n) := by
    refine .skip fun c => ?_
    split
    · exact .bind reads_emptyPart fun n hn => hk n hn.1 (.inl hn.2)
    · exact .bind he fun n hn => hk n hn.1 (.inr hn.2)
  have rest {first : Node} (hf : IsRead first) (hk : first.kind ∈
      [NodeKind.emptyStatement, .localDeclaration, .expressionStatement]) :
      Reads (· = .forStatement) (do
        expectPunct ";"
        let condition ← if (← get).atPunct ";" then emptyPart else expr
        expectPunct ";"
        let increment ← if (← get).atPunct ")" then emptyPart else expr
        expectPunct ")"
        let body ← stmt
        finish .forStatement at0 (asNodes [first, condition, increment, body])) := by
    refine .skip fun _ => part fun condition hc hck => .skip fun _ => part fun step hstep hsk => ?_
    refine .skip fun _ => .bind hs fun body hb => ?_
    have statement : first.kind.isStatement := by
      simp only [List.mem_cons, List.not_mem_nil, or_false] at hk
      rcases hk with hk | hk | hk <;> rw [hk] <;> rfl
    exact reads_nodes (.forStatement statement hck hsk hb.2) (by simpa [Exact] using hk)
      (by simpa using ⟨hf, hc, hstep, hb.1⟩)
  split
  · exact .bind reads_emptyPart fun n hn => rest hn.1 (by simp [hn.2])
  · split
    · exact .bind (reads_declaration he fuel) fun n hn => rest hn.1 (by simp [hn.2])
    · refine .bind he fun value hv => ?_
      exact .bind (reads_finish (.expressionStatement hv.2) trivial (by simpa using hv.1))
        fun n hn => rest hn.1 (by simp [hn.2])

include he hs in
theorem reads_switchSection (fuel : Nat) :
    Reads (· = .switchSection) (switchSection expr stmt fuel) := by
  refine .skip fun at0 => ?_
  refine .skip fun found => ?_
  split
  · refine .bind he fun label hl => .given (.skip fun _ => ?_)
    refine .bind (.itemsUntil hs _ fuel) fun ns hns => ?_
    refine reads_finish ?_ trivial fun n hn => ?_
    · rw [List.map_cons, outline_asNodes]
      exact .caseSection hl.2 (by simpa using fun n hn => (hns n hn).2)
    · rcases List.mem_cons.1 hn with hn | hn
      · cases hn
        exact hl.1
      · exact (hns n (mem_asNodes.1 hn)).1
  · refine .skip fun c => ?_
    split
    · refine .bind (.takeToken _) fun t ht => .given (.skip fun _ => ?_)
      refine .bind (.itemsUntil hs _ fuel) fun ns hns => reads_finish ?_ trivial ?_
      · rw [List.map_cons, outline_asNodes, Child.outline]
        exact .defaultSection ht (by simpa using fun n hn => (hns n hn).2)
      · intro n hn
        exact (hns n (mem_asNodes.1 (by simpa using hn))).1
    · exact .bind (.fail (P := fun _ => False) _) fun _ => False.elim

include he hs in
theorem reads_switchSections (fuel more : Nat) :
    Yields (fun ns => ∀ n ∈ ns, IsRead n ∧ n.kind = .switchSection)
      (switchSections expr stmt fuel more) := by
  induction more with
  | zero => exact .tooDeep
  | succ more ih =>
    refine .skip fun c => ?_
    split
    · exact .pure nofun
    · refine .bind (reads_switchSection he hs fuel) fun n hn => .bind ih fun ns hns => ?_
      exact .pure (by simpa using ⟨hn, hns⟩)

include he hs in
theorem reads_switchStatement (fuel : Nat) :
    Reads (· = .switchStatement) (switchStatement expr stmt fuel) := by
  refine .skip fun at0 => .skip fun _ => .bind (reads_parenthesizedCondition he) fun c hc => ?_
  refine .skip fun _ => .bind (reads_switchSections he hs fuel fuel) fun ns hns => .skip fun _ => ?_
  refine reads_nodes (.switchStatement hc.2 (by simpa using fun n hn => (hns n hn).2)) trivial ?_
  simpa using ⟨hc.1, fun n hn => (hns n hn).1⟩

include hs in
theorem reads_routine {kind : NodeKind} (hkind : kind = .template ∨ kind = .localFunction)
    (fuel at0 : Nat) : Reads (· = kind) (routine stmt kind fuel at0) := by
  refine .bind .identifier fun name hn => ?_
  refine .bind (.bracketed (reads_parameter fuel) _ _ fuel) fun ps hps => ?_
  refine .bind (reads_block hs fuel) fun body hb => reads_finish ?_ ?_ ?_
  · rw [List.map_cons, outline_asNodes, Child.outline, List.map_append, List.map_singleton, hb.2]
    exact .routine hkind hn (by simpa using fun n hn => (hps n hn).2)
  · rcases hkind with rfl | rfl <;> trivial
  · intro n hn
    have hn : n ∈ ps ++ [body] := mem_asNodes.1 (by simpa using hn)
    rcases List.mem_append.1 hn with hn | hn
    · exact (hps n hn).1
    · cases List.mem_singleton.1 hn
      exact hb.1

include he in
theorem reads_expressionStatement : Reads (· = .expressionStatement) (expressionStatement expr) :=
  .skip fun _ => .bind he fun _ hv => .skip fun _ =>
    reads_finish (.expressionStatement hv.2) trivial (by simpa using hv.1)

theorem reads_jump {kind : NodeKind} (hk : kind = .breakStatement ∨ kind = .continueStatement)
    (at0 : Nat) : Reads (· = kind) (jump kind at0) := by
  refine .skip fun _ => .skip fun _ => reads_finish (.bare ?_) ?_ (by simp) <;>
    rcases hk with rfl | rfl <;> simp [Exact]

include he hs in
/-- A subject in parentheses and a statement. -/
theorem reads_guarded {kind : NodeKind} (hk : kind = .whileStatement ∨ kind = .lockStatement)
    (at0 : Nat) : Reads (· = kind) (do
      let _ ← bump
      let subject ← parenthesizedCondition expr
      let body ← stmt
      finish kind at0 (asNodes [subject, body])) := by
  refine .skip fun _ => .bind (reads_parenthesizedCondition he) fun c hc => .bind hs fun b hb => ?_
  exact reads_nodes (.guarded hk hc.2 hb.2) (by rcases hk with rfl | rfl <;> trivial)
    (by simpa using ⟨hc.1, hb.1⟩)

include he hs in
theorem reads_keywordStatement (fuel at0 : Nat) (word : String) :
    Reads (·.isStatement) (keywordStatement expr stmt fuel at0 word) := by
  have evaluated := (reads_expressionStatement he).isStatement rfl
  unfold keywordStatement
  split
  · refine .bind (reads_declaration he fuel) fun declared hd => .skip fun _ => ?_
    have here := (hd.1 declared declared.mem_preorder_self).2
    rw [hd.2] at here
    exact .isStatement rfl (reads_finish here.1 here.2 fun n hn m hm =>
      hd.1 m (Node.preorder_subset (Node.mem_nodes.2 hn) hm))
  · exact (reads_ifStatement he hs).isStatement rfl
  · exact (reads_forEachStatement he hs at0 (.inl rfl)).isStatement rfl
  · exact (reads_usingStatement he hs fuel at0 (.inl rfl)).isStatement rfl
  · refine .skip fun c => ?_
    dsimp only
    split
    · exact .bind (.takeToken _) fun t ht =>
        (reads_forEachStatement he hs at0 (.inr ⟨t, ht, rfl⟩)).isStatement rfl
    · split
      · exact .bind (.takeToken _) fun t ht =>
          (reads_usingStatement he hs fuel at0 (.inr ⟨t, ht, rfl⟩)).isStatement rfl
      · exact evaluated
  · exact (reads_guarded he hs (.inl rfl) at0).isStatement rfl
  · refine .skip fun _ => .bind hs fun b hb => .skip fun _ => ?_
    refine .bind (reads_parenthesizedCondition he) fun c hc => .skip fun _ => ?_
    exact .isStatement rfl (reads_nodes (.doStatement hb.2 hc.2) trivial
      (by simpa using ⟨hb.1, hc.1⟩))
  · exact (reads_forStatement he hs fuel).isStatement rfl
  · refine .skip fun _ => .skip fun c => ?_
    split
    · exact .given (.skip fun _ => .isStatement rfl (reads_nodes .returnNothing trivial (by simp)))
    · refine .bind he fun value hv => .given (.skip fun _ => ?_)
      exact .isStatement rfl (reads_nodes (.returning (.inl rfl) hv.2) trivial
        (by simpa using hv.1))
  · exact (reads_jump (.inl rfl) at0).isStatement rfl
  · exact (reads_jump (.inr rfl) at0).isStatement rfl
  · refine .skip fun _ => .bind .identifier fun label hl => .skip fun _ => ?_
    exact .isStatement rfl (reads_finish (.gotoStatement hl) trivial (by simp))
  · exact (reads_switchStatement he hs fuel).isStatement rfl
  · exact (reads_guarded he hs (.inr rfl) at0).isStatement rfl
  · exact .skip fun _ => (reads_routine hs (.inr rfl) fuel at0).isStatement rfl
  · refine .skip fun _ => .skip fun more => ?_
    split
    · refine .bind he fun value hv => .skip fun _ => ?_
      exact .isStatement rfl (reads_finish (.returning (.inr rfl) hv.2) trivial
        (by simpa using hv.1))
    · exact .skip fun _ => .skip fun _ =>
        .isStatement rfl (reads_finish (.bare (by simp)) trivial (by simp))
  · exact evaluated

include he hs in
theorem reads_statement (fuel : Nat) : Reads (·.isStatement) (statement expr stmt fuel) := by
  refine .skip fun c => ?_
  split
  · exact (reads_block hs fuel).isStatement rfl
  · refine .skip fun semicolon => ?_
    split
    · exact .isStatement rfl (reads_finish (.bare (by simp)) trivial (by simp))
    · split
      · exact reads_keywordStatement he hs fuel _ _
      · exact (reads_expressionStatement he).isStatement rfl

end

end Grammar

/-! ## Whole texts -/

theorem reads_code (fuel : Nat) :
    Reads (·.isExpression) (expression fuel) ∧ Reads (·.isStatement) (statement fuel) := by
  induction fuel with
  | zero => exact ⟨.tooDeep, .tooDeep⟩
  | succ fuel ih =>
    rw [expression, statement]
    exact ⟨Grammar.reads_expression ih.1 ih.2 fuel, Grammar.reads_statement ih.1 ih.2 fuel⟩

theorem reads_templates (fuel more : Nat) :
    Yields (fun ns => ∀ n ∈ ns, IsRead n ∧ n.kind = .template) (templates fuel more) := by
  induction more with
  | zero => exact .tooDeep
  | succ more ih =>
    refine .skip fun c => ?_
    split
    · exact .pure nofun
    · refine .bind (.skip fun at0 => .skip fun _ =>
        Grammar.reads_routine (reads_code fuel).2 (.inl rfl) fuel at0) fun n hn => ?_
      exact .bind ih fun ns hns => .pure (by simpa using ⟨hn, hns⟩)

/-- A text that parses gives a tree that follows the grammar and carries no marks. -/
theorem isRead_parseUnit {text : String} {n : Node} (h : parseUnit text = .ok n) :
    IsRead n ∧ n.kind = .compilationUnit := by
  unfold parseUnit parseWith at h
  cases hl : lexemes text with
  | error e => rw [hl] at h; cases h
  | ok ls =>
    rw [hl] at h
    cases hp : (templates (2 * ls.length + 4) (2 * ls.length + 4)).run
        ⟨ls, text.utf8ByteSize, 0⟩ with
    | error e => simp only [bind, Except.bind, hp] at h; cases h
    | ok r =>
      have all := reads_templates _ _ _ r.1 r.2 hp
      simp only [bind, Except.bind, hp] at h
      cases h
      refine ⟨fun m hm => ?_, rfl⟩
      rcases Node.mem_preorder.1 hm with rfl | ⟨t, ht, hm⟩
      · refine ⟨rfl, ?_, trivial⟩
        change Rule _ ((Grammar.asNodes r.1).map Child.outline)
        rw [outline_asNodes]
        exact .compilationUnit (by simpa using fun n hn => (all n hn).2)
      · exact (all t (mem_asNodes.1 (Node.mem_nodes.1 ht))).1 m hm

end Stencil.Source
