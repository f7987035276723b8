import Stencil.Proofs.Source.Portable

/-!
# Precedence in trees that were read

Six levels of binary operators stand between a whole expression and an operand, and the productions
that read them call each other only from looser to tighter ones, except inside brackets and at the
tails that reach as far as they can. So what a production returns says how loosely its root binds:
`FitsLevel` for the binary levels, `IsOperand` for what stands below all of them. A printer may
rely on that, as it puts no parentheses around nested binary expressions.

The same walk over the productions finds that identifiers in the tree are names of the language.

Results:

* `proper_suffixes`, `proper_binary`, `proper_expression` – what the levels return;
* `proper_statement` – one lemma for each production, closed by induction on the fuel;
* `precedence_respected` – the trees of whole texts.
-/
namespace Stencil.Source

open Grammar

/-! ## Levels -/

/-- The level of a binary operator, loosest first. -/
def levelOf? (operator : String) : Option Nat := binaryLevels.findIdx? (·.contains operator)

/-- The level of a binary expression. -/
def level? (n : Node) : Option Nat :=
  if n.kind = .binary then n.token?.bind (levelOf? ·.text) else none

/-- Expressions that take in all that follows them. -/
def isLoose (k : NodeKind) : Bool := k == .conditional || k == .assignment || k == .lambda

/-- Which child node binds more tightly than any binary expression. -/
def operandAt? : NodeKind → Option Nat
  | .unary | .await | .memberAccess | .elementAccess | .invocation | .step => some 0
  | .cast => some 1
  | _ => none

/-- The node may stand where binary expressions of `level` or tighter ones may. -/
structure FitsLevel (level : Nat) (n : Node) : Prop where
  firm : isLoose n.kind = false
  level : n.kind = .binary → ∃ own, level? n = some own ∧ level ≤ own

/-- The node may stand where no binary expression may. -/
structure IsOperand (n : Node) : Prop where
  firm : isLoose n.kind = false
  single : n.kind ≠ .binary

/-- The operands of the node bind as tightly as they have to. -/
structure KeepsPrecedence (n : Node) : Prop where
  binary : n.kind = .binary → ∃ left operator right level,
    n.children = [.node left, .token operator, .node right] ∧
      levelOf? operator.text = some level ∧ FitsLevel level left ∧ FitsLevel (level + 1) right
  operand : ∀ i, operandAt? n.kind = some i → ∃ m, n.node? i = some m ∧ IsOperand m

/-- The node keeps precedence, and its identifiers are names. -/
structure Proper (n : Node) : Prop extends KeepsPrecedence n where
  names : ∀ t ∈ n.tokens, t.kind = .identifier → IsName t.text

/-- The node and all below it are proper. -/
def IsProper (n : Node) : Prop := ∀ m ∈ n.preorder, Proper m

theorem IsOperand.fits {n : Node} (h : IsOperand n) (level : Nat) : FitsLevel level n :=
  ⟨h.firm, fun hk => absurd hk h.single⟩

theorem FitsLevel.mono {n : Node} {level level' : Nat} (h : FitsLevel level n)
    (hle : level' ≤ level) : FitsLevel level' n := by
  refine ⟨h.firm, fun hk => ?_⟩
  obtain ⟨own, hown, le⟩ := h.level hk
  exact ⟨own, hown, Nat.le_trans hle le⟩

theorem levelOf?_of_mem {outer tighter : List (List String)} {operators : List String}
    (h : outer ++ operators :: tighter = binaryLevels) {operator : String}
    (ho : operator ∈ operators) : levelOf? operator = some outer.length := by
  have each : ∀ i, ∀ hi : i < binaryLevels.length, ∀ s ∈ binaryLevels[i], levelOf? s = some i := by
    decide
  have here : binaryLevels[outer.length]? = some operators := by simp [← h]
  obtain ⟨hi, hget⟩ := List.getElem?_eq_some_iff.1 here
  exact each _ hi _ (hget ▸ ho)

/-! ## Parsers from words of a scanner -/

namespace Brings

variable {α β : Type} {P : α → Prop} {Q : β → Prop}

theorem bind {p : Parse α} {k : α → Parse β} (h : Brings P p) (hk : ∀ a, P a → Brings Q (k a)) :
    Brings Q (p >>= k) :=
  fun c => .bind ((h c).mono fun a c' ha => hk a ha c')

theorem pure {a : α} (h : P a) : Brings P (Pure.pure a) := fun _ => .pure h

theorem given {a : α} {k : α → Parse β} (h : Brings Q (k a)) : Brings Q (Pure.pure a >>= k) := by
  rwa [pure_bind]

theorem mono {P' : α → Prop} {p : Parse α} (h : Brings P p) (hP : ∀ a, P a → P' a) : Brings P' p :=
  fun c => (h c).mono fun a _ => hP a

theorem fail (what : Expectation) : Brings P (Parse.fail what) := fun _ => .fail what

theorem tooDeep : Brings P Parse.tooDeep := fun _ => .tooDeep

theorem get {k : Cursor → Parse β} (hk : ∀ c, Brings Q (k c)) : Brings Q (get >>= k) :=
  fun c => .get (hk c c)

theorem start {k : Nat → Parse β} (hk : ∀ at0, Brings Q (k at0)) : Brings Q (Parse.start >>= k) :=
  fun c => .start (hk _ c)

theorem bump {k : Lexeme → Parse β} (hk : ∀ l, Brings Q (k l)) : Brings Q (Parse.bump >>= k) := by
  refine fun c => .bind ?_
  intro hc l c' hr
  cases hr
  refine ⟨fun w hw => ?_, hk _ _⟩
  obtain ⟨_ | ⟨l, rest⟩, length, lastEnd⟩ := c
  · exact hc w hw
  · exact hc w (List.mem_cons_of_mem _ hw)

theorem eatPunct {s : String} {k : Bool → Parse β} (hk : ∀ b, Brings Q (k b)) :
    Brings Q (Parse.eatPunct s >>= k) :=
  fun c => .eatPunct (fun c' _ => hk true c') fun _ => hk false c

theorem eatWord {s : String} {k : Bool → Parse β} (hk : ∀ b, Brings Q (k b)) :
    Brings Q (Parse.eatWord s >>= k) :=
  fun c => .eatWord (fun c' _ => hk true c') fun _ => hk false c

theorem expectPunct {s : String} {k : Unit → Parse β} (hk : Brings Q (k ())) :
    Brings Q (Parse.expectPunct s >>= k) :=
  fun _ => .expectPunct fun c' _ => hk c'

theorem expectWord {s : String} {k : Unit → Parse β} (hk : Brings Q (k ())) :
    Brings Q (Parse.expectWord s >>= k) :=
  fun _ => .expectWord fun c' _ => hk c'

theorem expectEnd {k : Unit → Parse β} (hk : Brings Q (k ())) :
    Brings Q (Parse.expectEnd >>= k) := by
  refine bind (P := fun _ => True) (get fun c => ?_) fun _ _ => hk
  split
  · exact pure trivial
  · exact fail _

theorem takeToken {kind : TokenKind} {k : Token → Parse β}
    (hk : ∀ t, t.kind = kind → Brings Q (k t)) : Brings Q (Parse.takeToken kind >>= k) := by
  rw [Parse.takeToken, bind_assoc]
  exact bump fun l => given (hk _ rfl)

theorem identifier {k : Token → Parse β}
    (hk : ∀ t, t.kind = .identifier → IsName t.text → Brings Q (k t)) :
    Brings Q (Parse.identifier >>= k) :=
  fun _ => .identifier fun t c' _ kind plain genuine => hk t kind ⟨genuine, plain⟩ c'

theorem operator? {texts : List String} {k : Option Token → Parse β}
    (known : ∀ s ∈ texts, (TokenKind.ofOperator? s).isSome = true)
    (hit : ∀ t, t.text ∈ texts → t.kind ≠ .identifier → Brings Q (k (some t)))
    (miss : Brings Q (k none)) : Brings Q (Parse.operator? texts >>= k) :=
  fun c => .operator? known
    (fun t c' _ mem kind => hit t mem (ne_identifier_of_ofOperator? kind) c')
    fun _ => miss c

end Brings

/-- A finished node is proper if it keeps precedence and its children are in order. -/
theorem proper_node {kind : NodeKind} {at0 : Nat} {children : List (Child Node)}
    (levels : ∀ span, KeepsPrecedence ⟨0, kind, span, [], children⟩)
    (names : ∀ t, .token t ∈ children → t.kind = .identifier → IsName t.text)
    (nodes : ∀ n, .node n ∈ children → IsProper n) :
    Brings (fun n => IsProper n ∧ n.kind = kind ∧ n.children = children)
      (Parse.finish kind at0 children) := by
  refine fun c => .finish ⟨fun m hm => ?_, rfl, rfl⟩
  rcases Node.mem_preorder.1 hm with rfl | ⟨n, hn, hm⟩
  · refine ⟨levels _, fun t ht => names t ?_⟩
    obtain ⟨child, hc, ht⟩ := List.mem_filterMap.1 ht
    cases child with
    | token t' => cases ht; exact hc
    | node m => cases ht
  · exact nodes n (Node.mem_nodes.1 hn) m hm

/-- A node whose kind asks nothing of its operands. -/
theorem proper_plain {kind : NodeKind} {at0 : Nat} {children : List (Child Node)}
    (hb : kind ≠ .binary) (ho : operandAt? kind = none)
    (names : ∀ t, .token t ∈ children → t.kind = .identifier → IsName t.text)
    (nodes : ∀ n, .node n ∈ children → IsProper n) :
    Brings (fun n => IsProper n ∧ n.kind = kind) (Parse.finish kind at0 children) :=
  (proper_node (fun _ => ⟨fun h => absurd h hb, fun i hi => by cases ho.symm.trans hi⟩) names
    nodes).mono fun _ h => ⟨h.1, h.2.1⟩

/-- The kind of what was read may be forgotten. -/
theorem Brings.proper {p : Parse Node} {kind : NodeKind}
    (h : Brings (fun n => IsProper n ∧ n.kind = kind) p) : Brings IsProper p :=
  h.mono fun _ hn => hn.1

/-- A plain node over nodes. -/
theorem proper_nodes {kind : NodeKind} {at0 : Nat} {ns : List Node} (hb : kind ≠ .binary)
    (ho : operandAt? kind = none) (nodes : ∀ n ∈ ns, IsProper n) :
    Brings (fun n => IsProper n ∧ n.kind = kind) (Parse.finish kind at0 (asNodes ns)) :=
  proper_plain hb ho (by simp [asNodes]) fun n hn => nodes n (mem_asNodes.1 hn)

/-- A node whose first or second child node is an operand. -/
theorem proper_operation {kind : NodeKind} {at0 i : Nat} {children : List (Child Node)} {m : Node}
    (hb : kind ≠ .binary) (hi : operandAt? kind = some i)
    (hm : (children.filterMap Child.node?)[i]? = some m) (operand : IsOperand m)
    (names : ∀ t, .token t ∈ children → t.kind = .identifier → IsName t.text)
    (nodes : ∀ n, .node n ∈ children → IsProper n) :
    Brings (fun n => IsProper n ∧ n.kind = kind) (Parse.finish kind at0 children) := by
  refine (proper_node (fun _ => ⟨fun h => absurd h hb, fun j hj => ⟨m, ?_, operand⟩⟩) names
    nodes).mono fun _ h => ⟨h.1, h.2.1⟩
  cases hi.symm.trans hj
  exact hm

/-! ## Names, types and parameters -/

open Parse

theorem proper_typeName (fuel : Nat) : Brings IsProper (typeName fuel) := by
  refine .start fun at0 => .bind (P := fun _ => True) (fun c => ?_) fun text _ => .get fun c => ?_
  · exact (couples_typeText fuel c).mono fun _ _ _ => trivial
  · exact .proper (proper_plain (by simp) rfl (by simp) (by simp))

theorem proper_parameter (fuel : Nat) : Brings IsProper (parameter fuel) := by
  refine .get fun c => ?_
  split
  · refine .bind (proper_typeName fuel) fun type ht => .identifier fun name hk hn => ?_
    exact .proper (proper_plain (by simp) rfl (by simpa using fun _ => hn) (by simpa using ht))
  · refine .identifier fun name hk hn => ?_
    exact .proper (proper_plain (by simp) rfl (by simpa using fun _ => hn) (by simp))

theorem proper_lambdaNames (fuel : Nat) :
    Brings (fun ns => ∀ n ∈ ns, IsProper n) (lambdaNames fuel) := by
  induction fuel with
  | zero => exact .tooDeep
  | succ fuel ih =>
    refine .get fun c => ?_
    split
    · exact .pure nofun
    · refine .identifier fun name hk hn => .bind (proper_plain (by simp) rfl
        (by simpa using fun _ => hn) (by simp)) fun p hp => .eatPunct fun more => ?_
      split
      · exact .bind ih fun ps hps => .pure (by simpa using ⟨hp.1, hps⟩)
      · exact .pure (by simpa using hp.1)

/-! ## Expressions -/

section

variable {expr stmt : Parse Node} (he : Brings IsProper expr) (hs : Brings IsProper stmt)

include hs in
theorem proper_block (fuel : Nat) : Brings IsProper (block stmt fuel) := by
  refine .start fun at0 => .expectPunct ?_
  refine .bind (.itemsUntil hs _ fuel) fun ns hns => .expectPunct ?_
  exact .proper (proper_nodes (by simp) rfl hns)

include he hs in
theorem proper_lambda (fuel : Nat) : Brings IsProper (lambda expr stmt fuel) := by
  refine .start fun at0 => ?_
  have body (ps : List Node) (hps : ∀ n ∈ ps, IsProper n) :
      Brings IsProper (do
        expectPunct "=>"
        let body ← if (← get).atPunct openBrace then block stmt fuel else expr
        finish .lambda at0 (asNodes (ps ++ [body]))) := by
    have finished (b : Node) (hb : IsProper b) :
        Brings IsProper (finish .lambda at0 (asNodes (ps ++ [b]))) := by
      refine .proper (proper_nodes (by simp) rfl ?_)
      simpa [or_imp, forall_and] using ⟨hps, hb⟩
    refine .expectPunct (.get fun c => ?_)
    split
    · exact .bind (proper_block hs fuel) finished
    · exact .bind he finished
  refine .eatPunct fun more => ?_
  split
  · exact .bind (proper_lambdaNames fuel) fun ps hps => .expectPunct (body ps hps)
  · refine .identifier fun name hk hn => ?_
    refine .bind (proper_plain (by simp) rfl (by simpa using fun _ => hn) (by simp)) fun p hp => ?_
    exact body [p] (by simpa using hp.1)

include he in
/-- The rest of a query reaches as far as its last expression does. -/
theorem proper_query : Brings (fun n => IsProper n ∧ n.kind = .query) (query expr) := by
  refine .start fun at0 => .expectWord (.identifier fun name hk hn => .expectWord ?_)
  refine .bind he fun source hsource => .start fun whereAt => ?_
  have rest (filters : List Node) (hf : ∀ n ∈ filters, IsProper n) :
      Brings (fun n => IsProper n ∧ n.kind = .query) (do
        let selectAt ← start
        expectWord "select"
        let selection ← expr
        let select ← finish .selectClause selectAt [.node selection]
        finish .query at0 (.token name :: asNodes (source :: filters ++ [select]))) := by
    refine .start fun selectAt => .expectWord (.bind he fun selection hsel => ?_)
    refine .bind (proper_plain (by simp) rfl (by simp) (by simpa using hsel)) fun select ht => ?_
    have clauses : ∀ n ∈ source :: filters ++ [select], IsProper n := by
      simpa [or_imp, forall_and] using ⟨hsource, hf, ht.1⟩
    refine proper_plain (by simp) rfl (by simpa [asNodes] using fun _ => hn) fun n hmem => ?_
    exact clauses n (mem_asNodes.1 (by simpa using hmem))
  refine .eatWord fun more => ?_
  split
  · refine .bind he fun condition hc => ?_
    refine .bind (proper_plain (by simp) rfl (by simp) (by simpa using hc)) fun f hf => ?_
    exact rest [f] (by simpa using hf.1)
  · exact rest [] (by simp)

/-- What a production below the binary levels returns. -/
abbrev BringsOperand (p : Parse Node) : Prop := Brings (fun n => IsProper n ∧ IsOperand n) p

/-- Nodes of most kinds are operands. -/
theorem Brings.operand {p : Parse Node} {kind : NodeKind}
    (h : Brings (fun n => IsProper n ∧ n.kind = kind) p) (firm : isLoose kind = false)
    (single : kind ≠ .binary) : BringsOperand p :=
  h.mono fun _ ⟨hn, hk⟩ => ⟨hn, hk ▸ firm, hk ▸ single⟩

include he in
theorem proper_primary (fuel : Nat) : BringsOperand (primary expr fuel) := by
  refine .get fun c => ?_
  dsimp only
  split
  · next kind hkind =>
    refine .takeToken fun t ht => .operand (proper_plain (by simp) rfl ?_ (by simp)) rfl (by simp)
    rintro _ hmem hid
    cases List.mem_singleton.1 hmem
    exact absurd (ht.symm.trans hid) (ne_identifier_of_literalKind? hkind)
  split
  · exact .bump fun _ => .operand (proper_plain (by simp) rfl (by simp) (by simp)) rfl (by simp)
  split
  · exact (proper_query he).operand rfl (by simp)
  split
  · exact .identifier fun t hk hn =>
      .operand (proper_plain (by simp) rfl (by simpa using fun _ => hn) (by simp)) rfl (by simp)
  split
  · refine .bump fun _ => .bind he fun inner hi => .expectPunct ?_
    exact .operand (proper_plain (by simp) rfl (by simp) (by simpa using hi)) rfl (by simp)
  split
  · exact .bind (.bracketed he _ _ fuel) fun es hes =>
      .operand (proper_nodes (by simp) rfl hes) rfl (by simp)
  · exact .fail _

include he in
/-- Whatever follows an operand makes an operand of it. -/
theorem proper_suffixes (fuel at0 : Nat) {base : Node} (hb : IsProper base)
    (operand : IsOperand base) (more : Nat) : BringsOperand (suffixes expr fuel at0 base more) := by
  induction more generalizing base with
  | zero => exact .tooDeep
  | succ more ih =>
    have next {kind : NodeKind} (hk : operandAt? kind = some 0) (firm : isLoose kind = false)
        (single : kind ≠ .binary) {children : List (Child Node)}
        (names : ∀ t, .token t ∈ children → t.kind = .identifier → IsName t.text)
        (nodes : ∀ n, .node n ∈ children → IsProper n) :
        BringsOperand (finish kind at0 (.node base :: children) >>= fun n =>
          suffixes expr fuel at0 n more) := by
      refine .bind (proper_operation single hk rfl operand (by simpa using names) ?_) fun n hn =>
        ih hn.1 ⟨hn.2 ▸ firm, hn.2 ▸ single⟩
      simpa using ⟨hb, nodes⟩
    refine .eatPunct fun dot => ?_
    split
    · exact .identifier fun name hk hn =>
        next rfl rfl (by simp) (by simpa using fun _ => hn) (by simp)
    refine .get fun c => ?_
    split
    · exact .bind (.bracketed he _ _ fuel) fun es hes =>
        next rfl rfl (by simp) (by simp) fun n hn => hes n (mem_asNodes.1 hn)
    refine .eatPunct fun bracket => ?_
    split
    · exact .bind he fun index hi => .expectPunct
        (next rfl rfl (by simp) (by simp) (by simpa using hi))
    · refine .operator? (by decide) (fun t _ hk => ?_) (.pure ⟨hb, operand⟩)
      exact next rfl rfl (by simp) (by simpa using fun h => absurd h hk) (by simp)

include he in
theorem proper_unary (fuel more : Nat) : BringsOperand (unary expr fuel more) := by
  induction more with
  | zero => exact .tooDeep
  | succ more ih =>
    refine .start fun at0 => .operator? (by decide) (fun t _ hk => ?_) (.eatWord fun awaited => ?_)
    · refine .bind ih fun n hn => ?_
      refine .operand (proper_operation (by simp) rfl rfl hn.2 ?_ ?_) rfl (by simp)
      · simpa using fun h => absurd h hk
      · simpa using hn.1
    split
    · exact .bind ih fun n hn => .operand (proper_operation (by simp) rfl rfl hn.2 (by simp)
        (by simpa using hn.1)) rfl (by simp)
    refine .get fun c => ?_
    split
    · refine .bump fun _ => .bind (proper_typeName fuel) fun type ht => .expectPunct ?_
      exact .bind ih fun n hn => .operand (proper_operation (by simp) rfl rfl hn.2 (by simp)
        (by simpa using ⟨ht, hn.1⟩)) rfl (by simp)
    · exact .bind (proper_primary he fuel) fun base hb => proper_suffixes he fuel at0 hb.1 hb.2 fuel

/-- What the binary production of a level returns. -/
abbrev BringsLevel (level : Nat) (p : Parse Node) : Prop :=
  Brings (fun n => IsProper n ∧ FitsLevel level n) p

/-- The operands so far make an expression of the level of their operator. -/
theorem proper_binaryRest {operand : Parse Node} {outer tighter : List (List String)}
    {operators : List String} (hlevels : outer ++ operators :: tighter = binaryLevels)
    (ho : BringsLevel (outer.length + 1) operand) (at0 : Nat) {left : Node} (hl : IsProper left)
    (fits : FitsLevel outer.length left) (fuel : Nat) :
    BringsLevel outer.length (binaryRest operand operators at0 left fuel) := by
  have known : ∀ ops ∈ binaryLevels, ∀ s ∈ ops, (TokenKind.ofOperator? s).isSome = true := by decide
  induction fuel generalizing left with
  | zero => exact .tooDeep
  | succ fuel ih =>
    refine .operator? (known operators (by simp [← hlevels])) (fun t hmem hk => ?_)
      (.pure ⟨hl, fits⟩)
    have here := levelOf?_of_mem hlevels hmem
    refine .bind ho fun right hr => ?_
    refine .bind (proper_node (fun span => ⟨fun _ => ?_, nofun⟩) ?_ ?_) fun n hn => ih hn.1 ?_
    · exact ⟨left, t, right, outer.length, rfl, here, fits, hr.2⟩
    · simpa using fun h => absurd h hk
    · simpa using ⟨hl, hr.1⟩
    · obtain ⟨-, kind, children⟩ := hn
      refine ⟨by rw [kind]; rfl, fun _ => ⟨outer.length, ?_, Nat.le_refl _⟩⟩
      rw [level?, if_pos kind, Node.token?, Node.tokens, children]
      exact here

theorem proper_binary {operand : Parse Node} (ho : BringsOperand operand) (fuel : Nat)
    {outer levels : List (List String)} (hlevels : outer ++ levels = binaryLevels) :
    BringsLevel outer.length (binary operand fuel levels) := by
  induction levels generalizing outer with
  | nil => exact ho.mono fun n hn => ⟨hn.1, hn.2.fits _⟩
  | cons operators tighter ih =>
    have below : BringsLevel (outer.length + 1) (binary operand fuel tighter) := by
      have tight : BringsLevel (outer ++ [operators]).length (binary operand fuel tighter) :=
        ih (by simpa using hlevels)
      simpa using tight
    refine .start fun at0 => .bind below fun left hl => ?_
    exact proper_binaryRest hlevels below at0 hl.1 (hl.2.mono (Nat.le_succ _)) fuel

include he in
theorem proper_conditional (fuel : Nat) : Brings IsProper (conditional expr fuel) := by
  refine .start fun at0 => ?_
  refine .bind (proper_binary (proper_unary he fuel fuel) fuel (List.nil_append _)) fun c hc => ?_
  refine .eatPunct fun more => ?_
  split
  · refine .bind he fun t ht => .expectPunct (.bind he fun f hf => ?_)
    exact .proper (proper_nodes (by simp) rfl (by simpa using ⟨hc.1, ht, hf⟩))
  · exact .pure hc.1

include he hs in
theorem proper_expression (fuel : Nat) : Brings IsProper (Grammar.expression expr stmt fuel) := by
  refine .get fun c => ?_
  split
  · exact proper_lambda he hs fuel
  · refine .bind (proper_conditional he fuel) fun target ht => ?_
    refine .operator? (by decide) (fun t _ hk => .bind he fun value hv => ?_) (.pure ht)
    exact .proper (proper_plain (by simp) rfl (by simpa using fun h => absurd h hk)
      (by simpa using ⟨ht, hv⟩))

/-! ## Statements -/

include he in
theorem proper_declarator : Brings IsProper (declarator expr) := by
  refine .start fun at0 => .identifier fun name hk hn => .eatPunct fun more => ?_
  split
  · refine .bind he fun value hv => ?_
    exact .proper (proper_plain (by simp) rfl (by simpa using fun _ => hn) (by simpa using hv))
  · exact .proper (proper_plain (by simp) rfl (by simpa using fun _ => hn) (by simp))

include he in
theorem proper_declaration (fuel : Nat) : Brings IsProper (declaration expr fuel) := by
  refine .start fun at0 => .expectWord ?_
  refine .bind (.separated (proper_declarator he) fuel) fun ds hds => ?_
  exact .proper (proper_nodes (by simp) rfl hds)

include he in
theorem proper_parenthesizedCondition : Brings IsProper (parenthesizedCondition expr) :=
  .expectPunct (.bind he fun _ hc => .expectPunct (.pure hc))

include he hs in
theorem proper_ifStatement : Brings IsProper (ifStatement expr stmt) := by
  refine .start fun at0 => .expectWord (.bind (proper_parenthesizedCondition he) fun c hc => ?_)
  refine .bind hs fun t ht => .start fun elseAt => .eatWord fun more => ?_
  split
  · refine .bind hs fun f hf => ?_
    refine .bind (proper_plain (by simp) rfl (by simp) (by simpa using hf)) fun clause hclause => ?_
    exact .proper (proper_nodes (by simp) rfl (by simpa using ⟨hc, ht, hclause.1⟩))
  · exact .proper (proper_nodes (by simp) rfl (by simpa using ⟨hc, ht⟩))

include he hs in
theorem proper_forEachStatement (at0 : Nat) {await? : List (Child Node)} (ha : IsAwait await?) :
    Brings IsProper (forEachStatement expr stmt at0 await?) := by
  refine .expectWord (.expectPunct (.expectWord (.identifier fun name hk hn => .expectWord ?_)))
  refine .bind he fun source hsource => .expectPunct (.bind hs fun body hb => ?_)
  rcases ha with rfl | ⟨t, ht, rfl⟩
  · exact .proper (proper_plain (by simp) rfl (by simpa using fun _ => hn)
      (by simpa using ⟨hsource, hb⟩))
  · exact .proper (proper_plain (by simp) rfl (by simpa [ht] using fun _ => hn)
      (by simpa using ⟨hsource, hb⟩))

include he hs in
theorem proper_usingStatement (fuel at0 : Nat) {await? : List (Child Node)} (ha : IsAwait await?) :
    Brings IsProper (usingStatement expr stmt fuel at0 await?) := by
  refine .expectWord (.expectPunct (.bind (proper_declaration he fuel) fun declared hd => ?_))
  refine .expectPunct (.bind hs fun body hb => ?_)
  rcases ha with rfl | ⟨t, ht, rfl⟩
  · exact .proper (proper_plain (by simp) rfl (by simp) (by simpa using ⟨hd, hb⟩))
  · exact .proper (proper_plain (by simp) rfl (by simp [ht]) (by simpa using ⟨hd, hb⟩))

theorem proper_emptyPart : Brings IsProper emptyPart := by
  refine .start fun at0 => .pure fun m hm => ?_
  rcases Node.mem_preorder.1 hm with rfl | ⟨n, hn, -⟩
  · exact ⟨⟨nofun, nofun⟩, nofun⟩
  · cases hn

include he hs in
theorem proper_forStatement (fuel : Nat) : Brings IsProper (forStatement expr stmt fuel) := by
  refine .start fun at0 => .expectWord (.expectPunct (.get fun c => ?_))
  -- a part that may be left out
  have part {closing : String} {k : Node → Parse Node}
      (hk : ∀ n, IsProper n → Brings IsProper (k n)) :
      Brings IsProper (do
        let n ← if (← get).atPunct closing then emptyPart else expr
        k n) := by
    refine .get fun c => ?_
    split
    · exact .bind proper_emptyPart hk
    · exact .bind he hk
  have rest (first : Node) (hf : IsProper first) : Brings IsProper (do
      expectPunct ";"
      let condition ← if (← get).atPunct ";" then emptyPart else expr
      expectPunct ";"
      let increment ← if (← get).atPunct ")" then emptyPart else expr
      expectPunct ")"
      let body ← stmt
      finish .forStatement at0 (asNodes [first, condition, increment, body])) := by
    refine .expectPunct (part fun condition hc => .expectPunct (part fun step hstep => ?_))
    refine .expectPunct (.bind hs fun body hb => ?_)
    exact .proper (proper_nodes (by simp) rfl (by simpa using ⟨hf, hc, hstep, hb⟩))
  split
  · exact .bind proper_emptyPart rest
  split
  · exact .bind (proper_declaration he fuel) rest
  · refine .bind he fun value hv => ?_
    exact .bind (.proper (proper_plain (by simp) rfl (by simp) (by simpa using hv))) rest

include he hs in
theorem proper_switchSection (fuel : Nat) : Brings IsProper (switchSection expr stmt fuel) := by
  refine .start fun at0 => ?_
  have rest (label : Child Node)
      (names : ∀ t, label = .token t → t.kind = .identifier → IsName t.text)
      (nodes : ∀ n, label = .node n → IsProper n) (atNext : Cursor → Bool) : Brings IsProper (do
        expectPunct ":"
        let statements ← itemsUntil atNext stmt fuel
        finish .switchSection at0 (label :: asNodes statements)) := by
    refine .expectPunct (.bind (.itemsUntil hs _ fuel) fun ns hns => ?_)
    refine .proper (proper_plain (by simp) rfl (fun t ht => ?_) fun n hn => ?_)
    · rcases List.mem_cons.1 ht with ht | ht
      · exact names t ht.symm
      · simp [asNodes] at ht
    · rcases List.mem_cons.1 hn with hn | hn
      · exact nodes n hn.symm
      · exact hns n (mem_asNodes.1 hn)
  refine .eatWord fun found => ?_
  split
  · exact .bind he fun label hl => .given (rest _ (by simp) (by simpa using hl) _)
  refine .get fun c => ?_
  split
  · exact .takeToken fun t ht => .given (rest _ (by simp [ht]) (by simp) _)
  · exact .bind (.fail (P := fun _ => False) _) fun _ => False.elim

include he hs in
theorem proper_switchSections (fuel more : Nat) :
    Brings (fun ns => ∀ n ∈ ns, IsProper n) (switchSections expr stmt fuel more) := by
  induction more with
  | zero => exact .tooDeep
  | succ more ih =>
    refine .get fun c => ?_
    split
    · exact .pure nofun
    · exact .bind (proper_switchSection he hs fuel) fun n hn => .bind ih fun ns hns =>
        .pure (by simpa using ⟨hn, hns⟩)

include he hs in
theorem proper_switchStatement (fuel : Nat) : Brings IsProper (switchStatement expr stmt fuel) := by
  refine .start fun at0 => .expectWord (.bind (proper_parenthesizedCondition he) fun c hc => ?_)
  refine .expectPunct (.bind (proper_switchSections he hs fuel fuel) fun ns hns => .expectPunct ?_)
  exact .proper (proper_nodes (by simp) rfl (by simpa using ⟨hc, hns⟩))

include hs in
theorem proper_routine {kind : NodeKind} (hkind : kind = .template ∨ kind = .localFunction)
    (fuel at0 : Nat) : Brings IsProper (routine stmt kind fuel at0) := by
  refine .identifier fun name hk hn => ?_
  refine .bind (.bracketed (proper_parameter fuel) _ _ fuel) fun ps hps => ?_
  refine .bind (proper_block hs fuel) fun body hb => ?_
  have parts : ∀ n ∈ ps ++ [body], IsProper n := by
    simpa [or_imp, forall_and] using ⟨hps, hb⟩
  refine .proper (proper_plain ?_ ?_ (by simpa [asNodes] using fun _ => hn) fun n hmem =>
    parts n (mem_asNodes.1 (by simpa using hmem)))
  · rcases hkind with rfl | rfl <;> simp
  · rcases hkind with rfl | rfl <;> rfl

include he in
theorem proper_expressionStatement : Brings IsProper (expressionStatement expr) :=
  .start fun _ => .bind he fun _ hv => .expectPunct
    (.proper (proper_plain (by simp) rfl (by simp) (by simpa using hv)))

/-- A keyword and a semicolon. -/
theorem proper_jump {kind : NodeKind} (hb : kind ≠ .binary) (ho : operandAt? kind = none)
    (at0 : Nat) : Brings IsProper (jump kind at0) :=
  .bump fun _ => .expectPunct (.proper (proper_plain hb ho (by simp) (by simp)))

include he hs in
theorem proper_keywordStatement (fuel at0 : Nat) (word : String) :
    Brings IsProper (keywordStatement expr stmt fuel at0 word) := by
  have guarded {kind : NodeKind} (hb : kind ≠ .binary) (ho : operandAt? kind = none) :
      Brings IsProper (do
        let _ ← bump
        let subject ← parenthesizedCondition expr
        let body ← stmt
        finish kind at0 (asNodes [subject, body])) :=
    .bump fun _ => .bind (proper_parenthesizedCondition he) fun c hc => .bind hs fun b hbody =>
      .proper (proper_nodes hb ho (by simpa using ⟨hc, hbody⟩))
  unfold keywordStatement
  split
  · refine .bind (proper_declaration he fuel) fun declared hd => .expectPunct ?_
    have here := hd declared declared.mem_preorder_self
    refine .proper (proper_plain (by simp) rfl (fun t ht => here.names t ?_) fun n hn m hm => ?_)
    · exact List.mem_filterMap.2 ⟨_, ht, rfl⟩
    · exact hd m (Node.preorder_subset (Node.mem_nodes.2 hn) hm)
  · exact proper_ifStatement he hs
  · exact proper_forEachStatement he hs at0 (.inl rfl)
  · exact proper_usingStatement he hs fuel at0 (.inl rfl)
  · refine .get fun c => ?_
    dsimp only
    split
    · exact .takeToken fun t ht => proper_forEachStatement he hs at0 (.inr ⟨t, ht, rfl⟩)
    split
    · exact .takeToken fun t ht => proper_usingStatement he hs fuel at0 (.inr ⟨t, ht, rfl⟩)
    · exact proper_expressionStatement he
  · exact guarded (by simp) rfl
  · refine .bump fun _ => .bind hs fun b hb => .expectWord ?_
    refine .bind (proper_parenthesizedCondition he) fun c hc => .expectPunct ?_
    exact .proper (proper_nodes (by simp) rfl (by simpa using ⟨hb, hc⟩))
  · exact proper_forStatement he hs fuel
  · refine .bump fun _ => .get fun c => ?_
    split
    · exact .given (.expectPunct (.proper (proper_nodes (by simp) rfl (by simp))))
    · exact .bind he fun value hv => .given
        (.expectPunct (.proper (proper_nodes (by simp) rfl (by simpa using hv))))
  · exact proper_jump (by simp) rfl at0
  · exact proper_jump (by simp) rfl at0
  · refine .bump fun _ => .identifier fun label hk hn => .expectPunct ?_
    exact .proper (proper_plain (by simp) rfl (by simpa using fun _ => hn) (by simp))
  · exact proper_switchStatement he hs fuel
  · exact guarded (by simp) rfl
  · exact .bump fun _ => proper_routine hs (.inr rfl) fuel at0
  · refine .bump fun _ => .eatWord fun more => ?_
    split
    · exact .bind he fun value hv => .expectPunct
        (.proper (proper_plain (by simp) rfl (by simp) (by simpa using hv)))
    · exact .expectWord (.expectPunct (.proper (proper_plain (by simp) rfl (by simp) (by simp))))
  · exact proper_expressionStatement he

include he hs in
theorem proper_statement (fuel : Nat) : Brings IsProper (Grammar.statement expr stmt fuel) := by
  refine .get fun c => ?_
  split
  · exact proper_block hs fuel
  refine .eatPunct fun semicolon => ?_
  split
  · exact .proper (proper_plain (by simp) rfl (by simp) (by simp))
  split
  · exact proper_keywordStatement he hs fuel _ _
  · exact proper_expressionStatement he

end

/-! ## Whole texts -/

theorem proper_code (fuel : Nat) :
    Brings IsProper (expression fuel) ∧ Brings IsProper (statement fuel) := by
  induction fuel with
  | zero => exact ⟨.tooDeep, .tooDeep⟩
  | succ fuel ih =>
    rw [expression, statement]
    exact ⟨proper_expression ih.1 ih.2 fuel, proper_statement ih.1 ih.2 fuel⟩

theorem proper_templates (fuel more : Nat) :
    Brings (fun ns => ∀ n ∈ ns, IsProper n) (templates fuel more) := by
  induction more with
  | zero => exact .tooDeep
  | succ more ih =>
    refine .get fun c => ?_
    split
    · exact .pure nofun
    · refine .bind (.start fun at0 => .expectWord
        (proper_routine (proper_code fuel).2 (.inl rfl) fuel at0)) fun n hn => ?_
      exact .bind ih fun ns hns => .pure (by simpa using ⟨hn, hns⟩)

/-- What a parser brings stands in every text that it reads as a whole. -/
theorem Brings.of_parseWith {α : Type} {P : α → Prop} {parser : Nat → Parse α}
    (h : ∀ fuel, Brings P (parser fuel)) {source : String} {a : α}
    (hp : parseWith parser source = .ok a) : P a := by
  obtain ⟨c, c', hg, hr⟩ := run_of_parseWith parser hp
  exact (h _ c hg a c' hr).2

theorem proper_parseUnit {source : String} {n : Node} (h : parseUnit source = .ok n) :
    IsProper n := by
  obtain ⟨ns, hp, rfl⟩ := exists_of_parseUnit h
  have each := Brings.of_parseWith (fun fuel => proper_templates fuel fuel) hp
  intro m hm
  rcases Node.mem_preorder.1 hm with rfl | ⟨t, ht, hm⟩
  · exact ⟨⟨nofun, nofun⟩, by simp [Node.tokens, asNodes]⟩
  · exact each t (mem_asNodes.1 (Node.mem_nodes.1 ht)) m hm

/-- A parser of one node that is followed by the end of the text. -/
theorem proper_parseWith {parser : Nat → Parse Node} (hp : ∀ fuel, Brings IsProper (parser fuel))
    {source : String} {n : Node}
    (h : parseWith (fun fuel => do let n ← parser fuel; Parse.expectEnd; return n) source = .ok n) :
    IsProper n := by
  refine Brings.of_parseWith (fun fuel => ?_) h
  exact .bind (hp fuel) fun _ hn => .expectEnd (.pure hn)

/-- The names in a text that was read have no dots. -/
theorem dotFree_parseUnit {source : String} {read m : Node} (h : parseUnit source = .ok read)
    (next : Nat) (hm : m ∈ (read.number next).1.preorder) {name : String}
    (hn : m.name? = some name) : '.' ∉ name.toList := by
  obtain ⟨r, hr, -, outline, -⟩ := (recast_number next read).source hm
  have tokens : m.tokens = r.tokens := by rw [Node.tokens_outline, outline, ← Node.tokens_outline]
  obtain ⟨t, ht, rfl⟩ := Option.map_eq_some_iff.1 hn
  rw [Node.tokenOfKind?, tokens] at ht
  have kind := List.find?_some ht
  exact ((proper_parseUnit h r hr).names t (List.mem_of_find?_eq_some ht) (eq_of_beq kind)).dotFree

/-- Whatever a text is read as, operands bind as tightly as their place asks for. -/
theorem precedence_respected {source : String} {n : Node}
    (h : parseUnit source = .ok n ∨ parseStatement source = .ok n ∨
      parseExpression source = .ok n) : ∀ m ∈ n.preorder, KeepsPrecedence m := by
  have proper : IsProper n := by
    rcases h with h | h | h
    · exact proper_parseUnit h
    · exact proper_parseWith (fun fuel => (proper_code fuel).2) h
    · exact proper_parseWith (fun fuel => (proper_code fuel).1) h
  exact fun m hm => (proper m hm).toKeepsPrecedence

/-- A call with a query for its argument between operators of three levels. -/
theorem precedence_respected_query :
    ∃ n, parseExpression "a - b * -c(from x in d select x ? e : f) == g || (h = i)[j]++" = .ok n ∧
      ∀ m ∈ n.preorder, KeepsPrecedence m := by
  have parses : (parseExpression
      "a - b * -c(from x in d select x ? e : f) == g || (h = i)[j]++").toOption.isSome := by
    decide +kernel
  obtain ⟨n, hn⟩ := Option.isSome_iff_exists.1 parses
  have read := eq_ok_of_toOption hn
  exact ⟨n, read, precedence_respected (.inr (.inr read))⟩

end Stencil.Source
