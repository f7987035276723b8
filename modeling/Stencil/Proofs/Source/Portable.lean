import Stencil.Proofs.Source.RoundTrip
import Stencil.Proofs.Staging.Coverage
import Stencil.Proofs.Tree.Respelling

/-!
# Code taken out of a text

A generator keeps parts of its template and puts them into new surroundings: expressions between
parentheses, statements into blocks. There they are read back just as they were where they stood.
The whole texts of the round trip do not show this for an operand that stood in the middle of an
expression, so the productions are gone through once more, this time for every node they make.

Results:

* `ReadsInside`, `ReadsInBlock`, `Portable` – what is known of a node by itself;
* `Movable` – of a node and all below it, where every construct has a staged meaning;
* `movable_code`, `movable_parseUnit` – all that was read is movable.
-/
namespace Stencil.Source

open Grammar

/-! ## Nodes by themselves -/

/-- A text that may name something. -/
def IsName (s : String) : Prop := Genuine (name s) ∧ isKeyword s = false

theorem IsName.all_isNameRest {s : String} (h : IsName s) : s.toList.all isNameRest := by
  obtain ⟨⟨c, more, rfl, hc, hm⟩, -⟩ := h
  rw [String.toList_ofList, List.all_cons, Bool.and_eq_true]
  exact ⟨isNameRest_of_isNameStart hc, hm⟩

theorem IsName.dotFree {s : String} (h : IsName s) : '.' ∉ s.toList := by
  intro dot
  have := List.all_eq_true.1 h.all_isNameRest _ dot
  revert this
  decide

/-- The node is printed as `ws`, which is an expression before a closing parenthesis. -/
structure ReadsInside (n : Node) (ws : List Word) : Prop where
  prints : Prints n ws
  front : IsFront ws = true
  accepts : ∀ f, ws.length < f →
    Accepts (expression f) ws (· = some (punct ")")) (Alike n)

/-- Words that no statement starts with, and the end of the text. -/
def ends (o : Option Word) : Bool :=
  o == none || o == some (name "else") || o == some (punct closeBrace)

/-- The node is printed as `ws`, which is a statement among others. -/
structure ReadsInBlock (n : Node) (ws : List Word) : Prop where
  prints : Prints n ws
  begins : ∃ w, ws.head? = some w ∧ w.1 ≠ .eof ∧ ends (some w) = false
  accepts : ∀ f, ws.length < f →
    Accepts (statement f) ws (· ≠ some (name "else")) (Alike n)

/-- The nodes are printed as the parameters of a template. -/
structure ReadsAsParameters (ps : List Node) (wss : List (List Word)) : Prop where
  prints : List.Forall₂ (PrintsAs (· = .parameter)) ps wss
  accepts : ∀ f N, (listed wss).length < f →
    Accepts (parameterList f) (inParens (listed wss)) N (List.Forall₂ Alike ps)

/-- The node may be taken out of its text. -/
structure Portable (n : Node) : Prop where
  expression : n.kind.isExpression → ∃ ws, ReadsInside n ws
  statement : n.kind.isStatement → ∃ ws, ReadsInBlock n ws
  parameters : n.kind = .template →
    ∃ wss, ReadsAsParameters (n.nodes.filter (·.kind == .parameter)) wss
  names : ∀ t ∈ n.tokens, t.kind = .identifier → IsName t.text
  /-- what is counted up or down is not in parentheses -/
  stepped : n.kind = .step → ∀ m ∈ n.nodes, m.kind.fencedOperand = false

/-- If every construct in the tree has a staged meaning, its nodes are portable. -/
def Movable (n : Node) : Prop := Staging.Covered n → ∀ m ∈ n.preorder, Portable m

/-- What is known of a node from how it was put together. -/
structure Composed (n : Node) : Prop where
  parts : ∀ m ∈ n.nodes, Movable m
  names : ∀ t ∈ n.tokens, t.kind = .identifier → IsName t.text
  stepped : n.kind = .step → ∀ m ∈ n.nodes, Staging.isSupported m.kind →
    m.kind.fencedOperand = false

section

variable {n : Node}

/-- A composed node is movable if it is portable. -/
theorem movable_of_composed (h : Staging.isSupported n.kind → Composed n)
    (he : n.kind.isExpression → ∃ ws, ReadsInside n ws)
    (hs : n.kind.isStatement → ∃ ws, ReadsInBlock n ws)
    (hp : n.kind = .template →
      ∃ wss, ReadsAsParameters (n.nodes.filter (·.kind == .parameter)) wss) : Movable n := by
  intro covered m hm
  have composed := h (covered n n.mem_preorder_self)
  have below {c : Node} (hc : c ∈ n.nodes) : Staging.Covered c :=
    fun x hx => covered x (Node.preorder_subset hc hx)
  rcases Node.mem_preorder.1 hm with rfl | ⟨c, hc, hm⟩
  · exact ⟨he, hs, hp, composed.names, fun hk c hc =>
      composed.stepped hk c hc (below hc c c.mem_preorder_self)⟩
  · exact composed.parts c hc (below hc) m hm

theorem movable_expression (h : Staging.isSupported n.kind → Composed n)
    (hk : n.kind.isExpression = true) (hw : ∃ ws, ReadsInside n ws) : Movable n := by
  refine movable_of_composed h (fun _ => hw) (fun hs => ?_) fun ht => ?_
  · rw [NodeKind.isExpression_eq_false_of_isStatement hs] at hk
    cases hk
  · rw [ht] at hk
    cases hk

theorem movable_statement (h : Staging.isSupported n.kind → Composed n)
    (hk : n.kind.isStatement = true) (hw : ∃ ws, ReadsInBlock n ws) : Movable n := by
  refine movable_of_composed h (fun he => ?_) (fun _ => hw) fun ht => ?_
  · rw [NodeKind.isExpression_eq_false_of_isStatement hk] at he
    cases he
  · rw [ht] at hk
    cases hk

/-- Parts of code that stand by themselves nowhere. -/
theorem movable_part (h : Composed n)
    (hk : n.kind ∈ [NodeKind.parameter, .typeName, .declarator, .elseClause]) : Movable n := by
  have none : ∀ k ∈ [NodeKind.parameter, .typeName, .declarator, .elseClause],
      k.isExpression = false ∧ k.isStatement = false ∧ k ≠ .template := by decide
  obtain ⟨he, hs, ht⟩ := none n.kind hk
  exact movable_of_composed (fun _ => h) (by simp [he]) (by simp [hs]) (absurd · ht)

/-- A node with these children. -/
theorem composed_node {kind : NodeKind} {span : Span} {children : List (Child Node)}
    (hk : kind ≠ .step) (parts : ∀ m, .node m ∈ children → Movable m)
    (names : ∀ t, .token t ∈ children → t.kind = .identifier → IsName t.text) :
    Composed ⟨0, kind, span, [], children⟩ := by
  refine ⟨fun m hm => parts m (Node.mem_nodes.1 hm), fun t ht => names t ?_, fun h => absurd h hk⟩
  obtain ⟨c, hc, ht⟩ := List.mem_filterMap.1 ht
  cases c with
  | token t' => cases ht; exact hc
  | node m => cases ht

/-- A node whose children are all nodes. -/
theorem composed_nodes {kind : NodeKind} {span : Span} {ns : List Node} (hk : kind ≠ .step)
    (parts : ∀ m ∈ ns, Movable m) : Composed ⟨0, kind, span, [], asNodes ns⟩ :=
  composed_node hk (fun m hm => parts m (mem_asNodes.1 hm)) fun t ht => by simp [asNodes] at ht

theorem composed_of_unsupported {k : NodeKind} (h : n.kind = k)
    (hk : Staging.isSupported k = false) : Staging.isSupported n.kind → Composed n := by
  intro hs
  rw [h, hk] at hs
  cases hs

end

/-! ## Before a closing parenthesis -/

/-- The place before a closing parenthesis. -/
abbrev Cursor.closing : Cursor := .of [punct ")"]

theorem stops_closing {o : Option Word} : Stops .closing o ↔ o = some (punct ")") := by
  constructor
  · rintro ⟨h | h, _⟩
    · simpa using h
    · exact h
  · rintro rfl
    exact .closing _

theorem Stops.of_closing {o : Option Word} (h : Stops .closing o) (c : Cursor) : Stops c o := by
  rw [stops_closing.1 h]
  exact .closing c

theorem noSuffix_of_mem_closers {w : Word} (h : w ∈ closers) :
    NoSuffix (Cursor.of [w]).words.head? := by
  have others : ∀ w ∈ closers, ∀ s ∈ [".", "(", "[", "++", "--"], w ≠ punct s := by decide
  intro s hs
  simpa using others w h s hs

theorem noSuffix_closing : NoSuffix (Cursor.closing).words.head? :=
  noSuffix_of_mem_closers (by simp [closers])

section

variable {c c₁ c' : Cursor} {m n : Node} {ws : List Word}

/-- More fuel than words is some fuel for each of them. -/
theorem exists_fuel {f : Nat} (h : ws.length < f) : ∃ f', f = f' + 1 ∧ ws.length ≤ f' :=
  ⟨f - 1, by omega, by omega⟩

theorem readsInside_of_binary {outer levels : List (List String)}
    (hlevels : outer ++ levels = binaryLevels) (h : ReadsBinary levels c n c' ws) :
    ReadsInside n ws := by
  refine ⟨h.prints, h.front, fun f hf => ?_⟩
  obtain ⟨f, rfl, room⟩ := exists_fuel hf
  have := h.length_pos
  refine accepts_expression_of_binary hlevels (by omega) h.firm (fun _ => mem_closers)
    ((h.accepts f false (by simp) room).mono (fun o ho => ?_) fun _ hn => hn)
  rw [ho]
  exact .closing c'

theorem readsInside_of_unary (h : ReadsUnary c n c' ws) : ReadsInside n ws := by
  refine ⟨h.prints, h.front, fun f hf => ?_⟩
  obtain ⟨f, rfl, room⟩ := exists_fuel hf
  have := h.length_pos
  refine accepts_expression_of_unary (by omega) h.firm (fun _ => mem_closers)
    ((h.accepts f f room room).mono (fun o ho => ?_) fun _ hn => hn)
  rw [ho]
  exact .closing c'

/-- Where an operand that has no operator in front of it starts. -/
structure IsBare (c : Cursor) : Prop where
  operator : ∀ s ∈ ["!", "-"], c.words.head? ≠ some (punct s)
  await : c.words.head? ≠ some (name "await")
  cast : castAhead c.words = false

theorem readsInside_of_primary (h : ReadsPrimary c n c' ws) (hc : IsBare c) : ReadsInside n ws := by
  refine ⟨h.prints, h.front, fun f hf => ?_⟩
  obtain ⟨f, rfl, room⟩ := exists_fuel hf
  have := h.length_pos
  refine accepts_expression_of_unary (by omega) h.firm (fun _ => mem_closers)
    (h.accepts_unary hc.operator hc.await hc.cast (by omega) (by omega) room ?_)
  rintro _ rfl
  exact ⟨.closing c', noSuffix_closing⟩

/-- An expression of one of the entry levels, before a parenthesis instead of what followed it. -/
theorem readsInside_of_expression (hr : Rereads c n c' ws)
    (hq : ∀ f, ws.length < f → Accepts (expression f) ws (Stops c') (Alike n)) :
    ReadsInside n ws := by
  refine ⟨hr.prints, hr.front, fun f hf => (hq f hf).mono (fun o ho => ?_) fun _ hn => hn⟩
  rw [ho]
  exact .closing c'

end

/-! ## Parsers that return movable code -/

theorem After.and {α : Type} {p : Parse α} {c : Cursor} {Φ Ψ : α → Cursor → Prop}
    (h : After p c Φ) (h' : After p c Ψ) : After p c fun a c' => Φ a c' ∧ Ψ a c' := by
  intro hc a c' hr
  obtain ⟨hg, ha⟩ := h hc a c' hr
  exact ⟨hg, ha, (h' hc a c' hr).2⟩

theorem After.yields {α : Type} {p : Parse α} {c : Cursor} {Φ : α → Cursor → Prop} {P : α → Prop}
    (h : After p c Φ) (hp : Yields P p) : After p c fun a c' => Φ a c' ∧ P a := by
  intro hc a c' hr
  obtain ⟨hg, ha⟩ := h hc a c' hr
  exact ⟨hg, ha, hp c a c' hr⟩

/-- From words of a scanner the parser makes something with `P`. -/
def Brings {α : Type} (P : α → Prop) (p : Parse α) : Prop := ∀ c, After p c fun a _ => P a

namespace Brings

variable {α : Type} {P : α → Prop} {p : Parse α}

theorem separated (h : Brings P p) (fuel : Nat) :
    Brings (fun as => ∀ a ∈ as, P a) (Parse.separated p fuel) := by
  induction fuel with
  | zero => exact fun _ => .tooDeep
  | succ fuel ih =>
    refine fun c => .bind ((h c).mono fun a c1 ha => .eatPunct (fun c2 _ => ?_) fun _ => .pure ?_)
    · exact .bind ((ih c2).mono fun as _ has => .pure (List.forall_mem_cons.2 ⟨ha, has⟩))
    · exact List.forall_mem_singleton.2 ha

theorem bracketed (h : Brings P p) (opening closing : String) (fuel : Nat) :
    Brings (fun as => ∀ a ∈ as, P a) (Parse.bracketed opening closing p fuel) := by
  refine fun c => .expectPunct fun c1 _ => .get ?_
  split
  · exact .bind (.pure (.expectPunct fun _ _ => .pure nofun))
  · exact .bind ((h.separated fuel c1).mono fun as _ has => .expectPunct fun _ _ => .pure has)

theorem itemsUntil (h : Brings P p) (stop : Cursor → Bool) (fuel : Nat) :
    Brings (fun as => ∀ a ∈ as, P a) (Parse.itemsUntil stop p fuel) := by
  induction fuel with
  | zero => exact fun _ => .tooDeep
  | succ fuel ih =>
    refine fun c => .get ?_
    split
    · exact .pure nofun
    · split
      · exact .fail _
      · exact .bind ((h c).mono fun a c1 ha => .bind ((ih c1).mono fun as _ has =>
          .pure (List.forall_mem_cons.2 ⟨ha, has⟩)))

end Brings

/-! ## Expressions -/

/-- The node was composed here, or it was one of the parts. -/
def Formed (n : Node) : Prop := (Staging.isSupported n.kind → Composed n) ∨ Movable n

theorem Formed.movable {n : Node} (h : Formed n) (hk : n.kind.isExpression = true)
    (hw : ∃ ws, ReadsInside n ws) : Movable n :=
  h.elim (fun h => movable_expression h hk hw) fun h => h

theorem ne_identifier_of_ofOperator? {s : String} {k : TokenKind}
    (h : TokenKind.ofOperator? s = some k) : k ≠ .identifier := by
  rintro rfl
  exact absurd (List.mem_of_find?_eq_some h) (by decide)

theorem brings_typeName (fuel : Nat) : Brings Movable (typeName fuel) := by
  refine fun c => .start (.bind ((couples_typeText fuel c).mono fun s c1 _ => .get (.finish ?_)))
  exact movable_part (composed_node (by simp) (by simp) (by simp)) (by simp [Cursor.finish])

theorem brings_parameter (fuel : Nat) : Brings Movable (parameter fuel) := by
  refine fun c => .get ?_
  split
  · refine .bind ((brings_typeName fuel c).mono fun type c1 ht => .identifier fun t c2 _ _ hw hg => ?_)
    exact .finish (movable_part (composed_node (by simp) (by simpa using ht)
      (by simpa using fun _ => ⟨hg, hw⟩)) (by simp [Cursor.finish]))
  · exact .identifier fun t c1 _ _ hw hg => .finish (movable_part (composed_node (by simp) (by simp)
      (by simpa using fun _ => ⟨hg, hw⟩)) (by simp [Cursor.finish]))

section

variable {expr stmt : Parse Node} (he : ExprCouples expr) (hs : StmtCouples stmt)
  (re : Reads (·.isExpression) expr) (rs : Reads (·.isStatement) stmt)
  (me : Brings Movable expr) (ms : Brings Movable stmt)

/-! ### Operands -/

include he re me in
/-- A primary expression is composed of movable parts, and printed bare in front of a suffix. -/
theorem composed_primary (fuel : Nat) (c : Cursor) :
    After (primary expr fuel) c fun n _ =>
      Staging.isSupported n.kind → Composed n ∧ n.kind.fencedOperand = false := by
  intro hc
  refine After.get ?_ hc
  dsimp only
  split
  · next kind hkind =>
    have present : c.peek.kind ≠ .eof :=
      (spelling_of_literalKind? (t := ⟨kind, c.peek.text, .detached⟩) hkind rfl).1
    obtain ⟨ws, hw⟩ := Cursor.words_of_peek present
    refine .takeToken hw fun t c' hk _ _ => .finish fun _ => ⟨composed_node (by simp) (by simp) ?_, rfl⟩
    rintro _ ht hid
    cases List.mem_singleton.1 ht
    exact absurd (hk.symm.trans hid) (ne_identifier_of_literalKind? hkind)
  split
  · next hthis =>
    obtain ⟨ws, hw⟩ := List.head?_eq_some_iff.1 (Cursor.atWord_iff.1 hthis)
    exact .bump hw fun l c' _ _ => .finish fun _ => ⟨composed_node (by simp) (by simp) (by simp), rfl⟩
  split
  · refine ((after_query he c).yields (reads_query re)).mono fun n c' ⟨_, _, hk⟩ hsupported => ?_
    rw [hk] at hsupported
    cases hsupported
  split
  · exact .identifier fun t c' _ _ hw hg => .finish fun _ =>
      ⟨composed_node (by simp) (by simp) (by simpa using fun _ => ⟨hg, hw⟩), rfl⟩
  split
  · next hparen =>
    obtain ⟨ws, hw⟩ := List.head?_eq_some_iff.1 (Cursor.atPunct_iff.1 hparen)
    refine .bump hw fun _ c1 _ _ => .bind ((me c1).mono fun inner c2 hi => ?_)
    exact .expectPunct fun c3 _ => .finish fun _ =>
      ⟨composed_node (by simp) (by simpa using hi) (by simp), rfl⟩
  split
  · exact .bind ((me.bracketed _ _ fuel c).mono fun es c' hes => .finish fun _ =>
      ⟨composed_nodes (by simp) hes, rfl⟩)
  · exact .fail _

theorem looped_suffixes_nil {c : Cursor} (h : NoSuffix c.words.head?) (n : Node) :
    Looped NodeKind.fencedOperand suffixLoop n n c c :=
  ⟨fun _ _ _ _ hg => accepts_suffixes_nil hg fun _ ho => h.stops ho, .inl ⟨rfl, rfl⟩⟩

include he me in
/-- Whatever the suffixes make of `base` is movable, if it can stand before a parenthesis. -/
theorem movable_suffixes (fuel at0 more : Nat) {base : Node} {c : Cursor} (hb : Movable base)
    (bare : Staging.isSupported base.kind → base.kind.fencedOperand = false)
    (inside : ∀ n c', Looped NodeKind.fencedOperand suffixLoop base n c c' →
      NoSuffix c'.words.head? → ∃ ws, ReadsInside n ws) :
    After (suffixes expr fuel at0 base more) c fun n _ => Movable n := by
  induction more generalizing base c with
  | zero => exact .tooDeep
  | succ more ih =>
    -- one round, before whatever follows it and before a parenthesis
    have next {n : Node} {c₁ : Cursor} {w : Word} {ws : List Word} (hw : c.words.head? = some w)
        (hn : Composed n)
        (round : ∀ c', Round NodeKind.fencedOperand suffixLoop base n c' w ws) :
        After (suffixes expr fuel at0 n more) c₁ fun n _ => Movable n := by
      have alone := inside n .closing
        ((round .closing).looped hw (looped_suffixes_nil noSuffix_closing n)) noSuffix_closing
      refine ih (movable_expression (fun _ => hn) (round c₁).kind alone)
        (fun _ => (round c₁).bare) fun m c' hl => inside m c' ((round c₁).looped hw hl)
    refine .eatPunct (fun c1 hc1 => ?_) fun hdot => .get ?_
    · refine .identifier fun t c2 _ hk hw hg => .finish_bind (next (by rw [hc1]; rfl) ?_ fun _ =>
        round_memberAccess hk hw hg)
      exact composed_node (by simp) (by simpa using hb) (by simpa using fun _ => ⟨hg, hw⟩)
    split
    · refine .bind (((couples_bracketed he.couples (by decide) (by decide) fuel c).and
        (me.bracketed _ _ fuel c)).mono fun ns c1 ⟨⟨wss, hs, hfirst, hq⟩, hns⟩ => ?_)
      refine .finish_bind (next hfirst ?_ fun _ => round_invocation (printsAs_each hs).2 hq)
      exact composed_nodes (by simp) (List.forall_mem_cons.2 ⟨hb, hns⟩)
    · refine .eatPunct (fun c1 hc1 => ?_) fun hindex => ?_
      · refine .bind (((he c1).and (me c1)).mono fun i c2 ⟨⟨ws, hr, hq⟩, hi⟩ => ?_)
        refine .expectPunct fun c3 hc3 => .finish_bind (next (by rw [hc1]; rfl) ?_ fun _ =>
          round_elementAccess hr.prints hc3 hq)
        exact composed_node (by simp) (by simpa using ⟨hb, hi⟩) (by simp)
      · refine .operator? (by decide) (fun t c1 hc1 ht hk => ?_) fun _ => .pure hb
        refine .finish_bind (next (by rw [hc1]; rfl) ⟨?_, ?_, fun _ => ?_⟩ fun _ => round_step hk ht)
        · rintro m hm
          cases List.mem_singleton.1 hm
          exact hb
        · rintro t' ht' hid
          cases List.mem_singleton.1 ht'
          exact absurd hid (ne_identifier_of_ofOperator? hk)
        · rintro m hm
          cases List.mem_singleton.1 hm
          exact bare

include he re me in
theorem movable_unary (fuel more : Nat) (c : Cursor) :
    After (unary expr fuel more) c fun n _ => Movable n := by
  induction more generalizing c with
  | zero => exact .tooDeep
  | succ more ih =>
    have operand (c : Cursor) := (after_unary he fuel more c).and (ih c)
    refine .start (.operator? (by decide) (fun t c1 hc1 ht hk => ?_) fun hmiss => ?_)
    · refine .bind ((operand c1).mono fun m c' ⟨⟨ws, h⟩, hm⟩ => .finish (movable_expression (fun _ =>
        composed_node (by simp) (by simpa using hm) ?_) rfl
          ⟨_, readsInside_of_unary (readsUnary_unary h hc1 ht hk)⟩))
      simpa using fun hid => absurd hid (ne_identifier_of_ofOperator? hk)
    refine .eatWord (fun c1 hc1 => ?_) fun hawait => .get ?_
    · exact .bind ((operand c1).mono fun m c' ⟨⟨ws, h⟩, hm⟩ => .finish (movable_expression
        (composed_of_unsupported (k := .await) rfl rfl) rfl
          ⟨_, readsInside_of_unary (readsUnary_await h hc1)⟩))
    rw [atCast_eq]
    split
    · next hcast =>
      obtain ⟨s, rest, hc, hs⟩ := eq_of_castAhead hcast
      refine .bump hc fun _ c1 _ hc1 => .bind (((after_typeName_simple fuel hc1 (by simp [punct])).and
        (brings_typeName fuel c1)).mono fun type c2 ⟨⟨hp, hc2, hq⟩, htype⟩ => ?_)
      refine .expectPunct fun c3 hc3 => .bind ((operand c3).mono fun m c' ⟨⟨ws, h⟩, hm⟩ => ?_)
      exact .finish (movable_expression (fun _ => composed_node (by simp)
        (by simpa using ⟨htype, hm⟩) (by simp)) rfl
          ⟨_, readsInside_of_unary (readsUnary_cast h (by rw [hc]; rfl) hs hp hq)⟩)
    · next hcast =>
      have hcast : castAhead c.words = false := by simpa using hcast
      refine .bind (((after_primary he fuel c).and (composed_primary he re me fuel c)).mono
        fun m c1 ⟨⟨ws, h⟩, hm⟩ => movable_suffixes he me fuel _ fuel ?_ (fun hk => (hm hk).2) ?_)
      · exact movable_expression (fun hk => (hm hk).1) h.kind
          ⟨ws, readsInside_of_primary h ⟨hmiss, hawait, hcast⟩⟩
      · intro n c' hl hend
        obtain ⟨ws', h'⟩ := readsUnary_primary h hmiss hawait hcast hend hl
        exact ⟨ws', readsInside_of_unary h'⟩

/-! ### Operators -/

theorem looped_binary_nil {operators : List String} {tighter : List (List String)}
    (hops : IsLevel operators) (n : Node) :
    Looped NodeKind.fencedBinaryOperand (binaryLoop operators tighter) n n .closing .closing := by
  refine ⟨fun f at1 n g hg => accepts_binaryRest_nil hg fun o ho s hs => ?_, .inl ⟨rfl, rfl⟩⟩
  rw [stops_closing.1 ho]
  rintro ⟨⟩
  have := (hops _ hs).2.1
  simp at this

/-- The operators of a level are gone through like the suffixes. -/
theorem movable_binaryRest {operators : List String} {tighter : List (List String)}
    {operand : Parse Node} (hops : IsLevel operators)
    (ho : ∀ c, After operand c fun n c' => (∃ ws, ReadsBinary tighter c n c' ws) ∧ Movable n)
    (at0 fuel : Nat) {left : Node} {c : Cursor} (hl : Movable left)
    (inside : ∀ n c', Looped NodeKind.fencedBinaryOperand (binaryLoop operators tighter) left n c c' →
      ∃ ws, ReadsInside n ws) :
    After (binaryRest operand operators at0 left fuel) c fun n _ => Movable n := by
  induction fuel generalizing left c with
  | zero => exact .tooDeep
  | succ fuel ih =>
    refine .operator? (fun s hs => (hops s hs).2.2) (fun t c1 hc1 ht hk => ?_) fun _ => .pure hl
    refine .bind ((ho c1).mono fun right c2 ⟨⟨ws, h⟩, hr⟩ => .finish_bind ?_)
    have first : c.words.head? = some (punct t.text) := by rw [hc1]; rfl
    -- one round, before whatever follows it and before a parenthesis
    have round (id : Nat) (span : Span) (c' : Cursor) (hc : ∀ o, Stops c' o → Stops c2 o) :
        Round NodeKind.fencedBinaryOperand (binaryLoop operators tighter) left
          ⟨id, .binary, span, [], [.node left, .token t, .node right]⟩ c' (punct t.text)
          (fencedWords right.kind.fencedBinaryOperand ws) :=
      round_binary ht (hops _ ht).1 (hops _ ht).2.1 hk h.prints fun f hf =>
        (h.accepts f _ (fun hn => hn) hf).mono hc fun _ hn => hn
    have alone (id : Nat) (span : Span) := inside _ _
      ((round id span .closing fun _ ho => ho.of_closing c2).looped first (looped_binary_nil hops _))
    refine ih (movable_expression (fun _ => ?_) rfl (alone _ _)) fun n c' hl' =>
      inside n c' ((round _ _ c2 fun _ ho => ho).looped first hl')
    refine composed_node (by simp) (by simpa using ⟨hl, hr⟩) ?_
    simpa using fun hid => absurd hid (ne_identifier_of_ofOperator? hk)

include he re me in
theorem movable_binary (fuel : Nat) {outer levels : List (List String)}
    (hlevels : outer ++ levels = binaryLevels) (c : Cursor) :
    After (binary (unary expr fuel fuel) fuel levels) c fun n _ => Movable n := by
  induction levels generalizing outer c with
  | nil => exact movable_unary he re me fuel fuel c
  | cons operators tighter ih =>
    have each : ∀ ops ∈ operators :: tighter, IsLevel ops := fun ops hops =>
      isLevel_binaryLevels ops (hlevels ▸ List.mem_append_right outer hops)
    have operand (c : Cursor) := (after_binary he fuel
      (fun ops hops => each ops (List.mem_cons_of_mem _ hops)) c).and
        (ih (show (outer ++ [operators]) ++ tighter = binaryLevels by
          rw [← hlevels, List.append_assoc]; rfl) c)
    refine .start (.bind ((operand c).mono fun m c1 ⟨⟨ws, h⟩, hm⟩ => ?_))
    refine movable_binaryRest (each _ List.mem_cons_self) operand _ fuel hm fun n c' hl => ?_
    obtain ⟨ws', h'⟩ := readsBinary_cons h hl
    exact ⟨ws', readsInside_of_binary hlevels h'⟩

include he re me in
theorem movable_conditional (fuel : Nat) (c : Cursor) :
    After (conditional expr fuel) c fun n _ => Movable n := by
  have formed : After (conditional expr fuel) c fun n _ => Formed n := by
    have operand := movable_binary he re me fuel (List.nil_append binaryLevels) c
    refine .start (.bind (operand.mono fun m c1 hm => ?_))
    refine .eatPunct (fun c2 _ => ?_) fun _ => .pure (.inr hm)
    refine .bind ((me c2).mono fun t c3 ht => .expectPunct fun c4 _ => .bind ((me c4).mono
      fun e c' hf => .finish (.inl fun _ => composed_nodes (by simp) (by simpa using ⟨hm, ht, hf⟩))))
  refine ((after_conditional he fuel c).and formed).mono fun n c' ⟨⟨ws, h, hq⟩, hn⟩ => ?_
  refine hn.movable h.kind ⟨ws, h.prints, h.front, fun f hf => ?_⟩
  obtain ⟨f, rfl, room⟩ := exists_fuel hf
  have others : ∀ s ∈ assignments, some (punct ")") ≠ some (punct s) := by decide
  refine accepts_expression_through h.firm (fun o ho => by simp [ho, punct])
    (fun o ho => by rw [ho]; exact others) ((hq f room).mono (fun o ho => ?_) fun _ hn => hn)
  rw [ho]
  exact .closing c'

include he hs re rs me in
/-- The nodes of an expression are movable, from the same of the expressions in it. -/
theorem movable_expressions (fuel : Nat) : Brings Movable (Grammar.expression expr stmt fuel) := by
  intro c
  have formed : After (Grammar.expression expr stmt fuel) c fun n _ => Formed n := by
    refine .get ?_
    split
    · exact ((after_lambda he hs fuel c).yields (reads_lambda re rs fuel)).mono
        fun n _ ⟨_, _, hk⟩ => .inl (composed_of_unsupported hk rfl)
    refine .bind ((movable_conditional he re me fuel c).mono fun m c1 hm => ?_)
    refine .operator? (by decide) (fun t c2 _ _ hk => ?_) fun _ => .pure (.inr hm)
    refine .bind ((me c2).mono fun v c' hv => .finish (.inl fun _ => composed_node (by simp)
      (by simpa using ⟨hm, hv⟩) ?_))
    simpa using fun hid => absurd hid (ne_identifier_of_ofOperator? hk)
  exact ((exprCouples_expression he hs fuel c).and formed).mono fun n c' ⟨⟨ws, hr, hq⟩, hn⟩ =>
    hn.movable hr.kind ⟨ws, readsInside_of_expression hr hq⟩

end

/-! ## Statements -/

theorem ends_cases {o : Option Word} (h : ends o = true) :
    o = none ∨ o = some (name "else") ∨ o = some (punct closeBrace) := by
  simpa [ends, or_assoc] using h

/-- The lexemes that no statement starts with. -/
def enders : List Lexeme :=
  [⟨.eof, "", .detached⟩, ⟨.ident, "else", .detached⟩, ⟨.punct, closeBrace, .detached⟩]

/-- At the end of a block the parser finds nothing to read. -/
def Stuck (p : Parse Node) : Prop :=
  ∀ c : Cursor, ends c.words.head? = true → After p c fun _ _ => False

section

variable {c : Cursor} (hc : ends c.words.head? = true)

include hc in
theorem head_ne_of_ends {w : Word} (hw : ends (some w) = false) : c.words.head? ≠ some w := by
  intro h
  rw [h, hw] at hc
  cases hc

include hc in
theorem peek_of_ends : ∃ l ∈ enders, c.peek.word = l.word := by
  rcases ends_cases hc with h | h | h
  · exact ⟨⟨.eof, "", .detached⟩, by simp [enders], Cursor.peek_of_nil (List.head?_eq_none_iff.1 h)⟩
  · obtain ⟨ws, hw⟩ := List.head?_eq_some_iff.1 h
    exact ⟨⟨.ident, "else", .detached⟩, by simp [enders], Cursor.peek_of_words hw⟩
  · obtain ⟨ws, hw⟩ := List.head?_eq_some_iff.1 h
    exact ⟨⟨.punct, closeBrace, .detached⟩, by simp [enders], Cursor.peek_of_words hw⟩

include hc in
theorem lambdaAhead_of_ends : lambdaAhead c.words = false := by
  rcases ends_cases hc with h | h | h
  · rw [List.head?_eq_none_iff.1 h]
    rfl
  · obtain ⟨ws, hw⟩ := List.head?_eq_some_iff.1 h
    rw [hw, ← List.append_nil (_ :: ws)]
    exact firm_cons (by decide) (by decide) ws [] nofun
  · obtain ⟨ws, hw⟩ := List.head?_eq_some_iff.1 h
    rw [hw, ← List.append_nil (_ :: ws)]
    exact firm_cons (by decide) (by decide) ws [] nofun

end

section

variable {expr stmt : Parse Node}

theorem stuck_primary (fuel : Nat) : Stuck (primary expr fuel) := by
  intro c hc
  obtain ⟨l, hl, hp⟩ := peek_of_ends hc
  obtain ⟨hk, hword, hname, hpunct⟩ := Lexeme.asks_congr hp
  have nothing : ∀ l ∈ enders, literalKind? l = none ∧ l.isWord "this" = false ∧
        l.isWord "from" = false ∧ l.isName = false ∧ l.isPunct "(" = false ∧
          l.isPunct "[" = false := by
    decide
  obtain ⟨h1, h2, h3, h4, h5, h6⟩ := nothing l hl
  refine .get ?_
  simp only [hk, hword, hname, hpunct, h1, h2, h3, h4, h5, h6, Bool.false_eq_true, if_false]
  exact .fail _

theorem stuck_unary (fuel more : Nat) : Stuck (unary expr fuel more) := by
  intro c hc
  cases more with
  | zero => exact .tooDeep
  | succ more =>
    have operators : ∀ s ∈ ["!", "-"], ends (some (punct s)) = false := by decide
    refine .start (.operator? (by decide) (fun t c1 hc1 ht _ => ?_) fun _ => ?_)
    · exact absurd (by rw [hc1]; rfl) (head_ne_of_ends hc (operators _ ht))
    refine .eatWord (fun c1 hc1 => ?_) fun _ => .get ?_
    · exact absurd (by rw [hc1]; rfl) (head_ne_of_ends hc (w := name "await") (by decide))
    rw [atCast_eq]
    split
    · next hcast =>
      obtain ⟨s, rest, hw, _⟩ := eq_of_castAhead hcast
      exact absurd (by rw [hw]; rfl) (head_ne_of_ends hc (w := punct "(") (by decide))
    · exact .bind ((stuck_primary fuel c hc).mono fun _ _ h => h.elim)

theorem stuck_binary (fuel : Nat) (levels : List (List String)) :
    Stuck (binary (unary expr fuel fuel) fuel levels) := by
  induction levels with
  | nil => exact stuck_unary fuel fuel
  | cons operators tighter ih =>
    exact fun c hc => .start (.bind ((ih c hc).mono fun _ _ h => h.elim))

theorem stuck_expression (fuel : Nat) : Stuck (Grammar.expression expr stmt fuel) := by
  intro c hc
  refine .get ?_
  rw [atLambda_eq, lambdaAhead_of_ends hc]
  exact .bind (.start (.bind ((stuck_binary fuel _ c hc).mono fun _ _ h => h.elim)))

theorem stuck_expressionStatement (h : Stuck expr) : Stuck (expressionStatement expr) :=
  fun c hc => .start (.bind ((h c hc).mono fun _ _ h => h.elim))

theorem stuck_statement (h : Stuck expr) (fuel : Nat) : Stuck (Grammar.statement expr stmt fuel) := by
  intro c hc
  have effect := stuck_expressionStatement h c hc
  refine .get ?_
  rw [if_neg fun hp => head_ne_of_ends hc (w := punct openBrace) (by decide) (Cursor.atPunct_iff.1 hp)]
  refine .eatPunct (fun c1 hc1 => ?_) fun _ => ?_
  · exact absurd (by rw [hc1]; rfl) (head_ne_of_ends hc (w := punct ";") (by decide))
  simp only [Bool.false_eq_true, if_false]
  split
  · obtain ⟨l, hl, hp⟩ := peek_of_ends hc
    have others : ∀ l ∈ enders, l.text ∉ openers := by decide
    have text : c.peek.text = l.text := congrArg Prod.snd hp
    rw [text, keywordStatement_other (others l hl)]
    exact effect
  · exact effect

end

/-- What was read somewhere in a block is read in any block. -/
theorem readsInBlock_of_reads {c c' : Cursor} {n : Node} (hg : c.IsGenuine)
    (hc : ends c.words.head? = false) (h : StmtReads c n c') : ∃ ws, ReadsInBlock n ws := by
  obtain ⟨ws, hp, ⟨w, hw, hl⟩, hq⟩ := h
  refine ⟨ws, hp.2, ⟨w, hw, ?_⟩, fun f hf => (hq f hf).mono (fun o ho he => absurd he ho) fun _ h => h⟩
  rcases hl with rfl | hl
  · exact ⟨by simp, by decide⟩
  · refine ⟨fun he => ?_, hl ▸ hc⟩
    have genuine := hg w (List.mem_of_head? hl)
    obtain ⟨kind, text⟩ := w
    cases he
    exact genuine

/-- A statement that was composed of movable parts is movable. -/
theorem movable_of_reads {p : Parse Node} {c : Cursor} (hr : After p c (StmtReads c))
    (hs : ends c.words.head? = true → After p c fun _ _ => False)
    (hn : After p c fun n _ => Staging.isSupported n.kind → Composed n) :
    After p c fun n _ => Movable n := by
  intro hg n c' hrun
  obtain ⟨hg', hreads⟩ := hr hg n c' hrun
  have begins : ends c.words.head? = false := by
    cases he : ends c.words.head? with
    | false => rfl
    | true => exact (hs he hg n c' hrun).2.elim
  obtain ⟨ws, hp, _⟩ := id hreads
  exact ⟨hg', movable_statement ((hn hg n c' hrun).2) hp.1 (readsInBlock_of_reads hg begins hreads)⟩

theorem yields_finish {kind : NodeKind} {at0 : Nat} {children : List (Child Node)} :
    Yields (fun n => n.kind = kind) (Parse.finish kind at0 children) :=
  .skip fun _ => .pure rfl

section

variable {expr stmt : Parse Node} (he : ExprCouples expr) (hs : StmtCouples stmt)
  (re : Reads (·.isExpression) expr) (rs : Reads (·.isStatement) stmt)
  (me : Brings Movable expr) (ms : Brings Movable stmt)

include me in
theorem brings_declarator : Brings Movable (declarator expr) := by
  refine fun c => .start (.identifier fun t c1 _ _ hw hg => ?_)
  have names : t.kind = .identifier → IsName t.text := fun _ => ⟨hg, hw⟩
  refine .eatPunct (fun c2 _ => ?_) fun _ => .finish ?_
  · exact .bind ((me c2).mono fun v c' hv => .finish (movable_part
      (composed_node (by simp) (by simpa using hv) (by simpa using names)) (by simp [Cursor.finish])))
  · exact movable_part (composed_node (by simp) (by simp) (by simpa using names))
      (by simp [Cursor.finish])

include me in
theorem brings_declaration (fuel : Nat) :
    Brings (fun n => ∃ ds, n.children = asNodes ds ∧ ∀ d ∈ ds, Movable d)
      (declaration expr fuel) :=
  fun _ => .start (.expectWord fun c1 _ => .bind (((brings_declarator me).separated fuel c1).mono
    fun ds _ hds => .finish ⟨ds, rfl, hds⟩))

include me in
theorem brings_parenthesizedCondition : Brings Movable (parenthesizedCondition expr) :=
  fun _ => .expectPunct fun c1 _ => .bind ((me c1).mono fun _ _ hm => .expectPunct fun _ _ => .pure hm)

include me ms in
theorem composed_forEachStatement (at0 : Nat) {parts : List (Child Node)}
    (hp : ∀ p ∈ parts, ∃ t : Token, p = .token t ∧ t.kind = .awaitKeyword) (c : Cursor) :
    After (forEachStatement expr stmt at0 parts) c fun n _ => Composed n := by
  refine .expectWord fun c1 _ => .expectPunct fun c2 _ => .expectWord fun c3 _ => ?_
  refine .identifier fun t c4 _ _ hw hg => .expectWord fun c5 _ => .bind ((me c5).mono fun s c6 hsrc => ?_)
  refine .expectPunct fun c7 _ => .bind ((ms c7).mono fun b c' hb => .finish (composed_node (by simp) ?_ ?_))
  · intro m hm
    rcases List.mem_append.1 hm with hm | hm
    · obtain ⟨t, ht, _⟩ := hp _ hm
      cases ht
    · have hm : m = s ∨ m = b := by simpa using hm
      rcases hm with rfl | rfl
      · exact hsrc
      · exact hb
  · intro t' ht' hid
    rcases List.mem_append.1 ht' with ht' | ht'
    · obtain ⟨t, ht, hk⟩ := hp _ ht'
      cases ht
      rw [hk] at hid
      cases hid
    · have : t' = t := by simpa using ht'
      exact this ▸ ⟨hg, hw⟩

include me ms in
theorem composed_ifStatement (c : Cursor) :
    After (ifStatement expr stmt) c fun n _ => Composed n := by
  refine .start (.expectWord fun c1 _ => .bind ((brings_parenthesizedCondition me c1).mono
    fun m c2 hm => .bind ((ms c2).mono fun b c3 hb => .start ?_)))
  refine .eatWord (fun c4 _ => ?_) fun _ => .finish (composed_nodes (by simp) (by simpa using ⟨hm, hb⟩))
  refine .bind ((ms c4).mono fun e c' he => .finish_bind (.finish (composed_nodes (by simp) ?_)))
  have clause : Movable (c'.finish .elseClause c3.start [.node e]) :=
    movable_part (composed_node (by simp) (by simpa using he) (by simp)) (by simp [Cursor.finish])
  simpa using ⟨hm, hb, clause⟩

include ms in
theorem composed_block (fuel : Nat) (c : Cursor) :
    After (block stmt fuel) c fun n _ => Composed n :=
  .start (.expectPunct fun c1 _ => .bind ((ms.itemsUntil _ fuel c1).mono fun ns _ hns =>
    .expectPunct fun _ _ => .finish (composed_nodes (by simp) hns)))

include me in
theorem composed_expressionStatement (c : Cursor) :
    After (expressionStatement expr) c fun n _ => Composed n :=
  .start (.bind ((me c).mono fun v _ hv => .expectPunct fun _ _ =>
    .finish (composed_node (by simp) (by simpa using hv) (by simp))))

include he hs re rs me ms in
theorem composed_keywordStatement (fuel at0 : Nat) {word : String} {c : Cursor}
    (hc : c.words.head? = some (name word)) :
    After (keywordStatement expr stmt fuel at0 word) c fun n _ =>
      Staging.isSupported n.kind → Composed n := by
  have reads := after_keywordStatement he hs fuel at0 hc
  obtain ⟨more, hw⟩ := List.head?_eq_some_iff.1 hc
  have composed {p : Parse Node} {c : Cursor} (h : After p c fun n _ => Composed n) :
      After p c fun n _ => Staging.isSupported n.kind → Composed n := h.mono fun _ _ h _ => h
  -- constructs without a staged meaning
  have unsupported {p : Parse Node} {k : NodeKind} (h : After p c (StmtReads c))
      (hy : Yields (fun n => n.kind = k) p) (hk : Staging.isSupported k = false) :
      After p c fun n _ => Staging.isSupported n.kind → Composed n :=
    (h.yields hy).mono fun n _ ⟨_, hkind⟩ => composed_of_unsupported hkind hk
  revert reads
  unfold keywordStatement
  split <;> intro reads
  · refine .bind ((brings_declaration me fuel c).mono fun n c1 ⟨ds, hn, hds⟩ =>
      .expectPunct fun c' _ => .finish fun _ => ?_)
    rw [hn]
    exact composed_nodes (by simp) hds
  · exact composed (composed_ifStatement me ms c)
  · exact composed (composed_forEachStatement me ms at0 (by simp) c)
  · exact unsupported reads (.skip fun _ => .skip fun _ => .skip fun _ => .skip fun _ =>
      .skip fun _ => yields_finish) rfl
  · revert reads
    refine fun _ => .get ?_
    dsimp only
    split
    · exact .takeToken hw fun t c1 hk _ _ =>
        composed (composed_forEachStatement me ms at0 (by simpa using hk) c1)
    · split
      · refine .takeToken hw fun t c1 _ _ _ => ?_
        exact ((after_usingStatement he hs fuel at0 [.token t] c1).yields (.skip fun _ => .skip fun _ =>
          .skip fun _ => .skip fun _ => .skip fun _ => yields_finish)).mono
            fun n _ ⟨_, hkind⟩ => composed_of_unsupported hkind rfl
      · exact composed (composed_expressionStatement me c)
  · exact unsupported reads (.skip fun _ => .skip fun _ => .skip fun _ => yields_finish) rfl
  · exact unsupported reads (.skip fun _ => .skip fun _ => .skip fun _ => .skip fun _ =>
      .skip fun _ => yields_finish) rfl
  · exact unsupported reads ((reads_forStatement re rs fuel).mono fun _ h => h.2) rfl
  · refine .bump hw fun _ c1 _ _ => .get ?_
    split
    · exact .bind (.pure (.expectPunct fun _ _ => .finish fun _ => composed_nodes (by simp) (by simp)))
    · exact .bind ((me c1).mono fun v _ hv => .bind (.pure (.expectPunct fun _ _ => .finish fun _ =>
        composed_nodes (by simp) (by simpa using hv))))
  · exact .bump hw fun _ c1 _ _ => .expectPunct fun _ _ => .finish fun _ =>
      composed_node (by simp) (by simp) (by simp)
  · exact .bump hw fun _ c1 _ _ => .expectPunct fun _ _ => .finish fun _ =>
      composed_node (by simp) (by simp) (by simp)
  · exact unsupported reads (.skip fun _ => .skip fun _ => .skip fun _ => yields_finish) rfl
  · exact unsupported reads (.skip fun _ => .skip fun _ => .skip fun _ => .skip fun _ => .skip fun _ =>
      .skip fun _ => yields_finish) rfl
  · exact unsupported reads (.skip fun _ => .skip fun _ => .skip fun _ => yields_finish) rfl
  · exact unsupported reads (.skip fun _ => .skip fun _ => .skip fun _ => .skip fun _ =>
      yields_finish) rfl
  · refine .bump hw fun _ c1 _ _ => .eatWord (fun c2 _ => ?_) fun _ => ?_
    · exact .bind ((me c2).mono fun v _ hv => .expectPunct fun _ _ => .finish fun _ =>
        composed_node (by simp) (by simpa using hv) (by simp))
    · exact .expectWord fun _ _ => .expectPunct fun _ _ => .finish fun _ =>
        composed_node (by simp) (by simp) (by simp)
  · exact composed (composed_expressionStatement me c)

include he hs re rs me ms in
theorem composed_statement (fuel : Nat) (c : Cursor) :
    After (Grammar.statement expr stmt fuel) c fun n _ =>
      Staging.isSupported n.kind → Composed n := by
  refine .get ?_
  split
  · exact (composed_block ms fuel c).mono fun _ _ h _ => h
  refine .eatPunct (fun c1 _ => .finish fun _ => composed_node (by simp) (by simp) (by simp)) fun _ => ?_
  simp only [Bool.false_eq_true, if_false]
  split
  · next hk =>
    have hk : c.peek.kind = .ident := eq_of_beq hk
    obtain ⟨ws, hw⟩ := Cursor.words_of_peek (c := c) (by simp [hk])
    refine composed_keywordStatement he hs re rs me ms fuel _ ?_
    rw [hw]
    simp [Lexeme.word, hk]
  · exact (composed_expressionStatement me c).mono fun _ _ h _ => h

include hs ms in
theorem movable_block (fuel : Nat) : Brings Movable (block stmt fuel) := by
  refine fun c => movable_of_reads (stmtReads_block hs fuel c) (fun hc => .start (.expectPunct
    fun c1 hc1 => ?_)) ((composed_block ms fuel c).mono fun _ _ h _ => h)
  exact absurd (by rw [hc1]; rfl) (head_ne_of_ends hc (w := punct openBrace) (by decide))

include he hs re rs me ms in
/-- The nodes of a statement are movable, from the same of the code in it. -/
theorem movable_statements (h : Stuck expr) (fuel : Nat) :
    Brings Movable (Grammar.statement expr stmt fuel) :=
  fun c => movable_of_reads (stmtCouples_statement he hs fuel c) (stuck_statement h fuel c)
    (composed_statement he hs re rs me ms fuel c)

end

/-! ## All that was read -/

theorem movable_code (fuel : Nat) :
    Brings Movable (expression fuel) ∧ Brings Movable (statement fuel) ∧ Stuck (expression fuel) := by
  induction fuel with
  | zero => exact ⟨fun _ => .tooDeep, fun _ => .tooDeep, fun _ _ => .tooDeep⟩
  | succ fuel ih =>
    obtain ⟨me, ms, stuck⟩ := ih
    obtain ⟨he, hs⟩ := couples_code fuel
    obtain ⟨re, rs⟩ := reads_code fuel
    rw [expression, statement]
    exact ⟨movable_expressions he hs re rs me fuel, movable_statements he hs re rs me ms stuck fuel,
      stuck_expression fuel⟩

theorem brings_template (fuel : Nat) :
    Brings Movable (Grammar.template (statement fuel) fuel) := by
  obtain ⟨_, ms, _⟩ := movable_code fuel
  have hs := (couples_code fuel).2
  refine fun c => .start (.expectWord fun c1 _ => .identifier fun t c2 _ _ hw hg => ?_)
  refine .bind (((couples_parameterList fuel c2).and ((brings_parameter fuel).bracketed _ _ fuel c2)).mono
    fun ps c3 ⟨⟨wss, hps, _, hq⟩, mps⟩ => ?_)
  refine .bind (((after_block hs fuel c3).and (movable_block hs ms fuel c3)).mono
    fun b c4 ⟨⟨_, _, hb, _⟩, mb⟩ => .finish ?_)
  have below : ∀ m ∈ ps ++ [b], Movable m := by simpa [or_imp, forall_and] using ⟨mps, mb⟩
  refine movable_of_composed (fun _ => composed_node (by simp) ?_ ?_) nofun nofun fun _ => ⟨wss, ?_⟩
  · simpa [asNodes] using below
  · simpa [asNodes] using fun _ => ⟨hg, hw⟩
  · have kept : (Cursor.finish c4 .template c.start (.token t :: asNodes (ps ++ [b]))).nodes.filter
        (·.kind == .parameter) = ps := by
      have inside : (Cursor.finish c4 .template c.start (.token t :: asNodes (ps ++ [b]))).nodes =
          ps ++ [b] := (Prints.filterMap_asNodes _).1
      rw [inside, List.filter_append, List.filter_eq_self.2 (by simpa using (printsAs_each hps).1)]
      simp [hb]
    rw [kept]
    exact ⟨hps, hq⟩

theorem brings_templates (fuel more : Nat) :
    Brings (fun ns => ∀ n ∈ ns, Movable n) (templates fuel more) := by
  induction more with
  | zero => exact fun _ => .tooDeep
  | succ more ih =>
    refine fun c => .get ?_
    split
    · exact .pure nofun
    · exact .bind ((brings_template fuel c).mono fun n c1 hn => .bind ((ih c1).mono fun ns _ hns =>
        .pure (List.forall_mem_cons.2 ⟨hn, hns⟩)))

/-- The nodes of a text whose constructs have a staged meaning may all be taken out of it. -/
theorem movable_parseUnit {text : String} {n : Node} (h : parseUnit text = .ok n) :
    ∀ t ∈ n.nodes, Movable t := by
  obtain ⟨ns, hp, rfl⟩ := exists_of_parseUnit h
  obtain ⟨c, c', hg, hr⟩ := run_of_parseWith (fun fuel => templates fuel fuel) hp
  rw [Prints.nodes_asNodes]
  exact (brings_templates _ _ c hg ns c' hr).2

/-! ## Without numbers, places and marks -/

theorem prints_bare {n : Node} {ws : List Word} : Prints n.bare ws ↔ Prints n ws := by
  simp only [Prints, Laid, ← renderAt_eq, renderAt_bare]

section

variable {n : Node} {ws : List Word}

theorem alike_bare (hr : IsRead n) : Alike n.bare = Alike n := by
  funext n'
  show (n'.tidy false = (n.bare.tidy true).fencedIf false) = (n'.tidy false = _)
  rw [Node.tidy_bare_of_unmarked true n fun m hm => (hr m hm).1]

theorem ReadsInside.bare (h : ReadsInside n ws) (hr : IsRead n) : ReadsInside n.bare ws :=
  ⟨prints_bare.2 h.prints, h.front, alike_bare hr ▸ h.accepts⟩

theorem ReadsInBlock.bare (h : ReadsInBlock n ws) (hr : IsRead n) : ReadsInBlock n.bare ws :=
  ⟨prints_bare.2 h.prints, h.begins, alike_bare hr ▸ h.accepts⟩

theorem ReadsAsParameters.bare {ps : List Node} {wss : List (List Word)}
    (h : ReadsAsParameters ps wss) (hr : ∀ p ∈ ps, IsRead p) :
    ReadsAsParameters (ps.map Node.bare) wss := by
  refine ⟨List.forall₂_map_left_iff.2 (h.prints.imp fun p ws hp =>
    ⟨(Node.keeps_bare.kind p).trans hp.1, prints_bare.2 hp.2⟩), fun f N hf =>
      (h.accepts f N hf).mono (fun _ h => h) fun ps' hps => ?_⟩
  rw [List.forall₂_map_left_iff]
  obtain ⟨hlen, each⟩ := List.forall₂_iff_get.1 hps
  refine List.forall₂_iff_get.2 ⟨hlen, fun i hi hi' => ?_⟩
  rw [alike_bare (hr _ (List.get_mem ps ⟨i, hi⟩))]
  exact each i hi hi'

theorem parameters_bare (n : Node) : n.bare.nodes.filter (·.kind == .parameter) =
    (n.nodes.filter (·.kind == .parameter)).map Node.bare := by
  rw [Node.through_bare n, List.filter_map]
  congr 2
  funext p
  simp [Node.keeps_bare.kind p]

/-- What was read is portable as it is without its place. -/
theorem Portable.bare (h : Portable n) (hr : IsRead n) : Portable n.bare := by
  have kind := Node.keeps_bare.kind n
  have nodes : n.bare.nodes = n.nodes.map Node.bare := Node.through_bare n
  refine ⟨fun hk => ?_, fun hk => ?_, fun hk => ?_, fun t ht hid => ?_, fun hk m hm => ?_⟩
  · obtain ⟨ws, hw⟩ := h.expression (kind ▸ hk)
    exact ⟨ws, hw.bare hr⟩
  · obtain ⟨ws, hw⟩ := h.statement (kind ▸ hk)
    exact ⟨ws, hw.bare hr⟩
  · obtain ⟨wss, hw⟩ := h.parameters (kind ▸ hk)
    rw [parameters_bare]
    exact ⟨wss, hw.bare fun p hp m hm =>
      hr m (Node.preorder_subset (List.mem_filter.1 hp).1 hm)⟩
  · rw [Node.keeps_bare.tokens n] at ht
    obtain ⟨t, mem, rfl⟩ := List.mem_map.1 ht
    exact h.names t mem hid
  · rw [nodes] at hm
    obtain ⟨m, mem, rfl⟩ := List.mem_map.1 hm
    rw [Node.keeps_bare.kind m]
    exact h.stepped (kind ▸ hk) m mem

/-- Names of portable code, as they stand in the code itself. -/
theorem Portable.isName (h : Portable n.bare) {t : Token} (ht : t ∈ n.tokens)
    (hk : t.kind = .identifier) : IsName t.text := by
  refine h.names t.unplaced ?_ hk
  rw [Node.keeps_bare.tokens n]
  exact List.mem_map_of_mem ht

end

end Stencil.Source
