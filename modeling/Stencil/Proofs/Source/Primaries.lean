import Stencil.Proofs.Source.Parameters

/-!
# Primary expressions read back

What an expression was read from is printed as words that are read at the same level again. This
module states what is known of an expression that was read and shows it for lambdas, queries and
primary expressions, whose parts are expressions and statements in turn.

Results:

* `Rereads`, `ExprCouples`, `StmtCouples` – what a level says of the code it read;
* `after_block`, `after_lambda`, `after_query`;
* `after_primary` – literals, names, parentheses and lists.
-/
namespace Stencil.Source

open Grammar

/-- After a leading `await` the printed words go on as the text did, or with a parenthesis. -/
def Awaits (c : Cursor) (ws : List Word) : Prop :=
  ws.head? = some (name "await") → ∃ w more, ws = name "await" :: w :: more ∧
    (w = punct "(" ∨ c.words[1]? = some w)

theorem awaits_cons {c : Cursor} {w : Word} (h : w ≠ name "await") (ws : List Word) :
    Awaits c (w :: ws) := by
  intro hw
  exact absurd (Option.some.inj hw) h

theorem Awaits.append {c : Cursor} {ws : List Word} (h : Awaits c ws) (hne : ws ≠ [])
    (ws' : List Word) : Awaits c (ws ++ ws') := by
  intro hw
  rw [List.head?_append_of_ne_nil _ hne] at hw
  obtain ⟨w, more, rfl, hl⟩ := h hw
  exact ⟨w, more ++ ws', rfl, hl⟩

theorem Awaits.fenced {c : Cursor} {ws : List Word} (h : Awaits c ws) (fence : Bool) :
    Awaits c (fencedWords fence ws) := by
  cases fence with
  | false => exact h
  | true => exact awaits_cons (by simp [punct]) _

/-- `n` was read from `c` up to `c'` and is printed as `ws`. -/
structure Rereads (c : Cursor) (n : Node) (c' : Cursor) (ws : List Word) : Prop where
  prints : Prints n ws
  kind : n.kind.isExpression = true
  front : IsFront ws = true
  leads : Leads c ws
  awaits : Awaits c ws
  /-- one word is the word that was read -/
  single : ∀ w, ws = [w] → c.words = w :: c'.words ∧ n.kind.fencedOperand = false

/-- What `expr` reads is printed as words that are an expression again. -/
def ExprCouples (expr : Parse Node) : Prop :=
  ∀ c, After expr c fun n c' => ∃ ws, Rereads c n c' ws ∧
    ∀ f, ws.length < f → Accepts (expression f) ws (Stops c') (Alike n)

/-- The same for statements. -/
def StmtCouples (stmt : Parse Node) : Prop :=
  Couples stmt statement StopsElse (PrintsAs fun k => k.isStatement = true) Alike

theorem Rereads.length_pos {c c' : Cursor} {n : Node} {ws : List Word} (h : Rereads c n c' ws) :
    0 < ws.length := h.leads.length_pos

theorem ExprCouples.couples {expr : Parse Node} (h : ExprCouples expr) :
    Couples expr expression Stops (PrintsAs fun k => k.isExpression = true) Alike :=
  fun c => (h c).mono fun _ _ ⟨ws, hr, hq⟩ => ⟨ws, ⟨hr.kind, hr.prints⟩, hr.leads, hq⟩

/-- The places where statements in braces end. -/
theorem stop_block (d : Cursor) :
    d.atPunct closeBrace = (d.words.head? == some (punct closeBrace)) := by
  rw [Bool.eq_iff_iff, Cursor.atPunct_iff, beq_iff_eq]

theorem accepts_block {ns : List Node} {ws : List Word} {f : Nat} {N : Option Word → Prop} {id : Nat}
    {span : Span}
    (h : Accepts (Parse.itemsUntil (·.atPunct closeBrace) (statement f) f) ws
      (fun o => (o == some (punct closeBrace)) = true) (List.Forall₂ Alike ns)) :
    Accepts (block (statement f) f) (punct openBrace :: (ws ++ [punct closeBrace])) N
      (Alike ⟨id, .block, span, [], asNodes ns⟩) := by
  refine .start fun at0 => .expectPunct ?_
  refine h.bind (fun ns' hns' => .expectPunct (.finish fun span => ?_)) fun o _ => by simp
  exact alike_node rfl (alike_asNodes hns')

/-- Statements in braces. -/
theorem after_block {stmt : Parse Node} (hs : StmtCouples stmt) (fuel : Nat) (c : Cursor) :
    After (block stmt fuel) c fun n _ => ∃ ws, Prints n (punct openBrace :: ws) ∧
      n.kind = .block ∧ c.words.head? = some (punct openBrace) ∧
      ∀ f N, ws.length < f →
        Accepts (block (statement f) f) (punct openBrace :: ws) N (Alike n) := by
  refine .start (.expectPunct fun c1 hc1 => ?_)
  refine .bind ((couples_itemsUntil hs (S := (· == some (punct closeBrace))) stop_block
    (by decide) (by decide) fuel c1).mono fun ns c2 ⟨wss, hns, _, hq⟩ => ?_)
  refine .expectPunct fun c3 _ => .finish ?_
  refine ⟨wss.flatten ++ [punct closeBrace], .block (printsAs_each hns).2, rfl,
    by rw [hc1]; rfl, fun f N hf => ?_⟩
  rw [List.length_append] at hf
  exact accepts_block (hq f f (by omega) (by omega))

section

variable {expr stmt : Parse Node} (he : ExprCouples expr) (hs : StmtCouples stmt)

/-! ## Lambdas and queries -/

/-- A lambda whose body is a block, after its parameters. -/
theorem accepts_lambdaBlock {ps ps' : List Node} {body : Node} {f at0 : Nat} {ws : List Word}
    {N : Option Word → Prop} {id : Nat} {span : Span} (hps : List.Forall₂ Alike ps ps')
    (h : Accepts (block (statement f) f) (punct openBrace :: ws) (fun _ => True) (Alike body)) :
    Accepts (do
      Parse.expectPunct "=>"
      let body ← if (← get).atPunct openBrace then block (statement f) f else expression f
      Parse.finish .lambda at0 (asNodes (ps' ++ [body]))) (punct "=>" :: punct openBrace :: ws) N
      (Alike ⟨id, .lambda, span, [], asNodes (ps ++ [body])⟩) := by
  refine .expectPunct (.get fun d rest hd _ => ?_)
  rw [if_pos (Cursor.atPunct_iff.2 (by rw [hd]; rfl)), ← List.append_nil (punct openBrace :: ws)]
  refine h.bind (fun body' hb => .finish fun span => ?_) fun _ _ => trivial
  exact alike_node rfl (alike_asNodes (List.rel_append hps (.cons hb .nil)))

include he hs in
/-- What follows the parameters of a lambda: its arrow, and a block or an expression. -/
theorem after_lambdaBody (fuel at0 : Nat) {ps : List Node} {wss : List (List Word)}
    (hps : LambdaNames ps wss) (c : Cursor) :
    After (do
        Parse.expectPunct "=>"
        let body ← if (← get).atPunct openBrace then block stmt fuel else expr
        Parse.finish .lambda at0 (asNodes (ps ++ [body]))) c fun n c' =>
      ∃ ws, Prints n (punct "(" :: (listed wss ++ punct ")" :: punct "=>" :: ws)) ∧
        n.kind = .lambda ∧
        ∀ f at1 ps', ws.length < f → List.Forall₂ Alike ps ps' →
          Accepts (do
            Parse.expectPunct "=>"
            let body ← if (← get).atPunct openBrace then block (statement f) f else expression f
            Parse.finish .lambda at1 (asNodes (ps' ++ [body]))) (punct "=>" :: ws)
            (Stops c') (Alike n) := by
  refine .expectPunct fun c1 _ => .get ?_
  obtain ⟨kinds, shown⟩ := printsAs_each hps.prints
  split
  · refine .bind ((after_block hs fuel c1).mono fun body c2 ⟨ws, hp, hk, _, hq⟩ => .finish ?_)
    refine ⟨_, .lambda kinds (by rw [hk]; nofun) shown hp, rfl, fun f at1 ps' hf hps' => ?_⟩
    simp only [List.length_cons] at hf
    exact accepts_lambdaBlock hps' (hq f _ (by omega))
  · next hopen =>
    refine .bind ((he c1).mono fun body c2 ⟨ws, hr, hq⟩ => .finish ?_)
    have hk : body.kind ≠ .parameter := fun hk => by simpa [hk, NodeKind.isExpression] using hr.kind
    refine ⟨ws, .lambda kinds hk shown hr.prints, rfl, fun f at1 ps' hf hps' => ?_⟩
    refine .expectPunct (.get fun d rest hd _ => ?_)
    have away : ¬ d.atPunct openBrace = true := by
      rw [Cursor.atPunct_iff, hd, List.head?_append]
      rw [Cursor.atPunct_iff] at hopen
      exact hr.leads.head_ne (by simp [punct, openBrace]) hopen _
    rw [if_neg away, ← List.append_nil ws]
    refine (hq f hf).bind (fun body' hb => .finish fun span => ?_) fun o ho => ho
    exact alike_node rfl (alike_asNodes (List.rel_append hps' (.cons hb .nil)))

include he hs in
theorem after_lambda (fuel : Nat) (c : Cursor) :
    After (lambda expr stmt fuel) c fun n c' => ∃ ws, Rereads c n c' ws ∧
      (∀ rest, lambdaAhead (ws ++ rest) = true) ∧
      ∀ f, ws.length ≤ f →
        Accepts (lambda (expression f) (statement f) f) ws (Stops c') (Alike n) := by
  refine .start ?_
  have named {ps : List Node} {wss : List (List Word)} (hps : LambdaNames ps wss) (c1 : Cursor) :=
    (after_lambdaBody he hs fuel c.start hps c1).mono fun n c' h =>
      show ∃ ws, Rereads c n c' ws ∧ (∀ rest, lambdaAhead (ws ++ rest) = true) ∧
        ∀ f, ws.length ≤ f →
          Accepts (lambda (expression f) (statement f) f) ws (Stops c') (Alike n) by
      obtain ⟨ws, hp, hk, hq⟩ := h
      refine ⟨_, ⟨hp, by rw [hk]; rfl, isFront_cons (by simp) _, ⟨_, rfl, .inl rfl⟩,
        awaits_cons (by simp [punct]) _, by simp⟩,
        fun rest => ?_, fun f hf => ?_⟩
      · simp [lambdaAhead, namesAhead_listed hps.names]
      · simp only [List.length_cons, List.length_append] at hf
        refine .start fun at1 => .eatPunct_hit ?_
        refine (hps.accepts f (by omega)).bind (fun ps' hps' => .expectPunct ?_) fun o _ => rfl
        exact hq f at1 ps' (by omega) hps'
  refine .eatPunct (fun c1 _ => ?_) fun _ => ?_
  · refine .bind ((after_lambdaNames fuel c1).mono ?_)
    rintro ps c2 ⟨wss, hps⟩
    exact .expectPunct fun c3 _ => named hps c3
  · exact .identifier fun t c1 _ hk hw hg =>
      .finish_bind (named (lambdaNames_cons hk hw hg lambdaNames_nil) c1)

include he in
theorem after_query (c : Cursor) :
    After (query expr) c fun n c' => ∃ ws, Rereads c n c' ws ∧ Firm ws ∧
      n.kind = .query ∧ c.words.head? = some (name "from") ∧ ws.head? = some (name "from") ∧
      ∀ f, ws.length ≤ f → Accepts (query (expression f)) ws (Stops c') (Alike n) := by
  refine .start (.expectWord fun c1 hc1 => .identifier fun t c2 hc2 hk hw hg => ?_)
  refine .expectWord fun c3 hc3 => .bind ((he c3).mono fun source c4 ⟨ws, hr, hq⟩ => .start ?_)
  have first : c.words.head? = some (name "from") := by rw [hc1]; rfl
  have front : (name "from").severs = true := by decide
  have firm (ws : List Word) : Firm (name "from" :: ws) :=
    firm_cons (by decide) (by simp [punct]) ws
  refine .eatWord (fun c5 hc5 => ?_) fun hmiss => ?_
  · refine .bind ((he c5).mono fun condition c6 ⟨ws', hr', hq'⟩ => .finish_bind (.bind (.pure ?_)))
    refine .start (.expectWord fun c7 hc7 => .bind ((he c7).mono fun selection c8 ⟨ws'', hr'', hq''⟩ =>
      .finish_bind (.finish ?_)))
    refine ⟨_, ⟨.filteredQuery hk hg hr.kind hr.prints hr'.prints hr''.prints, rfl,
      isFront_cons front _, .of_words hc1, awaits_cons (by simp [name]) _, by simp⟩, firm _, rfl,
      first, rfl, fun f hf => ?_⟩
    simp only [List.length_cons, List.length_append] at hf
    refine .start fun at0 => .expectWord (.identifier hw fun t' hk' ht' => .expectWord ?_)
    refine (hq f (by omega)).bind (fun source' hs => .start fun _ => .eatWord_hit ?_)
      fun o _ => .of_words hc5 (by simp [punct]) o
    refine (hq' f (by omega)).bind (fun condition' hc => .finish_bind fun wspan =>
      .pure_bind (.start fun _ => .expectWord ?_)) fun o _ => .of_words hc7 (by simp [punct]) o
    rw [← List.append_nil ws'']
    refine (hq'' f (by omega)).bind (fun selection' hsel => .finish_bind fun sspan =>
      .finish fun span => ?_) fun o ho => ho
    exact alike_node rfl (.cons (.token (hk'.trans hk.symm) ht') (.cons (.node hs)
      (.cons (.node (alike_node rfl (.cons (.node hc) .nil)))
        (.cons (.node (alike_node rfl (.cons (.node hsel) .nil))) .nil))))
  · refine .bind (.pure (.start (.expectWord fun c7 hc7 => .bind ((he c7).mono
      fun selection c8 ⟨ws'', hr'', hq''⟩ => .finish_bind (.finish ?_)))))
    refine ⟨_, ⟨.query hk hg hr.kind hr.prints hr''.prints, rfl,
      isFront_cons front _, .of_words hc1, awaits_cons (by simp [name]) _, by simp⟩, firm _, rfl,
      first, rfl, fun f hf => ?_⟩
    simp only [List.length_cons, List.length_append] at hf
    refine .start fun at0 => .expectWord (.identifier hw fun t' hk' ht' => .expectWord ?_)
    refine (hq f (by omega)).bind (fun source' hs => .start fun _ => .eatWord_miss
      (fun o _ => by simp [name]) (.pure_bind (.start fun _ => .expectWord ?_)))
      fun o _ => .of_words hc7 (by simp [punct]) o
    rw [← List.append_nil ws'']
    refine (hq'' f (by omega)).bind (fun selection' hsel => .finish_bind fun sspan =>
      .finish fun span => ?_) fun o ho => ho
    exact alike_node rfl (.cons (.token (hk'.trans hk.symm) ht') (.cons (.node hs)
        (.cons (.node (alike_node rfl (.cons (.node hsel) .nil))) .nil)))

end

/-! ## Primary expressions -/

/-- What the grammar asks of a word is told by its kind and text. -/
theorem Lexeme.asks_congr {l l' : Lexeme} (h : l'.word = l.word) :
    literalKind? l' = literalKind? l ∧ (∀ s, l'.isWord s = l.isWord s) ∧ l'.isName = l.isName ∧
      ∀ s, l'.isPunct s = l.isPunct s := by
  obtain ⟨kind, text, span⟩ := l
  obtain ⟨kind', text', span'⟩ := l'
  cases h
  exact ⟨rfl, fun _ => rfl, rfl, fun _ => rfl⟩

/-- Expressions that bind tighter than a binary operator. -/
structure Tight (c : Cursor) (n : Node) (c' : Cursor) (ws : List Word) : Prop
    extends Rereads c n c' ws where
  firm : Firm ws

/-- An operand that is printed bare begins with no operator. -/
def Opening (n : Node) (ws : List Word) : Prop :=
  n.kind.fencedOperand = false → ∀ w, ws.head? = some w → w.1 = .punct → w.2 = "(" ∨ w.2 = "["

structure ReadsPrimary (c : Cursor) (n : Node) (c' : Cursor) (ws : List Word) : Prop
    extends Tight c n c' ws where
  opening : Opening n ws
  noCast : castAhead c.words = false → ∀ rest, castAhead (ws ++ rest) = false
  accepts : ∀ f, ws.length ≤ f → Accepts (primary (expression f) f) ws
    (fun o => n.kind.fencedOperand = true → Stops c' o) (Alike n)

/-- A literal is written as it was read. -/
theorem spelling_of_literalKind? {l : Lexeme} {t : Token} (h : literalKind? l = some t.kind)
    (ht : t.text = l.text) :
    l.kind ≠ .eof ∧ l.kind ≠ .punct ∧ (Layout.literalText t).toList = spelling l.word := by
  obtain ⟨kind, text, span⟩ := l
  obtain ⟨tkind, ttext, tspan⟩ := t
  simp only at ht
  subst ht
  cases kind <;> simp only [literalKind?] at h
  case ident => split at h <;> cases h <;> exact ⟨nofun, nofun, rfl⟩
  case punct | eof => contradiction
  all_goals cases h; exact ⟨nofun, nofun, rfl⟩

/-- A word that is an expression of its own. -/
theorem readsPrimary_word {c c' : Cursor} {n : Node} {w : Word} (hc : c.words = w :: c'.words)
    (hp : Prints n [w]) (hk : n.kind.isExpression = true) (hf : n.kind.fencedOperand = false)
    (hw : w.1 ≠ .punct) (ha : w ≠ name "await")
    (h : ∀ f, Accepts (primary (expression f) f) [w]
      (fun o => n.kind.fencedOperand = true → Stops c' o) (Alike n)) :
    ReadsPrimary c n c' [w] := by
  have away (s : String) : w ≠ punct s := fun he => hw (by rw [he])
  refine ⟨⟨⟨hp, hk, ?_, .of_words hc, awaits_cons ha _, ?_⟩, firm_single (away _)⟩, ?_, ?_,
    fun f _ => h f⟩
  · cases hn : w.isName <;> simp [IsFront, Word.severs, hn, away]
  · rintro v ⟨⟩
    exact ⟨hc, hf⟩
  · rintro _ v ⟨⟩ hv
    contradiction
  · exact fun _ rest => castAhead_cons (away _) _

/-! ### The production that a first word chooses -/

section

variable {f : Nat} {ws : List Word} {N : Option Word → Prop}

theorem accepts_primary_literal {w : Word} {t : Token}
    (h : ∀ l : Lexeme, l.word = w → literalKind? l = some t.kind) (ht : t.text = w.2) {id : Nat}
    {span : Span} :
    Accepts (primary (expression f) f) [w] N (Alike ⟨id, .literal, span, [], [.token t]⟩) := by
  refine .get fun d rest hd _ => ?_
  simp only [h _ (Cursor.peek_of_words hd)]
  refine .takeToken fun t' hk' ht' => .finish fun span => ?_
  exact alike_node rfl (.cons (.token hk' (ht'.trans ht.symm)) .nil)

theorem accepts_primary_this {id : Nat} {span : Span} :
    Accepts (primary (expression f) f) [name "this"] N (Alike ⟨id, .this, span, [], []⟩) := by
  refine .get fun d rest hd _ => ?_
  obtain ⟨hk, hword, _⟩ := Lexeme.asks_congr (l := ⟨.ident, "this", .detached⟩)
    (Cursor.peek_of_words hd)
  simp only [hk, hword]
  exact .bump fun _ _ => .finish fun span => alike_node rfl .nil

theorem accepts_primary_query {Q : Node → Prop}
    (h : Accepts (query (expression f)) (name "from" :: ws) N Q) :
    Accepts (primary (expression f) f) (name "from" :: ws) N Q := by
  refine .get fun d rest hd _ => ?_
  obtain ⟨hk, hword, _⟩ := Lexeme.asks_congr (l := ⟨.ident, "from", .detached⟩)
    (Cursor.peek_of_words hd)
  simp only [hk, hword]
  exact h

/-- A name is neither a literal nor a keyword that starts an expression. -/
theorem literalKind?_name {s : String} (h : isKeyword s = false) :
    literalKind? ⟨.ident, s, .detached⟩ = none ∧
      Lexeme.isWord ⟨.ident, s, .detached⟩ "this" = false ∧
      Lexeme.isWord ⟨.ident, s, .detached⟩ "from" = false ∧
      Lexeme.isName ⟨.ident, s, .detached⟩ = true := by
  have other {k : String} (hk : isKeyword k = true) : s ≠ k := by
    rintro rfl
    rw [h] at hk
    contradiction
  refine ⟨?_, by simpa [Lexeme.isWord] using other (by decide),
    by simpa [Lexeme.isWord] using other (by decide), by simp [Lexeme.isName, h]⟩
  unfold literalKind?
  dsimp only
  split
  · exact absurd rfl (other (by decide))
  · exact absurd rfl (other (by decide))
  · exact absurd rfl (other (by decide))
  · exact absurd rfl (other (by decide))
  · rfl

theorem accepts_primary_identifier {t : Token} (hk : t.kind = .identifier)
    (hw : isKeyword t.text = false) {id : Nat} {span : Span} :
    Accepts (primary (expression f) f) [name t.text] N
      (Alike ⟨id, .identifier, span, [], [.token t]⟩) := by
  refine .get fun d rest hd _ => ?_
  obtain ⟨h1, h2, h3, _⟩ := Lexeme.asks_congr (l := ⟨.ident, t.text, .detached⟩)
    (Cursor.peek_of_words hd)
  obtain ⟨hnone, hthis, hfrom, hname⟩ := literalKind?_name hw
  simp only [h1, h2, h3, hnone, hthis, hfrom, hname, Bool.false_eq_true, if_false, if_true]
  refine .identifier hw fun t' hk' ht' => .finish fun span => ?_
  exact alike_node rfl (.cons (.token (hk'.trans hk.symm) ht') .nil)

/-- An expression is read back from parentheses. -/
theorem accepts_primary_parens {n : Node}
    (h : Accepts (expression f) ws (· = some (punct ")")) (Alike n)) :
    Accepts (primary (expression f) f) (inParens ws) N (AlikeIn true n) := by
  refine .get fun d rest hd _ => ?_
  obtain ⟨hk, hword, hname, hpunct⟩ := Lexeme.asks_congr (l := ⟨.punct, "(", .detached⟩)
    (Cursor.peek_of_words hd)
  simp only [hk, hword, hname, hpunct]
  refine .bump fun _ _ => ?_
  exact h.bind (fun n' hn => .expectPunct (.finish fun span => alikeIn_parens hn)) fun o _ => rfl

theorem accepts_primary_list {ns : List Node} {id : Nat} {span : Span}
    (h : Accepts (Parse.bracketed "[" "]" (expression f) f) (punct "[" :: ws) (fun _ => True)
      (List.Forall₂ Alike ns)) :
    Accepts (primary (expression f) f) (punct "[" :: ws) N
      (Alike ⟨id, .list, span, [], asNodes ns⟩) := by
  refine .get fun d rest hd _ => ?_
  obtain ⟨hk, hword, hname, hpunct⟩ := Lexeme.asks_congr (l := ⟨.punct, "[", .detached⟩)
    (Cursor.peek_of_words hd)
  simp only [hk, hword, hname, hpunct]
  rw [← List.append_nil (punct "[" :: ws)]
  refine h.bind (fun ns' hns => .finish fun span => ?_) fun _ _ => trivial
  exact alike_node rfl (alike_asNodes hns)

end

/-! ### Primary expressions that were read -/

/-- An expression in parentheses that are not those of a cast. -/
theorem readsPrimary_parens {c c' : Cursor} {n : Node} {ws : List Word} {id : Nat} {span : Span}
    (hc : c.words.head? = some (punct "(")) (hp : Prints n ws) (hfront : IsFront ws = true)
    (hcast : castAhead c.words = false → ∀ rest, castAhead (inParens ws ++ rest) = false)
    (hq : ∀ f, ws.length < f → Accepts (expression f) ws (· = some (punct ")")) (Alike n)) :
    ReadsPrimary c ⟨id, .parenthesized, span, [], [.node n]⟩ c' (inParens ws) := by
  obtain ⟨more, hw⟩ := List.head?_eq_some_iff.1 hc
  refine ⟨⟨⟨.parenthesized hp, rfl, isFront_cons (by simp) _, .of_words hw,
    awaits_cons (by simp [punct]) _, by simp [inParens]⟩, firm_inParens hfront⟩, ?_, hcast,
    fun f hf => ?_⟩
  · intro _ w hhead _
    cases hhead
    exact .inl rfl
  · simp only [inParens, List.length_cons, List.length_append] at hf
    exact (accepts_primary_parens (hq f (by omega))).mono (fun _ h => h) fun _ h => h.parenthesized

section

variable {expr : Parse Node} (he : ExprCouples expr)

include he in
theorem after_parens (c : Cursor) (hc : c.words.head? = some (punct "(")) :
    After (do
      let _ ← Parse.bump
      let inner ← expr
      Parse.expectPunct ")"
      Parse.finish .parenthesized c.start [.node inner]) c
      fun n c' => ∃ ws, ReadsPrimary c n c' ws := by
  obtain ⟨more, hw⟩ := List.head?_eq_some_iff.1 hc
  refine .bump hw fun _ c1 _ hc1 => .bind ((he c1).mono fun inner c2 ⟨ws, hr, hq⟩ => ?_)
  refine .expectPunct fun c3 hc3 => .finish ⟨inParens ws, readsPrimary_parens hc hr.prints hr.front
    (fun hcast => ?_) fun f hf => (hq f hf).mono (fun o ho => ?_) fun _ h => h⟩
  · -- a single name inside was read between the same parentheses
    refine castAhead_inParens hr.front fun w hws htype => ?_
    have := (hr.single w hws).1
    rw [hw, ← hc1, this, hc3] at hcast
    simp [castAhead, htype.1, htype.2] at hcast
  · rw [ho]
    exact .closing c2

include he in
theorem after_list (fuel : Nat) (c : Cursor) :
    After (do
      let elements ← Parse.bracketed "[" "]" expr fuel
      Parse.finish .list c.start (asNodes elements)) c
      fun n c' => ∃ ws, ReadsPrimary c n c' ws := by
  refine .bind ((couples_bracketed he.couples (by decide) (by decide) fuel c).mono
    fun elements c' ⟨wss, hs, hfirst, hq⟩ => .finish ⟨punct "[" :: (listed wss ++ [punct "]"]), ?_⟩)
  obtain ⟨more, hw⟩ := List.head?_eq_some_iff.1 hfirst
  refine ⟨⟨⟨.list (printsAs_each hs).2, rfl, isFront_cons (by simp) _, .of_words hw,
    awaits_cons (by simp [punct]) _, by simp⟩, firm_cons rfl (by simp [punct]) _⟩, ?_,
    fun _ _ => castAhead_cons (by simp [punct]) _, fun f hf => ?_⟩
  · intro _ w hhead _
    cases hhead
    exact .inr rfl
  · simp only [List.length_cons, List.length_append] at hf
    exact accepts_primary_list (hq f _ (by omega))

/-- A literal is no `await`. -/
theorem word_ne_of_literalKind? {l : Lexeme} {kind : TokenKind} (h : literalKind? l = some kind) :
    l.word ≠ name "await" := by
  intro he
  rw [(Lexeme.asks_congr (l := ⟨.ident, "await", .detached⟩) he).1] at h
  contradiction

include he in
theorem after_primary (fuel : Nat) (c : Cursor) :
    After (primary expr fuel) c fun n c' => ∃ ws, ReadsPrimary c n c' ws := by
  intro hc
  refine After.get ?_ hc
  dsimp only
  split
  · next kind hkind =>
    have present : c.peek.kind ≠ .eof :=
      (spelling_of_literalKind? (t := ⟨kind, c.peek.text, .detached⟩) hkind rfl).1
    obtain ⟨ws, hw⟩ := Cursor.words_of_peek present
    refine .takeToken hw fun t c' hk ht hc' => .finish ⟨[c.peek.word], ?_⟩
    subst hk
    obtain ⟨_, hp, hs⟩ := spelling_of_literalKind? hkind ht
    refine readsPrimary_word (by rw [hw, hc']) (.literal (hc _ (by simp [hw])) hp hs) rfl rfl hp
      (word_ne_of_literalKind? hkind) fun f => accepts_primary_literal (fun l hl => ?_) ht
    rw [(Lexeme.asks_congr hl).1, hkind]
  split
  · next hthis =>
    obtain ⟨ws, hw⟩ := List.head?_eq_some_iff.1 (Cursor.atWord_iff.1 hthis)
    refine .bump hw fun l c' _ hc' => .finish ⟨[name "this"], ?_⟩
    exact readsPrimary_word (by rw [hw, hc']) .this rfl rfl (by simp) (by simp [name])
      fun f => accepts_primary_this
  split
  · refine (after_query he c).mono fun n c' ⟨ws, hr, hfirm, hk, _, hws, hq⟩ => ⟨ws, ?_⟩
    obtain ⟨ws, rfl⟩ := List.head?_eq_some_iff.1 hws
    refine ⟨⟨hr, hfirm⟩, fun hf => ?_, fun _ _ => castAhead_cons (by simp [punct]) _,
      fun f hf => accepts_primary_query ((hq f hf).mono (fun o ho => ho (by rw [hk]; rfl))
        fun _ h => h)⟩
    simp [hk, NodeKind.fencedOperand] at hf
  split
  · refine .identifier fun t c' hc' hk hw hg => .finish ⟨[name t.text], ?_⟩
    refine readsPrimary_word hc' (.identifier hk hg) rfl rfl (by simp) (fun he => ?_)
      fun f => accepts_primary_identifier hk hw
    have : t.text = "await" := congrArg Prod.snd he
    rw [this] at hw
    exact absurd hw (by decide)
  split
  · next hparen => exact after_parens he c (Cursor.atPunct_iff.1 hparen)
  split
  · exact after_list he fuel c
  · exact .fail _

end

end Stencil.Source
