import Stencil.Proofs.Source.Expressions

/-!
# Statements read back

A statement is told by its first word. What it was read from is printed as words with the same
first word, or as an expression that a parenthesis was put in front of, so the same production reads
it again; an `else` belongs to the statement it belonged to.

Results:

* `StmtReads` – what is known of a statement that was read;
* `stmtCouples_statement` – the law of statements, from the laws of their parts;
* `couples_code` – both laws, by induction on the fuel; `after_templates` for whole files.
-/
namespace Stencil.Source

open Grammar

/-- `n` was read from `c` up to `c'` and is read back from what it prints. -/
def StmtReads (c : Cursor) (n : Node) (c' : Cursor) : Prop :=
  ∃ ws, PrintsAs (fun k => k.isStatement = true) n ws ∧ Leads c ws ∧
    ∀ f, ws.length < f → Accepts (statement f) ws (StopsElse c') (Alike n)

section

variable {f : Nat} {N : Option Word → Prop} {Q : Node → Prop} {ws : List Word}

theorem accepts_keyword {word : String}
    (h : ∀ at0, Accepts (keywordStatement (expression f) (statement f) f at0 word)
      (name word :: ws) N Q) : Accepts (statement (f + 1)) (name word :: ws) N Q := by
  rw [statement]
  refine .get fun d rest hd _ => ?_
  rw [if_neg (by rw [Cursor.atPunct_iff, hd]; simp [punct])]
  have hl := Cursor.peek_of_words hd
  have hk : d.peek.kind = .ident := congrArg Prod.fst hl
  have ht : d.peek.text = word := congrArg Prod.snd hl
  refine .eatPunct_miss (fun o _ => by simp [punct]) ?_
  simp only [hk, ht, beq_self_eq_true, if_true]
  exact h _

/-- A statement that a keyword opens. -/
theorem stmtReads_keyword {c c' : Cursor} {n : Node} {word : String}
    (hc : c.words.head? = some (name word)) (hk : n.kind.isStatement = true)
    (hp : Prints n (name word :: ws))
    (hq : ∀ f at0, ws.length < f → Accepts (keywordStatement (expression f) (statement f) f at0 word)
      (name word :: ws) (StopsElse c') (Alike n)) : StmtReads c n c' := by
  obtain ⟨more, hc⟩ := List.head?_eq_some_iff.1 hc
  refine ⟨_, ⟨hk, hp⟩, .of_words hc, fun f hf => ?_⟩
  obtain ⟨f, rfl⟩ : ∃ f', f = f' + 1 := ⟨f - 1, by omega⟩
  exact accepts_keyword fun at0 => hq f at0 (by simp only [List.length_cons] at hf; omega)

end

section

variable {expr stmt : Parse Node} (he : ExprCouples expr) (hs : StmtCouples stmt)

/-! ## Declarations -/

theorem accepts_initialized {t : Token} {value : Node} {f : Nat} {ws : List Word}
    {N : Option Word → Prop} {id : Nat} {span : Span} (hk : t.kind = .identifier)
    (hw : isKeyword t.text = false) (h : Accepts (expression f) ws N (Alike value)) :
    Accepts (declarator (expression f)) (name t.text :: punct "=" :: ws) N
      (Alike ⟨id, .declarator, span, [], [.token t, .node value]⟩) := by
  refine .start fun at0 => .identifier hw fun t' hk' ht' => .eatPunct_hit ?_
  rw [← List.append_nil ws]
  refine h.bind (fun value' hv => .finish fun span => ?_) fun o ho => ho
  exact alike_node rfl (.cons (.token (hk'.trans hk.symm) ht') (.cons (.node hv) .nil))

include he in
theorem couples_declarator :
    Couples (declarator expr) (fun f => declarator (expression f)) Stops
      (PrintsAs (· = .declarator)) Alike := by
  intro c
  refine .start (.identifier fun t c1 hc1 hk hw hg => ?_)
  refine .eatPunct (fun c2 hc2 => ?_) fun hmiss => .finish ?_
  · refine .bind ((he c2).mono fun value c' ⟨ws, hr, hq⟩ => .finish ?_)
    refine ⟨_, ⟨rfl, .initialized hk hg hr.prints⟩, .of_words hc1, fun f hf => ?_⟩
    simp only [List.length_cons] at hf
    exact accepts_initialized hk hw (hq f (by omega))
  · refine ⟨[name t.text], ⟨rfl, .declarator hk hg⟩, .of_words hc1, fun f hf => .start fun at0 => ?_⟩
    refine .identifier hw fun t' hk' ht' => .eatPunct_miss (fun o ho => ?_) (.finish fun span => ?_)
    · exact ho.ne (by simp [punct]) hmiss
    · exact alike_node rfl (.cons (.token (hk'.trans hk.symm) ht') .nil)

/-- The node of a declaration of these variables. -/
def IsDeclaration (ds : List Node) (n : Node) : Prop :=
  ∃ span, n = ⟨0, .localDeclaration, span, [], asNodes ds⟩

theorem accepts_declaration {ds : List Node} {ws : List Word} {f : Nat} {N : Option Word → Prop}
    (h : Accepts (Parse.separated (declarator (expression f)) f) ws N (List.Forall₂ Alike ds)) :
    Accepts (declaration (expression f) f) (name "var" :: ws) N
      (fun n' => ∃ ds', IsDeclaration ds' n' ∧ List.Forall₂ Alike ds ds') := by
  refine .start fun at0 => .expectWord ?_
  rw [← List.append_nil ws]
  exact h.bind (fun ds' hds' => .finish fun span => ⟨ds', ⟨span, rfl⟩, hds'⟩) fun o ho => ho

include he in
theorem after_declaration (fuel : Nat) (c : Cursor) :
    After (declaration expr fuel) c fun n c' => ∃ ds wss, IsDeclaration ds n ∧
      List.Forall₂ (PrintsAs (· = .declarator)) ds wss ∧ c.words.head? = some (name "var") ∧
      ∀ f, (listed wss).length < f →
        Accepts (declaration (expression f) f) (name "var" :: listed wss) (Stops c')
          (fun n' => ∃ ds', IsDeclaration ds' n' ∧ List.Forall₂ Alike ds ds') := by
  refine .start (.expectWord fun c1 hc1 => ?_)
  refine .bind ((couples_separated (couples_declarator he) fuel c1).mono
    fun ds c' ⟨wss, _, hds, _, hq⟩ => .finish ?_)
  exact ⟨ds, wss, ⟨_, rfl⟩, hds, by rw [hc1]; rfl, fun f hf =>
    accepts_declaration (hq f f hf (by omega))⟩

theorem IsDeclaration.alike {ds ds' : List Node} {n n' : Node} (h : IsDeclaration ds n)
    (h' : IsDeclaration ds' n') (hs : List.Forall₂ Alike ds ds') : Alike n n' := by
  obtain ⟨span, rfl⟩ := h
  obtain ⟨span', rfl⟩ := h'
  exact alike_node rfl (alike_asNodes hs)

theorem IsDeclaration.nodes {ds : List Node} {n : Node} (h : IsDeclaration ds n) : n.nodes = ds := by
  obtain ⟨span, rfl⟩ := h
  exact Prints.nodes_asNodes _ ds

/-! ## Conditions and branches -/

theorem accepts_parenthesizedCondition {n : Node} {f : Nat} {ws : List Word}
    {N : Option Word → Prop}
    (h : Accepts (expression f) ws (· = some (punct ")")) (Alike n)) :
    Accepts (parenthesizedCondition (expression f)) (inParens ws) N (Alike n) :=
  .expectPunct (h.bind (fun _ hn => .expectPunct (.pure hn)) fun _ _ => rfl)

include he in
theorem after_parenthesizedCondition (c : Cursor) :
    After (parenthesizedCondition expr) c fun n _ => ∃ ws, Prints n ws ∧
      n.kind.isExpression = true ∧ ∀ f N, ws.length < f →
        Accepts (parenthesizedCondition (expression f)) (inParens ws) N (Alike n) := by
  refine .expectPunct fun c1 _ => .bind ((he c1).mono fun n c2 ⟨ws, hr, hq⟩ => ?_)
  refine .expectPunct fun c3 _ => .pure ⟨ws, hr.prints, hr.kind, fun f N hf =>
    accepts_parenthesizedCondition ((hq f hf).mono (fun o ho => ?_) fun _ hn => hn)⟩
  rw [ho]
  exact .closing c2

section

variable {m b e : Node} {f at0 : Nat} {ws wb we : List Word} {N : Option Word → Prop} {id : Nat}
  {span : Span}

theorem accepts_ifStatement
    (hm : Accepts (parenthesizedCondition (expression f)) (inParens ws) (fun _ => True) (Alike m))
    (hb : Accepts (statement f) wb N (Alike b)) (hN : ∀ o, N o → o ≠ some (name "else")) :
    Accepts (keywordStatement (expression f) (statement f) f at0 "if")
      (name "if" :: punct "(" :: (ws ++ punct ")" :: wb)) N
      (Alike ⟨id, .ifStatement, span, [], asNodes [m, b]⟩) := by
  show Accepts (ifStatement (expression f) (statement f)) _ _ _
  rw [show punct "(" :: (ws ++ punct ")" :: wb) = inParens ws ++ wb by simp [inParens]]
  refine .start fun at1 => .expectWord (hm.bind (fun m' hm => ?_) fun _ _ => trivial)
  rw [← List.append_nil wb]
  refine hb.bind (fun b' hb' => .start fun _ => .eatWord_miss hN (.finish fun span => ?_))
    fun o ho => ho
  exact alike_node rfl (.cons (.node hm) (.cons (.node hb') .nil))

theorem accepts_ifElse {eid : Nat} {espan : Span} {N' : Option Word → Prop}
    (hm : Accepts (parenthesizedCondition (expression f)) (inParens ws) (fun _ => True) (Alike m))
    (hb : Accepts (statement f) wb N' (Alike b)) (hN' : N' (some (name "else")))
    (he : Accepts (statement f) we N (Alike e)) :
    Accepts (keywordStatement (expression f) (statement f) f at0 "if")
      (name "if" :: punct "(" :: (ws ++ punct ")" :: (wb ++ name "else" :: we))) N
      (Alike ⟨id, .ifStatement, span, [],
        asNodes [m, b, ⟨eid, .elseClause, espan, [], [.node e]⟩]⟩) := by
  show Accepts (ifStatement (expression f) (statement f)) _ _ _
  rw [show punct "(" :: (ws ++ punct ")" :: (wb ++ name "else" :: we)) =
    inParens ws ++ (wb ++ name "else" :: we) by simp [inParens]]
  refine .start fun at1 => .expectWord (hm.bind (fun m' hm => ?_) fun _ _ => trivial)
  refine hb.bind (fun b' hb' => .start fun _ => .eatWord_hit ?_) fun o _ => hN'
  rw [← List.append_nil we]
  refine he.bind (fun e' he' => .finish_bind fun span => .finish fun span' => ?_) fun o ho => ho
  exact alike_node rfl (.cons (.node hm) (.cons (.node hb')
    (.cons (.node (alike_node rfl (.cons (.node he') .nil))) .nil)))

end

include he hs in
theorem after_ifStatement (c : Cursor) : After (ifStatement expr stmt) c (StmtReads c) := by
  refine .start (.expectWord fun c1 hc1 => ?_)
  have first : c.words.head? = some (name "if") := by rw [hc1]; rfl
  refine .bind ((after_parenthesizedCondition he c1).mono fun m c2 ⟨ws, hp, hk, hq⟩ => ?_)
  refine .bind ((hs c2).mono fun b c3 ⟨wb, hb, _, hqb⟩ => .start ?_)
  refine .eatWord (fun c4 hc4 => ?_) fun hmiss => .finish ?_
  · refine .bind ((hs c4).mono fun e c' ⟨we, hpe, _, hqe⟩ => .finish_bind (.finish ?_))
    refine stmtReads_keyword first rfl (.ifElse hk hb.1 hp hb.2 hpe.2) fun f at0 hf => ?_
    simp only [List.length_cons, List.length_append] at hf
    exact accepts_ifElse (hq f _ (by omega)) (hqb f (by omega)) (fun _ => by rw [hc4]; rfl)
      (hqe f (by omega))
  · refine stmtReads_keyword first rfl (.ifStatement hk hb.1 hp hb.2) fun f at0 hf => ?_
    simp only [List.length_cons, List.length_append] at hf
    exact accepts_ifStatement (hq f _ (by omega)) (hqb f (by omega)) fun o ho he => hmiss (ho he)

/-! ## Loops -/

theorem accepts_forEachStatement {t : Token} {s b : Node} {f at1 : Nat} {ws wb : List Word}
    {parts parts' : List (Child Node)} {N N' : Option Word → Prop} {id : Nat} {span : Span}
    (hk : t.kind = .identifier) (hw : isKeyword t.text = false)
    (hs : Accepts (expression f) ws N' (Alike s)) (hN' : N' (some (punct ")")))
    (hb : Accepts (statement f) wb N (Alike b)) (hparts : List.Forall₂ Child.Alike parts parts') :
    Accepts (forEachStatement (expression f) (statement f) at1 parts')
      (name "foreach" :: punct "(" :: name "var" :: name t.text :: name "in" ::
        (ws ++ punct ")" :: wb)) N
      (Alike ⟨id, .forEachStatement, span, [], parts ++ [.token t, .node s, .node b]⟩) := by
  refine .expectWord (.expectPunct (.expectWord (.identifier hw fun t' hk' ht' => .expectWord ?_)))
  refine hs.bind (fun s' hs' => .expectPunct ?_) fun o _ => hN'
  rw [← List.append_nil wb]
  refine hb.bind (fun b' hb' => .finish fun span => ?_) fun o ho => ho
  exact alike_node rfl (List.rel_append hparts
    (.cons (.token (hk'.trans hk.symm) ht') (.cons (.node hs') (.cons (.node hb') .nil))))

include he hs in
/-- A loop over a source; `parts` holds the keyword in front of it, if there is one. -/
theorem after_forEachStatement (at0 : Nat) (parts : List (Child Node)) (c : Cursor) :
    After (forEachStatement expr stmt at0 parts) c fun n c' => ∃ t s b ws wb,
      (∃ span, n = ⟨0, .forEachStatement, span, [], parts ++ [.token t, .node s, .node b]⟩) ∧
      t.kind = .identifier ∧ Genuine (name t.text) ∧ Prints s ws ∧ Prints b wb ∧
      c.words.head? = some (name "foreach") ∧
      ∀ f at1 parts', ws.length < f → wb.length < f → List.Forall₂ Child.Alike parts parts' →
        Accepts (forEachStatement (expression f) (statement f) at1 parts')
          (name "foreach" :: punct "(" :: name "var" :: name t.text :: name "in" ::
            (ws ++ punct ")" :: wb)) (StopsElse c') (Alike n) := by
  refine .expectWord fun c1 hc1 => .expectPunct fun c2 _ => .expectWord fun c3 _ => ?_
  refine .identifier fun t c4 _ hk hw hg => .expectWord fun c5 _ => ?_
  refine .bind ((he c5).mono fun s c6 ⟨ws, hr, hq⟩ => .expectPunct fun c7 hc7 => ?_)
  refine .bind ((hs c7).mono fun b c' ⟨wb, hb, _, hqb⟩ => .finish ?_)
  exact ⟨t, s, b, ws, wb, ⟨_, rfl⟩, hk, hg, hr.prints, hb.2, by rw [hc1]; rfl,
    fun f at1 parts' hf hfb hparts =>
      accepts_forEachStatement hk hw (hq f hf) (.closing c6) (hqb f hfb) hparts⟩

include he hs in
theorem after_usingStatement (fuel at0 : Nat) (parts : List (Child Node)) (c : Cursor) :
    After (usingStatement expr stmt fuel at0 parts) c fun n c' => ∃ d b wss wb,
      (∃ span, n = ⟨0, .usingStatement, span, [], parts ++ [.node d, .node b]⟩) ∧
      List.Forall₂ (PrintsAs (· = .declarator)) d.nodes wss ∧ Prints b wb ∧
      c.words.head? = some (name "using") ∧
      ∀ f at1 parts', (listed wss).length < f → wb.length < f →
        List.Forall₂ Child.Alike parts parts' →
        Accepts (usingStatement (expression f) (statement f) f at1 parts')
          (name "using" :: punct "(" :: name "var" :: (listed wss ++ punct ")" :: wb))
          (StopsElse c') (Alike n) := by
  refine .expectWord fun c1 hc1 => .expectPunct fun c2 _ => ?_
  refine .bind ((after_declaration he fuel c2).mono fun d c3 ⟨ds, wss, hd, hds, _, hq⟩ => ?_)
  refine .expectPunct fun c4 hc4 => .bind ((hs c4).mono fun b c' ⟨wb, hb, _, hqb⟩ => .finish ?_)
  refine ⟨d, b, wss, wb, ⟨_, rfl⟩, by rwa [hd.nodes], hb.2, by rw [hc1]; rfl,
    fun f at1 parts' hf hfb hparts => ?_⟩
  refine .expectWord (.expectPunct ?_)
  refine (hq f hf).bind (v := punct ")" :: wb) (fun d' ⟨ds', hd', hds'⟩ => .expectPunct ?_)
    fun o _ => .of_words hc4 (by simp [punct]) o
  rw [← List.append_nil wb]
  refine (hqb f hfb).bind (fun b' hb' => .finish fun span => ?_) fun o ho => ho
  exact alike_node rfl (List.rel_append hparts
    (.cons (.node (hd.alike hd' hds')) (.cons (.node hb') .nil)))

include he hs in
/-- A subject in parentheses and a statement. -/
theorem after_guarded {kind : NodeKind} {word : String} (hkind : kind.hasOperand = false)
    (hstmt : kind.isStatement = true) (at0 : Nat) (c : Cursor)
    (hc : c.words.head? = some (name word))
    (hp : ∀ {span subject body ws wb}, Prints subject ws → Prints body wb →
      Prints ⟨0, kind, span, [], asNodes [subject, body]⟩
        (name word :: punct "(" :: (ws ++ punct ")" :: wb)))
    (hq : ∀ f at1, keywordStatement (expression f) (statement f) f at1 word = (do
      let _ ← Parse.bump
      let subject ← parenthesizedCondition (expression f)
      let body ← statement f
      Parse.finish kind at1 (asNodes [subject, body]))) :
    After (do
      let _ ← Parse.bump
      let subject ← parenthesizedCondition expr
      let body ← stmt
      Parse.finish kind at0 (asNodes [subject, body])) c (StmtReads c) := by
  obtain ⟨more, hw⟩ := List.head?_eq_some_iff.1 hc
  refine .bump hw fun _ c1 _ _ => ?_
  refine .bind ((after_parenthesizedCondition he c1).mono fun m c2 ⟨ws, hm, _, hqm⟩ => ?_)
  refine .bind ((hs c2).mono fun b c' ⟨wb, hb, _, hqb⟩ => .finish ?_)
  refine stmtReads_keyword hc hstmt (hp hm hb.2) fun f at1 hf => ?_
  simp only [List.length_cons, List.length_append] at hf
  rw [hq, show punct "(" :: (ws ++ punct ")" :: wb) = inParens ws ++ wb by simp [inParens]]
  refine .bump fun _ _ => ?_
  refine (hqm f (fun _ => True) (by omega)).bind (fun m' hm' => ?_) fun _ _ => trivial
  rw [← List.append_nil wb]
  refine (hqb f (by omega)).bind (fun b' hb' => .finish fun span => ?_) fun o ho => ho
  exact alike_node hkind (.cons (.node hm') (.cons (.node hb') .nil))

theorem accepts_emptyPart_bind {k : Node → Parse Node} {ws : List Word} {N : Option Word → Prop}
    {Q : Node → Prop} (h : ∀ span, Accepts (k ⟨0, .emptyStatement, span, [], []⟩) ws N Q) :
    Accepts (emptyPart >>= k) ws N Q :=
  fun d rest hd ho => h _ d rest hd ho

include he in
/-- The condition or the increment of a `for` header, up to the word that closes it. -/
theorem after_forPart {closing : String} (hclosing : closing ≠ "(" ∧ closing ≠ "=>")
    {k : Node → Parse Node} {Φ : Node → Cursor → Prop} (c : Cursor)
    (h : ∀ n ws c', Prints.Part n ws →
      (∀ f (k' : Node → Parse Node) vs N Q, ws.length < f →
        (∀ n', Alike n n' → Accepts (k' n') vs N Q) →
        Accepts (do
          let part ← if (← get).atPunct closing then emptyPart else expression f
          Parse.expectPunct closing
          k' part) (ws ++ punct closing :: vs) N Q) → After (k n) c' Φ) :
    After (do
      let part ← if (← get).atPunct closing then emptyPart else expr
      Parse.expectPunct closing
      k part) c Φ := by
  refine .get ?_
  split
  · next hend =>
    refine .bind (.start (.pure (.expectPunct fun c1 _ => h _ [] c1 .empty ?_)))
    intro f k' vs N Q _ hk
    refine .get fun d rest hd _ => ?_
    rw [if_pos (Cursor.atPunct_iff.2 (by rw [hd]; rfl))]
    exact accepts_emptyPart_bind fun span => .expectPunct (hk _ (alike_node rfl .nil))
  · next hend =>
    refine .bind ((he c).mono fun n c1 ⟨ws, hr, hq⟩ => .expectPunct fun c2 hc2 => ?_)
    refine h n ws c2 (.expression hr.kind hr.prints) fun f k' vs N Q hf hk => ?_
    refine .get fun d rest hd _ => ?_
    have away : ¬ d.atPunct closing = true := by
      rw [Cursor.atPunct_iff, hd, List.append_assoc, List.head?_append]
      rw [Cursor.atPunct_iff] at hend
      exact hr.leads.head_ne (by simpa [punct] using hclosing.1) hend _
    rw [if_neg away]
    exact (hq f hf).bind (fun n' hn => .expectPunct (hk n' hn))
      fun o _ => .of_words hc2 (by simpa [punct] using hclosing.2) o

include he in
/-- The first part of a `for` header. -/
theorem after_initializer (fuel : Nat) {k : Node → Parse Node} {Φ : Node → Cursor → Prop}
    (c : Cursor)
    (h : ∀ n ws c', Prints.Part n ws →
      (∀ f (k' : Node → Parse Node) vs N Q, ws.length < f →
        (∀ n', Alike n n' → Accepts (k' n') vs N Q) →
        Accepts (do
          let c ← get
          let initializer ←
            if c.atPunct ";" then emptyPart
            else if c.atWord "var" then declaration (expression f) f
            else do
              let value ← expression f
              Parse.finish .expressionStatement c.start [.node value]
          Parse.expectPunct ";"
          k' initializer) (ws ++ punct ";" :: vs) N Q) → After (k n) c' Φ) :
    After (do
      let c ← get
      let initializer ←
        if c.atPunct ";" then emptyPart
        else if c.atWord "var" then declaration expr fuel
        else do
          let value ← expr
          Parse.finish .expressionStatement c.start [.node value]
      Parse.expectPunct ";"
      k initializer) c Φ := by
  refine .get ?_
  split
  · next hend =>
    refine .bind (.start (.pure (.expectPunct fun c1 _ => h _ [] c1 .empty ?_)))
    intro f k' vs N Q _ hk
    refine .get fun d rest hd _ => ?_
    rw [if_pos (Cursor.atPunct_iff.2 (by rw [hd]; rfl))]
    exact accepts_emptyPart_bind fun span => .expectPunct (hk _ (alike_node rfl .nil))
  · next hend =>
    split
    · next hvar =>
      refine .bind ((after_declaration he fuel c).mono fun n c1 ⟨ds, wss, hn, hds, _, hq⟩ => ?_)
      refine .expectPunct fun c2 hc2 => h n (name "var" :: listed wss) c2 ?_ ?_
      · obtain ⟨span, rfl⟩ := hn
        exact .declaration (printsAs_each hds).1 (printsAs_each hds).2
      · intro f k' vs N Q hf hk
        simp only [List.length_cons] at hf
        refine .get fun d rest hd _ => ?_
        rw [if_neg (by rw [Cursor.atPunct_iff, hd]; simp [punct]),
          if_pos (Cursor.atWord_iff.2 (by rw [hd]; rfl))]
        exact (hq f (by omega)).bind
          (fun n' ⟨ds', hn', hds'⟩ => .expectPunct (hk n' (hn.alike hn' hds')))
          fun o _ => .of_words hc2 (by simp [punct]) o
    · next hvar =>
      refine .bind ((he c).mono fun m c1 ⟨ws, hr, hq⟩ => .finish_bind (.expectPunct fun c2 hc2 => ?_))
      refine h _ ws c2 (.effect hr.prints) fun f k' vs N Q hf hk => ?_
      refine .get fun d rest hd _ => ?_
      rw [Cursor.atPunct_iff] at hend
      rw [Cursor.atWord_iff] at hvar
      have head : d.words.head? = ws.head?.or (punct ";" :: vs ++ rest).head? := by
        rw [hd, List.append_assoc, List.head?_append]
      have semicolon : ¬ d.atPunct ";" = true := by
        rw [Cursor.atPunct_iff, head]
        exact hr.leads.head_ne (by simp [punct]) hend _
      have var : ¬ d.atWord "var" = true := by
        rw [Cursor.atWord_iff, head]
        exact hr.leads.head_ne (by simp [punct]) hvar _
      rw [if_neg semicolon, if_neg var]
      refine (hq f hf).bind (fun m' hm => .finish_bind fun span => .expectPunct (hk _ ?_))
        fun o _ => .of_words hc2 (by simp [punct]) o
      exact alike_node rfl (.cons (.node hm) .nil)

include he hs in
theorem after_forStatement (fuel : Nat) (c : Cursor) :
    After (forStatement expr stmt fuel) c (StmtReads c) := by
  refine .start (.expectWord fun c1 hc1 => .expectPunct fun c2 _ => ?_)
  refine after_initializer he fuel c2 fun i wi c3 hi hqi => ?_
  refine after_forPart he (by decide) c3 fun m wm c4 hm hqm => ?_
  refine after_forPart he (by decide) c4 fun s ws c5 hstep hqs => ?_
  refine .bind ((hs c5).mono fun b c' ⟨wb, hb, _, hqb⟩ => .finish ?_)
  refine stmtReads_keyword (by rw [hc1]; rfl) rfl (.forStatement hi hm hstep hb.2) fun f at0 hf => ?_
  simp only [List.length_cons, List.length_append] at hf
  show Accepts (forStatement (expression f) (statement f) f) _ _ _
  refine .start fun at1 => .expectWord (.expectPunct ?_)
  refine hqi f _ _ _ _ (by omega) fun i' hi' => ?_
  refine hqm f _ _ _ _ (by omega) fun m' hm' => ?_
  refine hqs f _ _ _ _ (by omega) fun s' hs' => ?_
  rw [← List.append_nil wb]
  refine (hqb f (by omega)).bind (fun b' hb' => .finish fun span => ?_) fun o ho => ho
  exact alike_node rfl (.cons (.node hi') (.cons (.node hm') (.cons (.node hs')
    (.cons (.node hb') .nil))))

/-! ## Switches -/

/-- The words that end a section of a `switch`. -/
def endsSection (o : Option Word) : Bool :=
  o == some (name "case") || o == some (name "default") || o == some (punct closeBrace)

theorem endsSection_eq (c : Cursor) :
    (c.atWord "case" || c.atWord "default" || c.atPunct closeBrace) =
      endsSection c.words.head? := by
  rw [Bool.eq_iff_iff]
  simp [endsSection, Cursor.atWord_iff, Cursor.atPunct_iff]

include hs in
/-- What follows the label of a section. -/
theorem after_sectionBody (fuel at0 : Nat) (label : Child Node) (c : Cursor) :
    After (do
        Parse.expectPunct ":"
        let statements ← Parse.itemsUntil
          (fun c => c.atWord "case" || c.atWord "default" || c.atPunct closeBrace) stmt fuel
        Parse.finish .switchSection at0 (label :: asNodes statements)) c fun n _ =>
      ∃ ns wss, (∃ span, n = ⟨0, .switchSection, span, [], label :: asNodes ns⟩) ∧
        List.Forall₂ Prints ns wss ∧ (∃ more, c.words = punct ":" :: more) ∧
        ∀ f at1 label', wss.flatten.length < f → Child.Alike label label' →
          Accepts (do
            Parse.expectPunct ":"
            let statements ← Parse.itemsUntil
              (fun c => c.atWord "case" || c.atWord "default" || c.atPunct closeBrace)
              (statement f) f
            Parse.finish .switchSection at1 (label' :: asNodes statements))
            (punct ":" :: wss.flatten) (fun o => endsSection o = true) (Alike n) := by
  refine .expectPunct fun c1 hc1 => ?_
  refine .bind ((couples_itemsUntil hs endsSection_eq (by decide) (by decide) fuel c1).mono
    fun ns c2 ⟨wss, hns, _, hq⟩ => .finish ?_)
  refine ⟨ns, wss, ⟨_, rfl⟩, (printsAs_each hns).2, ⟨_, hc1⟩, fun f at1 label' hf hl => ?_⟩
  refine .expectPunct ?_
  rw [← List.append_nil wss.flatten]
  refine (hq f f hf hf).bind (fun ns' hns' => .finish fun span => ?_) fun o ho => ho
  exact alike_node rfl (.cons hl (alike_asNodes hns'))

/-- A section of a `switch` that was read, and its words. -/
structure ReadsSection (n : Node) (ws : List Word) : Prop where
  prints : Prints.InSwitch n ws
  label : ∃ w more, ws = w :: more ∧ (w = name "case" ∨ w = name "default")
  accepts : ∀ f, ws.length ≤ f →
    Accepts (switchSection (expression f) (statement f) f) ws (fun o => endsSection o = true)
      (Alike n)

include he hs in
theorem after_switchSection (fuel : Nat) (c : Cursor) :
    After (switchSection expr stmt fuel) c fun n _ => ∃ ws, ReadsSection n ws := by
  refine .start (.eatWord (fun c1 hc1 => ?_) fun hmiss => .get ?_)
  · refine .bind ((he c1).mono fun l c2 ⟨wl, hr, hq⟩ => .bind (.pure ?_))
    refine (after_sectionBody hs fuel c.start (.node l) c2).mono
      fun n c' ⟨ns, wss, ⟨span, hn⟩, hns, ⟨more, hc2⟩, hqb⟩ => ?_
    subst hn
    refine ⟨_, Prints.caseSection hr.prints hns, ⟨_, _, rfl, .inl rfl⟩, fun f hf => ?_⟩
    simp only [List.length_cons, List.length_append] at hf
    refine .start fun at1 => .eatWord_hit ?_
    exact (hq f (by omega)).bind
      (fun l' hl => .pure_bind (hqb f at1 (.node l') (by omega) (.node hl)))
      fun o _ => .of_words hc2 (by simp [punct]) o
  · split
    · next hdefault =>
      obtain ⟨more, hw⟩ := List.head?_eq_some_iff.1 (Cursor.atWord_iff.1 hdefault)
      refine .takeToken hw fun t c1 hk ht _ => .bind (.pure ?_)
      refine (after_sectionBody hs fuel c.start (.token t) c1).mono
        fun n c' ⟨ns, wss, ⟨span, hn⟩, hns, _, hqb⟩ => ?_
      subst hn
      refine ⟨_, Prints.defaultSection hk hns, ⟨_, _, rfl, .inr rfl⟩, fun f hf => ?_⟩
      simp only [List.length_cons] at hf
      refine .start fun at1 => .eatWord_miss (fun o _ => by simp [name]) (.get fun d rest hd _ => ?_)
      rw [if_pos (Cursor.atWord_iff.2 (by rw [hd]; rfl))]
      refine .takeToken fun t' hk' ht' => .pure_bind ?_
      exact hqb f at1 (.token t') (by omega) (.token (hk'.trans hk.symm) (ht'.trans ht.symm))
    · exact .bind (.fail _)

include he hs in
theorem after_switchSections (fuel more : Nat) (c : Cursor) :
    After (switchSections expr stmt fuel more) c fun ns _ =>
      ∃ wss, List.Forall₂ ReadsSection ns wss ∧
        ∀ f g, wss.flatten.length < f → wss.flatten.length < g →
          Accepts (switchSections (expression f) (statement f) f g) wss.flatten
            (· = some (punct closeBrace)) (List.Forall₂ Alike ns) := by
  induction more generalizing c with
  | zero => exact .tooDeep
  | succ more ih =>
    refine .get ?_
    split
    · refine .pure ⟨[], .nil, fun f g hf hg => ?_⟩
      obtain ⟨g, rfl⟩ : ∃ g', g = g' + 1 := ⟨g - 1, by simp at hg; omega⟩
      refine .get fun d rest hd ho => ?_
      rw [if_pos (Cursor.atPunct_iff.2 (by rw [hd]; exact ho))]
      exact .pure .nil
    · refine .bind ((after_switchSection he hs fuel c).mono fun n c1 ⟨ws, h⟩ => ?_)
      refine .bind ((ih c1).mono fun ns c2 ⟨wss, hns, hq⟩ => .pure ⟨ws :: wss, .cons h hns, ?_⟩)
      intro f g hf hg
      obtain ⟨w, tail, hw, hlabel⟩ := h.label
      have length : ws.length = tail.length + 1 := by rw [hw]; rfl
      simp only [List.flatten_cons, List.length_append] at hf hg
      obtain ⟨g, rfl⟩ : ∃ g', g = g' + 1 := ⟨g - 1, by omega⟩
      rw [List.flatten_cons]
      refine .get fun d rest hd _ => ?_
      have inside : ¬ d.atPunct closeBrace = true := by
        rw [Cursor.atPunct_iff, hd, hw]
        rcases hlabel with rfl | rfl <;> simp [punct]
      rw [if_neg inside]
      refine (h.accepts f (by omega)).bind (fun n' hn => ?_) fun o ho => ?_
      · rw [← List.append_nil wss.flatten]
        exact (hq f g (by omega) (by omega)).bind (fun ns' hns' => .pure (.cons hn hns'))
          fun o ho => ho
      · -- after a section comes the label of the next one or the end of the switch
        cases hns with
        | nil =>
          rw [ho]
          rfl
        | cons h' _ =>
          obtain ⟨w', tail', rfl, hlabel'⟩ := h'.label
          rcases hlabel' with rfl | rfl <;> rfl

include he hs in
theorem after_switchStatement (fuel : Nat) (c : Cursor) :
    After (switchStatement expr stmt fuel) c (StmtReads c) := by
  refine .start (.expectWord fun c1 hc1 => ?_)
  refine .bind ((after_parenthesizedCondition he c1).mono fun m c2 ⟨ws, hp, _, hq⟩ => ?_)
  refine .expectPunct fun c3 _ => .bind ((after_switchSections he hs fuel fuel c3).mono
    fun ns c4 ⟨wss, hns, hqs⟩ => .expectPunct fun c' _ => .finish ?_)
  refine stmtReads_keyword (by rw [hc1]; rfl) rfl
    (.switchStatement hp (hns.imp fun _ _ h => h.prints)) fun f at0 hf => ?_
  simp only [List.length_cons, List.length_append] at hf
  show Accepts (switchStatement (expression f) (statement f) f) _ _ _
  rw [show punct "(" :: (ws ++ punct ")" :: punct "\x7b" :: (wss.flatten ++ [punct "\x7d"])) =
    inParens ws ++ punct openBrace :: (wss.flatten ++ [punct closeBrace]) by
      simp [inParens, openBrace, closeBrace]]
  refine .start fun at1 => .expectWord ?_
  refine (hq f (fun _ => True) (by omega)).bind (fun m' hm => .expectPunct ?_) fun _ _ => trivial
  refine (hqs f f (by omega) (by omega)).bind (fun ns' hns' => .expectPunct (.finish fun span => ?_))
    fun o _ => rfl
  exact alike_node rfl (.cons (.node hm) (alike_asNodes hns'))

/-! ## Routines -/

theorem accepts_routine {kind : NodeKind} {t : Token} {ps : List Node} {b : Node} {f at0 : Nat}
    {wss : List (List Word)} {wb : List Word} {N : Option Word → Prop} {id : Nat} {span : Span}
    (hkind : kind.hasOperand = false) (hk : t.kind = .identifier) (hw : isKeyword t.text = false)
    (hp : Accepts (parameterList f) (inParens (listed wss)) (fun _ => True) (List.Forall₂ Alike ps))
    (hb : Accepts (block (statement f) f) wb N (Alike b)) :
    Accepts (routine (statement f) kind f at0)
      (name t.text :: punct "(" :: (listed wss ++ punct ")" :: wb)) N
      (Alike ⟨id, kind, span, [], .token t :: asNodes (ps ++ [b])⟩) := by
  rw [show punct "(" :: (listed wss ++ punct ")" :: wb) = inParens (listed wss) ++ wb by
    simp [inParens]]
  refine .identifier hw fun t' hk' ht' => hp.bind (fun ps' hps' => ?_) fun _ _ => trivial
  rw [← List.append_nil wb]
  refine hb.bind (fun b' hb' => .finish fun span => ?_) fun o ho => ho
  exact alike_node hkind (.cons (.token (hk'.trans hk.symm) ht')
    (alike_asNodes (List.rel_append hps' (.cons hb' .nil))))

include hs in
/-- Templates and local functions after their keyword, whose text is `fixed`. -/
theorem after_routine {kind : NodeKind} (fixed : Fixed) (hkind : kind.hasOperand = false)
    (hlayout : ∀ style (n : Node), n.kind = kind → layout style n = Layout.routine fixed.text n)
    (fuel at0 : Nat) (c : Cursor) :
    After (routine stmt kind fuel at0) c fun n _ => ∃ ws, n.kind = kind ∧
      Prints n (fixed.words ++ ws) ∧
      ∀ f at1 N, ws.length ≤ f → Accepts (routine (statement f) kind f at1) ws N (Alike n) := by
  refine .identifier fun t c1 _ hk hw hg => ?_
  refine .bind ((couples_parameterList fuel c1).mono fun ps c2 ⟨wss, hps, _, hq⟩ => ?_)
  refine .bind ((after_block hs fuel c2).mono fun b c' ⟨wb, hb, hbk, _, hqb⟩ => .finish ?_)
  obtain ⟨hkinds, hprints⟩ := printsAs_each hps
  refine ⟨_, rfl, .routine hlayout hk hg hkinds hbk hprints hb, fun f at1 N hf => ?_⟩
  simp only [List.length_cons, List.length_append] at hf
  exact accepts_routine hkind hk hw (hq f _ (by omega)) (hqb f _ (by omega))

/-! ## The statement that a word opens -/

theorem after_jump {kind : NodeKind} {word : String} (hkind : kind.hasOperand = false)
    (hstmt : kind.isStatement = true) (at0 : Nat) (c : Cursor)
    (hc : c.words.head? = some (name word))
    (hp : ∀ {span}, Prints ⟨0, kind, span, [], []⟩ [name word, punct ";"])
    (hq : ∀ f at1, keywordStatement (expression f) (statement f) f at1 word = jump kind at1) :
    After (jump kind at0) c (StmtReads c) := by
  obtain ⟨more, hw⟩ := List.head?_eq_some_iff.1 hc
  refine .bump hw fun _ c1 _ _ => .expectPunct fun c' _ => .finish ?_
  refine stmtReads_keyword hc hstmt hp fun f at1 _ => ?_
  rw [hq]
  exact .bump fun _ _ => .expectPunct (.finish fun span => alike_node hkind .nil)

/-- Words that open a statement of their own. -/
def openers : List String :=
  ["var", "if", "foreach", "using", "await", "while", "do", "for", "return", "break", "continue",
   "goto", "switch", "lock", "function", "yield"]

theorem keywordStatement_other {f at0 : Nat} {word : String} (h : word ∉ openers) :
    keywordStatement expr stmt f at0 word = expressionStatement expr := by
  unfold keywordStatement
  split <;> first | rfl | exact absurd (by decide) h

/-- Whether an expression used as a statement starts here. -/
structure IsEffect (c : Cursor) : Prop where
  brace : c.words.head? ≠ some (punct openBrace)
  semicolon : c.words.head? ≠ some (punct ";")
  word : ∀ word, c.words.head? = some (name word) → word ∉ openers ∨
    word = "await" ∧ ∀ s ∈ ["foreach", "using"], c.words[1]? ≠ some (name s)

/-- An expression is read as a statement where neither it nor its print begins with a word that
opens another one. -/
theorem accepts_effect {c : Cursor} {n : Node} {f : Nat} {ws : List Word} {N N' : Option Word → Prop}
    {id : Nat} {span : Span} (hc : IsEffect c) (hl : Leads c ws) (ha : Awaits c ws)
    (h : Accepts (expression f) ws N' (Alike n)) (hN' : N' (some (punct ";"))) :
    Accepts (statement (f + 1)) (ws ++ [punct ";"]) N
      (Alike ⟨id, .expressionStatement, span, [], [.node n]⟩) := by
  have plain : Accepts (expressionStatement (expression f)) (ws ++ [punct ";"]) N
      (Alike ⟨id, .expressionStatement, span, [], [.node n]⟩) := by
    refine .start fun at0 => h.bind (fun n' hn => .expectPunct (.finish fun span => ?_))
      fun o _ => hN'
    exact alike_node rfl (.cons (.node hn) .nil)
  rw [statement]
  refine .get fun d rest hd _ => ?_
  have head (o : Option Word) : (ws ++ [punct ";"]).head?.or o = ws.head?.or (some (punct ";")) := by
    rw [List.head?_append]
    cases ws.head? <;> rfl
  have first : d.words.head? = ws.head?.or (some (punct ";")) := by
    rw [hd, List.head?_append, head]
  have brace : ¬ d.atPunct openBrace = true := by
    rw [Cursor.atPunct_iff, first]
    exact hl.head_ne (by simp [punct, openBrace]) hc.brace _
  rw [if_neg brace]
  refine .eatPunct_miss (fun o _ => ?_) ?_
  · rw [head]
    exact hl.head_ne (by simp [punct]) hc.semicolon _
  obtain ⟨w, hw, hl⟩ := hl
  obtain ⟨more, hmore⟩ : ∃ more, d.words = w :: more :=
    List.head?_eq_some_iff.1 (by rw [first, hw]; rfl)
  have peek := Cursor.peek_of_words hmore
  obtain ⟨kind, text⟩ := w
  have hkind : d.peek.kind = kind := congrArg Prod.fst peek
  have htext : d.peek.text = text := congrArg Prod.snd peek
  simp only [hkind, htext, Bool.false_eq_true, if_false]
  split
  · next hk =>
    cases eq_of_beq hk
    have hl : c.words.head? = some (name text) := hl.resolve_left (by simp [punct])
    rcases hc.word text hl with hother | ⟨rfl, hnext⟩
    · rw [keywordStatement_other hother]
      exact plain
    · -- the word after `await` is the one that was read, or a parenthesis
      obtain ⟨x, tail, hws, hx⟩ := ha hw
      refine .get fun d' rest' hd' _ => ?_
      have second : d'.words[1]? = some x := by rw [hd', hws]; rfl
      have next : ∀ s ∈ ["foreach", "using"], ¬ (d'.ahead 1).isWord s = true := by
        intro s hs'
        rw [Cursor.isWord_ahead, second]
        rintro ⟨⟩
        exact hnext s hs' (hx.resolve_left (by simp [punct]))
      simp only [next "foreach" (by simp), next "using" (by simp), Bool.false_eq_true, if_false]
      exact plain
  · exact plain

include he in
theorem after_expressionStatement {c : Cursor} (hc : IsEffect c) :
    After (expressionStatement expr) c (StmtReads c) := by
  refine .start (.bind ((he c).mono fun n c1 ⟨ws, hr, hq⟩ => .expectPunct fun c' hc' => .finish ?_))
  refine ⟨ws ++ [punct ";"], ⟨rfl, .expressionStatement hr.prints⟩, hr.leads.append _, fun f hf => ?_⟩
  rw [List.length_append] at hf
  obtain ⟨f, rfl⟩ : ∃ f', f = f' + 1 := ⟨f - 1, by omega⟩
  exact accepts_effect hc hr.leads hr.awaits (hq f (by simp at hf; omega))
    (.of_words hc' (by simp [punct]) none)

theorem accepts_localDeclaration {ds : List Node} {f at0 : Nat} {ws : List Word}
    {N N' : Option Word → Prop} {id : Nat} {span : Span}
    (h : Accepts (declaration (expression f) f) (name "var" :: ws) N'
      (fun n' => ∃ ds', IsDeclaration ds' n' ∧ List.Forall₂ Alike ds ds'))
    (hN' : N' (some (punct ";"))) :
    Accepts (keywordStatement (expression f) (statement f) f at0 "var")
      (name "var" :: (ws ++ [punct ";"])) N
      (Alike ⟨id, .localDeclaration, span, [], asNodes ds⟩) := by
  refine h.bind (v := [punct ";"]) (fun n' ⟨ds', ⟨span', hn'⟩, hds'⟩ => .expectPunct ?_) fun o _ => hN'
  subst hn'
  exact .finish fun span => alike_node rfl (alike_asNodes hds')

include he in
theorem after_localDeclaration (fuel at0 : Nat) (c : Cursor) (hc : c.words.head? = some (name "var")) :
    After (do
      let declared ← declaration expr fuel
      Parse.expectPunct ";"
      Parse.finish .localDeclaration at0 declared.children) c (StmtReads c) := by
  refine .bind ((after_declaration he fuel c).mono fun n c1 ⟨ds, wss, ⟨span, hn⟩, hds, _, hq⟩ => ?_)
  subst hn
  refine .expectPunct fun c' hc' => .finish ?_
  obtain ⟨hkinds, hprints⟩ := printsAs_each hds
  refine stmtReads_keyword hc rfl (.localDeclaration hkinds hprints) fun f at1 hf => ?_
  rw [List.length_append] at hf
  exact accepts_localDeclaration (hq f (by omega)) (.of_words hc' (by simp [punct]) none)

include he hs in
/-- A loop or a resource that is awaited, or an expression. -/
theorem after_awaitStatement (fuel at0 : Nat) (c : Cursor) (hc : c.words.head? = some (name "await")) :
    After (do
      let next := (← get).ahead 1
      if next.isWord "foreach" then
        let token ← Parse.takeToken .awaitKeyword
        forEachStatement expr stmt at0 [.token token]
      else if next.isWord "using" then
        let token ← Parse.takeToken .awaitKeyword
        usingStatement expr stmt fuel at0 [.token token]
      else expressionStatement expr) c (StmtReads c) := by
  obtain ⟨more, hw⟩ := List.head?_eq_some_iff.1 hc
  have effect (h : ∀ s ∈ ["foreach", "using"], c.words[1]? ≠ some (name s)) : IsEffect c := by
    refine ⟨by rw [hc]; simp [punct], by rw [hc]; simp [punct], fun word hword => .inr ⟨?_, h⟩⟩
    rw [hc] at hword
    cases hword
    rfl
  refine .get ?_
  dsimp only
  split
  · next hnext =>
    refine .takeToken hw fun a c1 ha ht hc1 => ?_
    refine (after_forEachStatement he hs at0 [.token a] c1).mono
      fun n c' ⟨t, s, b, ws, wb, ⟨span, hn⟩, hk, hg, hps, hpb, _, hq⟩ => ?_
    subst hn
    refine stmtReads_keyword hc rfl (.awaitForEach ha hk hg hps hpb) fun f at1 hf => ?_
    simp only [List.length_cons, List.length_append] at hf
    refine .get fun d rest hd _ => ?_
    have again : (d.ahead 1).isWord "foreach" = true := by
      rw [Cursor.isWord_ahead, hd]
      rfl
    simp only [again, if_true]
    refine .takeToken fun a' ha' ht' => hq f at1 [.token a'] (by omega) (by omega) (.cons ?_ .nil)
    exact .token (ha'.trans ha.symm) (ht'.trans ht.symm)
  · next hforeach =>
    split
    · next hnext =>
      refine .takeToken hw fun a c1 ha ht hc1 => ?_
      refine (after_usingStatement he hs fuel at0 [.token a] c1).mono
        fun n c' ⟨d, b, wss, wb, ⟨span, hn⟩, hd, hpb, _, hq⟩ => ?_
      subst hn
      obtain ⟨hkinds, hprints⟩ := printsAs_each hd
      refine stmtReads_keyword hc rfl (.awaitUsing ha hkinds hprints hpb) fun f at1 hf => ?_
      simp only [List.length_cons, List.length_append] at hf
      refine .get fun d rest hd _ => ?_
      have other : ¬ (d.ahead 1).isWord "foreach" = true := by
        rw [Cursor.isWord_ahead, hd]
        simp [name]
      have again : (d.ahead 1).isWord "using" = true := by
        rw [Cursor.isWord_ahead, hd]
        rfl
      simp only [other, again, Bool.false_eq_true, if_false, if_true]
      refine .takeToken fun a' ha' ht' => hq f at1 [.token a'] (by omega) (by omega) (.cons ?_ .nil)
      exact .token (ha'.trans ha.symm) (ht'.trans ht.symm)
    · next husing =>
      refine after_expressionStatement he (effect fun s hs' => ?_)
      rw [Cursor.isWord_ahead] at hforeach husing
      simp only [List.mem_cons, List.not_mem_nil, or_false] at hs'
      rcases hs' with rfl | rfl
      · exact hforeach
      · exact husing

include he hs in
theorem after_doStatement (at0 : Nat) (c : Cursor) (hc : c.words.head? = some (name "do")) :
    After (do
      let _ ← Parse.bump
      let body ← stmt
      Parse.expectWord "while"
      let condition ← parenthesizedCondition expr
      Parse.expectPunct ";"
      Parse.finish .doStatement at0 (asNodes [body, condition])) c (StmtReads c) := by
  obtain ⟨more, hw⟩ := List.head?_eq_some_iff.1 hc
  refine .bump hw fun _ c1 _ _ => .bind ((hs c1).mono fun b c2 ⟨wb, hb, _, hqb⟩ => ?_)
  refine .expectWord fun c3 hc3 => .bind ((after_parenthesizedCondition he c3).mono
    fun m c4 ⟨ws, hm, _, hq⟩ => .expectPunct fun c' _ => .finish ?_)
  refine stmtReads_keyword hc rfl (.doStatement hb.2 hm) fun f at1 hf => ?_
  simp only [List.length_cons, List.length_append] at hf
  rw [show punct "(" :: (ws ++ [punct ")", punct ";"]) = inParens ws ++ [punct ";"] by
    simp [inParens]]
  refine .bump fun _ _ => ?_
  refine (hqb f (by omega)).bind (fun b' hb' => .expectWord ?_) fun o _ he => by simp [name] at he
  refine (hq f (fun _ => True) (by omega)).bind (fun m' hm' => .expectPunct (.finish fun span => ?_))
    fun _ _ => trivial
  exact alike_node rfl (.cons (.node hb') (.cons (.node hm') .nil))

theorem accepts_returning {value : Node} {f at0 : Nat} {ws : List Word} {N N' : Option Word → Prop}
    {id : Nat} {span : Span} (h : Accepts (expression f) ws N' (Alike value))
    (hN' : N' (some (punct ";"))) (first : ws.head?.or (some (punct ";")) ≠ some (punct ";")) :
    Accepts (keywordStatement (expression f) (statement f) f at0 "return")
      (name "return" :: (ws ++ [punct ";"])) N
      (Alike ⟨id, .returnStatement, span, [], [.node value]⟩) := by
  refine .bump fun _ _ => .get fun d rest hd _ => ?_
  have away : ¬ d.atPunct ";" = true := by
    rw [Cursor.atPunct_iff, hd, List.append_assoc, List.head?_append]
    exact first
  rw [if_neg away]
  refine h.bind (fun value' hv => .pure_bind (.expectPunct (.finish fun span => ?_))) fun o _ => hN'
  exact alike_node rfl (.cons (.node hv) .nil)

include he in
theorem after_returnStatement (at0 : Nat) (c : Cursor) (hc : c.words.head? = some (name "return")) :
    After (do
      let _ ← Parse.bump
      let value ← if (← get).atPunct ";" then pure [] else pure [← expr]
      Parse.expectPunct ";"
      Parse.finish .returnStatement at0 (asNodes value)) c (StmtReads c) := by
  obtain ⟨more, hw⟩ := List.head?_eq_some_iff.1 hc
  refine .bump hw fun _ c1 _ _ => .get ?_
  split
  · refine .bind (.pure (.expectPunct fun c' _ => .finish ?_))
    refine stmtReads_keyword hc rfl .returnNothing fun f at1 _ => ?_
    refine .bump fun _ _ => .get fun d rest hd _ => ?_
    rw [if_pos (Cursor.atPunct_iff.2 (by rw [hd]; rfl))]
    exact .pure_bind (.expectPunct (.finish fun span => alike_node rfl .nil))
  · next hend =>
    refine .bind ((he c1).mono fun value c2 ⟨ws, hr, hq⟩ => .bind (.pure (.expectPunct
      fun c' hc' => .finish ?_)))
    refine stmtReads_keyword hc rfl (.returning hr.prints) fun f at1 hf => ?_
    rw [List.length_append] at hf
    rw [Cursor.atPunct_iff] at hend
    exact accepts_returning (hq f (by omega)) (.of_words hc' (by simp [punct]) none)
      (hr.leads.head_ne (by simp [punct]) hend _)

include he in
theorem after_yieldStatement (at0 : Nat) (c : Cursor) (hc : c.words.head? = some (name "yield")) :
    After (do
      let _ ← Parse.bump
      if ← Parse.eatWord "return" then
        let value ← expr
        Parse.expectPunct ";"
        Parse.finish .yieldReturn at0 [.node value]
      else
        Parse.expectWord "break"
        Parse.expectPunct ";"
        Parse.finish .yieldBreak at0 []) c (StmtReads c) := by
  obtain ⟨more, hw⟩ := List.head?_eq_some_iff.1 hc
  refine .bump hw fun _ c1 _ _ => .eatWord (fun c2 hc2 => ?_) fun hmiss => ?_
  · refine .bind ((he c2).mono fun value c3 ⟨ws, hr, hq⟩ => .expectPunct fun c' hc' => .finish ?_)
    refine stmtReads_keyword hc rfl (.yieldReturn hr.prints) fun f at1 hf => ?_
    simp only [List.length_cons, List.length_append] at hf
    refine .bump fun _ _ => .eatWord_hit ?_
    refine (hq f (by omega)).bind (fun value' hv => .expectPunct (.finish fun span => ?_))
      fun o _ => .of_words hc' (by simp [punct]) o
    exact alike_node rfl (.cons (.node hv) .nil)
  · refine .expectWord fun c2 _ => .expectPunct fun c' _ => .finish ?_
    refine stmtReads_keyword hc rfl .yieldBreak fun f at1 _ => ?_
    refine .bump fun _ _ => .eatWord_miss (fun o _ => by simp [name]) ?_
    exact .expectWord (.expectPunct (.finish fun span => alike_node rfl .nil))

include he hs in
theorem after_keywordStatement (fuel at0 : Nat) {word : String} {c : Cursor}
    (hc : c.words.head? = some (name word)) :
    After (keywordStatement expr stmt fuel at0 word) c (StmtReads c) := by
  obtain ⟨more, hw⟩ := List.head?_eq_some_iff.1 hc
  unfold keywordStatement
  split
  · exact after_localDeclaration he fuel at0 c hc
  · exact after_ifStatement he hs c
  · refine (after_forEachStatement he hs at0 [] c).mono
      fun n c' ⟨t, s, b, ws, wb, ⟨span, hn⟩, hk, hg, hps, hpb, _, hq⟩ => ?_
    subst hn
    refine stmtReads_keyword hc rfl (.forEachStatement hk hg hps hpb) fun f at1 hf => ?_
    simp only [List.length_cons, List.length_append] at hf
    exact hq f at1 [] (by omega) (by omega) .nil
  · refine (after_usingStatement he hs fuel at0 [] c).mono
      fun n c' ⟨d, b, wss, wb, ⟨span, hn⟩, hd, hpb, _, hq⟩ => ?_
    subst hn
    obtain ⟨hkinds, hprints⟩ := printsAs_each hd
    refine stmtReads_keyword hc rfl (.usingStatement hkinds hprints hpb) fun f at1 hf => ?_
    simp only [List.length_cons, List.length_append] at hf
    exact hq f at1 [] (by omega) (by omega) .nil
  · exact after_awaitStatement he hs fuel at0 c hc
  · exact after_guarded he hs rfl rfl at0 c hc .whileStatement fun _ _ => rfl
  · exact after_doStatement he hs at0 c hc
  · exact after_forStatement he hs fuel c
  · exact after_returnStatement he at0 c hc
  · exact after_jump rfl rfl at0 c hc .breakStatement fun _ _ => rfl
  · exact after_jump rfl rfl at0 c hc .continueStatement fun _ _ => rfl
  · refine .bump hw fun _ c1 _ _ => .identifier fun t c2 _ hk hkey hg => .expectPunct fun c' _ =>
      .finish ?_
    refine stmtReads_keyword hc rfl (.gotoStatement hk hg) fun f at1 _ => ?_
    refine .bump fun _ _ => .identifier hkey fun t' hk' ht' => .expectPunct (.finish fun span => ?_)
    exact alike_node rfl (.cons (.token (hk'.trans hk.symm) ht') .nil)
  · exact after_switchStatement he hs fuel c
  · exact after_guarded he hs rfl rfl at0 c hc .lockStatement fun _ _ => rfl
  · refine .bump hw fun _ c1 _ _ => (after_routine hs .function rfl ?_ fuel at0 c1).mono
      fun n c' ⟨ws, hk, hp, hq⟩ => ?_
    · intro style n hn
      simp only [layout, hn]
      rfl
    · refine stmtReads_keyword hc (by rw [hk]; rfl) hp fun f at1 hf => ?_
      exact .bump fun _ _ => hq f at1 _ (Nat.le_of_lt hf)
  · exact after_yieldStatement he at0 c hc
  · next h1 h2 h3 h4 h5 h6 h7 h8 h9 h10 h11 h12 h13 h14 h15 h16 =>
    refine after_expressionStatement he ⟨by rw [hc]; simp [punct], by rw [hc]; simp [punct],
      fun word' hword => .inl fun hmem => ?_⟩
    rw [hc] at hword
    cases hword
    simp only [openers, List.mem_cons, List.not_mem_nil, or_false] at hmem
    tauto

theorem accepts_statement_block {f : Nat} {ws : List Word} {N : Option Word → Prop} {Q : Node → Prop}
    (h : Accepts (block (statement f) f) (punct openBrace :: ws) N Q) :
    Accepts (statement (f + 1)) (punct openBrace :: ws) N Q := by
  rw [statement]
  refine .get fun d rest hd _ => ?_
  rw [if_pos (Cursor.atPunct_iff.2 (by rw [hd]; rfl))]
  exact h

include hs in
theorem stmtReads_block (fuel : Nat) (c : Cursor) :
    After (block stmt fuel) c (StmtReads c) := by
  refine (after_block hs fuel c).mono fun n c' ⟨ws, hp, hk, hc, hq⟩ => ?_
  obtain ⟨more, hw⟩ := List.head?_eq_some_iff.1 hc
  refine ⟨_, ⟨by rw [hk]; rfl, hp⟩, .of_words hw, fun f hf => ?_⟩
  obtain ⟨f, rfl⟩ : ∃ f', f = f' + 1 := ⟨f - 1, by omega⟩
  exact accepts_statement_block (hq f _ (by simp only [List.length_cons] at hf; omega))

include he hs in
/-- The law of statements, from those of the expressions and statements in them. -/
theorem stmtCouples_statement (fuel : Nat) : StmtCouples (Grammar.statement expr stmt fuel) := by
  intro c
  show After (Grammar.statement expr stmt fuel) c (StmtReads c)
  refine .get ?_
  split
  · exact stmtReads_block hs fuel c
  · next hbrace =>
    refine .eatPunct (fun c' hc' => .finish ?_) fun hsemi => ?_
    · refine ⟨[punct ";"], ⟨rfl, .emptyStatement⟩, .of_words hc', fun f hf => ?_⟩
      obtain ⟨f, rfl⟩ : ∃ f', f = f' + 1 := ⟨f - 1, by omega⟩
      rw [statement]
      refine .get fun d rest hd _ => ?_
      rw [if_neg (by rw [Cursor.atPunct_iff, hd]; simp [punct, openBrace])]
      exact .eatPunct_hit (.finish fun span => alike_node rfl .nil)
    · simp only [Bool.false_eq_true, if_false]
      split
      · next hk =>
        have hk : c.peek.kind = .ident := eq_of_beq hk
        obtain ⟨ws, hw⟩ := Cursor.words_of_peek (c := c) (by simp [hk])
        refine after_keywordStatement he hs fuel _ ?_
        rw [hw]
        simp [Lexeme.word, hk]
      · next hk =>
        refine after_expressionStatement he ⟨?_, hsemi, fun word hword => ?_⟩
        · rwa [Cursor.atPunct_iff] at hbrace
        · obtain ⟨ws, hw⟩ := List.head?_eq_some_iff.1 hword
          have : c.peek.kind = .ident := congrArg Prod.fst (Cursor.peek_of_words hw)
          simp [this] at hk

end

/-! ## Closing the knot -/

theorem couples_code (fuel : Nat) : ExprCouples (expression fuel) ∧ StmtCouples (statement fuel) := by
  induction fuel with
  | zero => exact ⟨fun _ => .tooDeep, fun _ => .tooDeep⟩
  | succ fuel ih =>
    rw [expression, statement]
    exact ⟨exprCouples_expression ih.1 ih.2 fuel, stmtCouples_statement ih.1 ih.2 fuel⟩

theorem accepts_template {t : Token} {ps : List Node} {b : Node} {f : Nat} {wss : List (List Word)}
    {wb : List Word} {N : Option Word → Prop} {id : Nat} {span : Span} (hk : t.kind = .identifier)
    (hw : isKeyword t.text = false)
    (hp : Accepts (parameterList f) (inParens (listed wss)) (fun _ => True) (List.Forall₂ Alike ps))
    (hb : Accepts (block (statement f) f) wb N (Alike b)) :
    Accepts (Grammar.template (statement f) f)
      (name "template" :: name t.text :: punct "(" :: (listed wss ++ punct ")" :: wb)) N
      (Alike ⟨id, .template, span, [], .token t :: asNodes (ps ++ [b])⟩) :=
  .start fun _ => .expectWord (accepts_routine rfl hk hw hp hb)

theorem after_template (fuel : Nat) (c : Cursor) :
    After (Grammar.template (statement fuel) fuel) c fun n _ => ∃ ws,
      Prints n (name "template" :: ws) ∧ ∀ f N, ws.length < f →
        Accepts (Grammar.template (statement f) f) (name "template" :: ws) N (Alike n) := by
  refine .start (.expectWord fun c1 _ => (after_routine
    (couples_code fuel).2 .template rfl ?_ fuel c.start c1).mono fun n c' ⟨ws, _, hp, hq⟩ => ⟨ws, hp, ?_⟩)
  · intro style n hn
    simp only [layout, hn]
    rfl
  · exact fun f N hf => .start fun at0 => .expectWord (hq f at0 N (by omega))

theorem accepts_templates_nil {f g : Nat} :
    Accepts (templates f (g + 1)) [] (· = none) (List.Forall₂ Alike []) := by
  refine .get fun d rest hd ho => ?_
  rw [if_pos (Cursor.atEnd_of_nil (by rw [hd]; exact List.head?_eq_none_iff.1 ho))]
  exact .pure .nil

theorem accepts_templates_cons {n : Node} {ns : List Node} {f g : Nat} {ws ws' : List Word}
    (h : Accepts (Grammar.template (statement f) f) (name "template" :: ws) (fun _ => True) (Alike n))
    (hs : Accepts (templates f g) ws' (· = none) (List.Forall₂ Alike ns)) :
    Accepts (templates f (g + 1)) (name "template" :: ws ++ ws') (· = none)
      (List.Forall₂ Alike (n :: ns)) := by
  refine .get fun d rest hd _ => ?_
  rw [Cursor.atEnd_of_words hd (by simp)]
  refine h.bind (fun n' hn => ?_) fun _ _ => trivial
  rw [← List.append_nil ws']
  exact hs.bind (fun ns' hns' => .pure (.cons hn hns')) fun o ho => ho

/-- Templates up to the end of a text. -/
theorem after_templates (fuel more : Nat) (c : Cursor) :
    After (templates fuel more) c fun ns _ => ∃ wss, List.Forall₂ Prints ns wss ∧
      ∀ f g, wss.flatten.length < f → wss.flatten.length < g →
        Accepts (templates f g) wss.flatten (· = none) (List.Forall₂ Alike ns) := by
  induction more generalizing c with
  | zero => exact .tooDeep
  | succ more ih =>
    refine .get ?_
    split
    · refine .pure ⟨[], .nil, fun f g _ hg => ?_⟩
      obtain ⟨g, rfl⟩ : ∃ g', g = g' + 1 := ⟨g - 1, by simp at hg; omega⟩
      exact accepts_templates_nil
    · refine .bind ((after_template fuel c).mono fun n c1 ⟨ws, hp, hq⟩ => ?_)
      refine .bind ((ih c1).mono fun ns c2 ⟨wss, hns, hqs⟩ =>
        .pure ⟨(name "template" :: ws) :: wss, .cons hp hns, fun f g hf hg => ?_⟩)
      simp only [List.flatten_cons, List.length_append, List.length_cons] at hf hg
      obtain ⟨g, rfl⟩ : ∃ g', g = g' + 1 := ⟨g - 1, by omega⟩
      rw [List.flatten_cons]
      exact accepts_templates_cons (hq f _ (by omega)) (hqs f g (by omega) (by omega))

end Stencil.Source
