import Stencil.Proofs.Source.Continuing

/-!
# The grammar in a longer text

Every production that stops before the end of a text does the same in a longer text. Two places
look further ahead than one lexeme. A cast is told by three lexemes, and an operand that begins with
a parenthesis has at least as many. A lambda is told by the arrow behind its parameters, and an
operand in parentheses that is not the end of the text has a lexeme behind it.

Results:

* `carries_expression`, `carries_statement` – a lemma for each production, given its parts;
* `closes_template` – templates end with a brace, so nothing that follows changes them;
* `templates_extend` – the templates of a text begin those of a longer one;
* `parseUnit_line` – a file that goes on after a line break begins with the templates it had.
-/
namespace Stencil.Source

variable {α β : Type} {t : Tail} {s : Bool} {c : Cursor}

/-- Wherever it succeeds `p` takes something, and `q` does the same in the longer text. -/
abbrev Follows (t : Tail) (p q : Parse α) : Prop := ∀ s c, Carries t s p q c

namespace Grammar

open Parse

variable {f f' : Nat} (hf : f ≤ f')

include hf

theorem carries_typeText : Follows t (typeText f) (typeText f') := by
  induction f generalizing f' with
  | zero => exact fun _ _ => .tooDeep
  | succ f ih =>
    obtain ⟨f', rfl⟩ : ∃ g, f' = g + 1 := ⟨f' - 1, by omega⟩
    intro s c
    refine .look (fun hr => by rw [Cursor.peek_extend hr]) ?_
    refine .ite (fun _ => rfl) (fun _ => .failBind) fun hk => ?_
    have word : c.peek.kind = .ident := by simpa using hk
    refine .take (by simp [word]) (Lexeme.isPlain_of_kind (by simp [word])) fun l c => ?_
    refine .eatPunct (by decide) (fun c => ?_) fun _ => .pure _
    refine .bind (.separated (ih (by omega)) (by omega) false c) fun types c => ?_
    exact .expectPunct (by decide) fun c => .pure _

theorem carries_typeName : Follows t (typeName f) (typeName f') := by
  intro s c
  refine .start fun at0 => .bind (carries_typeText hf s c) fun text c => ?_
  exact .get .finish

theorem carries_parameter : Follows t (parameter f) (parameter f') := by
  intro s c
  refine .get (.congr (fun hr => by rw [Cursor.start_extend hr]) ?_)
  refine .iteAhead (fun two => by rw [Cursor.ahead_extend two]) (fun s => ?_) fun s => ?_
  · refine .bind (carries_typeName hf s c) fun type c' => .identifier fun name c' => ?_
    exact .finish
  · exact .identifier fun name c' => .finish

theorem carries_lambdaNames (c : Cursor) :
    Carries t false (lambdaNames f) (lambdaNames f') c := by
  induction f generalizing f' c with
  | zero => exact .tooDeep
  | succ f ih =>
    obtain ⟨f', rfl⟩ : ∃ g, f' = g + 1 := ⟨f' - 1, by omega⟩
    refine .get (.congr (fun hr => by rw [Cursor.start_extend hr, Cursor.atPunct_extend hr]) ?_)
    refine .ite (fun _ => rfl) (fun _ => .pure _) fun _ => .identifier fun name c => ?_
    refine .bind .finish fun parameter c => .eatPunct (by decide) (fun c => ?_) fun _ => .pure _
    exact .bind (ih (by omega) c) fun parameters c => .pure _

section

variable {expr expr' stmt stmt' : Parse Node}

theorem closes_block (hs : Follows t stmt stmt') :
    Closes t s (block stmt f) (block stmt' f') c := by
  refine .start fun at0 s => .expectPunct (by decide) fun c => ?_
  refine .bind (.itemsUntil (fun c hr => Cursor.atPunct_extend hr _) hs hf c) fun ns s c => ?_
  exact .expectPunct (by decide) fun c => .finish

theorem carries_lambda (he : Follows t expr expr') (hs : Follows t stmt stmt') :
    Follows t (lambda expr stmt f) (lambda expr' stmt' f') := by
  intro s c
  have body (parameters : List Node) (at0 : Nat) (s : Bool) (c : Cursor) :
      Carries t s
        (do
          expectPunct "=>"
          let body ← if (← get).atPunct openBrace then block stmt f else expr
          finish .lambda at0 (asNodes (parameters ++ [body])))
        (do
          expectPunct "=>"
          let body ← if (← get).atPunct openBrace then block stmt' f' else expr'
          finish .lambda at0 (asNodes (parameters ++ [body]))) c := by
    refine .expectPunct (by decide) fun c => .look (fun hr => by rw [Cursor.atPunct_extend hr]) ?_
    refine .ite (fun _ => rfl) (fun _ => .bind (closes_block hf hs).carries ?_)
      fun _ => .bind (he _ _) ?_
    all_goals exact fun n c => .finish
  refine .start fun at0 => .eatPunct (by decide) (fun c => ?_) fun _ => ?_
  · refine .bind (carries_lambdaNames hf c) fun parameters c => .expectPunct (by decide) fun c => ?_
    exact .bind (.pure _) fun parameters c => body parameters at0 _ c
  · refine .identifier fun name c => .bind .finish fun parameter c => ?_
    exact .bind (.pure _) fun parameters c => body parameters at0 _ c

omit hf in
theorem carries_query (he : Follows t expr expr') : Follows t (query expr) (query expr') := by
  intro s c
  refine .start fun at0 => .expectWord fun c => .identifier fun name c => .expectWord fun c => ?_
  refine .bind (he _ _) fun source c => .start fun whereAt => ?_
  have select (filters : List Node) (c : Cursor) :
      Carries t false
        (do
          let selectAt ← start
          expectWord "select"
          let selection ← expr
          let select ← finish .selectClause selectAt [.node selection]
          finish .query at0 (.token name :: asNodes (source :: filters ++ [select])))
        (do
          let selectAt ← start
          expectWord "select"
          let selection ← expr'
          let select ← finish .selectClause selectAt [.node selection]
          finish .query at0 (.token name :: asNodes (source :: filters ++ [select]))) c :=
    .start fun selectAt => .expectWord fun c => .bind (he _ _) fun selection c =>
      .bind .finish fun select c => .finish
  refine .eatWord (fun c => .bind (he _ _) fun condition c => .bind .finish fun filter c => ?_)
    fun _ => ?_
  · exact .bind (.pure _) select
  · exact .bind (.pure _) select

omit hf in
theorem isPlain_of_literalKind? {l : Lexeme} {kind : TokenKind} (h : literalKind? l = some kind) :
    l.kind ≠ .eof ∧ l.isPlain = true := by
  unfold literalKind? at h
  cases hk : l.kind <;> simp [hk] at h
  all_goals exact ⟨by simp, Lexeme.isPlain_of_kind (by simp [hk])⟩

theorem carries_primary (he : Follows t expr expr') :
    Follows t (primary expr f) (primary expr' f') := by
  intro s c
  refine .get (.congr (fun hr => by rw [Cursor.start_extend hr, Cursor.peek_extend hr]) ?_)
  dsimp only
  cases hl : literalKind? c.peek with
  | some kind =>
    exact .takeToken (isPlain_of_literalKind? hl).1 (isPlain_of_literalKind? hl).2
      fun tok c => .finish
  | none =>
    refine .ite (fun _ => rfl) (fun hw => ?_) fun _ => ?_
    · simp only [Lexeme.isWord, Bool.and_eq_true, beq_iff_eq] at hw
      exact .take (by simp [hw]) (Lexeme.isPlain_of_kind (by simp [hw])) fun l c => .finish
    refine .ite (fun _ => rfl) (fun _ => carries_query he s c) fun _ => ?_
    refine .ite (fun _ => rfl) (fun _ => .identifier fun name c => .finish) fun _ => ?_
    refine .ite (fun _ => rfl) (fun hp => ?_) fun _ => ?_
    · have plain := Lexeme.isPlain_of_isPunct hp (by decide)
      simp only [Lexeme.isPunct, Bool.and_eq_true, beq_iff_eq] at hp
      refine .take (by simp [hp]) plain fun l c => .bind (he _ _) fun inner c => ?_
      exact .expectPunct (by decide) fun c => .finish
    refine .ite (fun _ => rfl) (fun _ => ?_) fun _ => .fail _
    exact .bind (.bracketed (by decide) (by decide) he hf) fun elements c => .finish

theorem carries_suffixes (he : Follows t expr expr') {m m' : Nat} (hm : m ≤ m') (at0 : Nat)
    (base : Node) (c : Cursor) :
    Carries t false (suffixes expr f at0 base m) (suffixes expr' f' at0 base m') c := by
  induction m generalizing m' base c with
  | zero => exact .tooDeep
  | succ m ih =>
    obtain ⟨m', rfl⟩ : ∃ g, m' = g + 1 := ⟨m' - 1, by omega⟩
    have next (base : Node) (c : Cursor) :
        Carries t false (suffixes expr f at0 base m) (suffixes expr' f' at0 base m') c :=
      ih (by omega) base c
    refine .eatPunct (by decide) (fun c => ?_) fun _ => ?_
    · exact .identifier fun name c => .bind .finish next
    refine .look (fun hr => by rw [Cursor.atPunct_extend hr]) ?_
    refine .ite (fun _ => rfl) (fun _ => ?_) fun _ => ?_
    · refine .bind (.bracketed (by decide) (by decide) he hf) fun arguments c => ?_
      exact .bind .finish next
    refine .eatPunct (by decide) (fun c => .bind (he _ _) fun index c => ?_) fun _ => ?_
    · exact .expectPunct (by decide) fun c => .bind .finish next
    refine .operator? (fun hs => by cases hs) (fun tok s c hs => ?_) (.pure _)
    obtain rfl : s = false := by simpa using hs
    exact .bind .finish next

omit hf in
theorem opens_primary (he : Follows t expr expr') (hc : c.atPunct "(" = true) :
    Opens (primary expr f) c := by
  have paren := hc
  simp only [Cursor.atPunct, Lexeme.isPunct, Bool.and_eq_true, beq_iff_eq] at paren
  have here : (primary expr f).run c = (do
      let _ ← bump
      let inner ← expr
      expectPunct ")"
      finish .parenthesized c.start [.node inner]).run c := by
    unfold primary
    rw [StateT.run_bind, StateT.run_get]
    simp [literalKind?, Lexeme.isWord, Lexeme.isName, Lexeme.isPunct, paren]
  exact .congr here (.parentheses hc he fun inner c => .finish)

omit hf in
/-- Three lexemes tell a cast. -/
theorem atCast_extend (hr : c.rest ≠ []) (h : c.atPunct "(" = true → 2 < c.rest.length) :
    atCast (c.extend t) = atCast c := by
  unfold atCast
  rw [Cursor.atPunct_extend hr]
  cases hp : c.atPunct "(" with
  | false => rfl
  | true =>
    have three := h hp
    rw [Cursor.ahead_extend (by omega), Cursor.ahead_extend three]

/-- What stands behind the operators in front of an operand. -/
theorem opens_operand (he : Follows t expr expr') {operand operand' : Parse Node}
    (ho : Follows t operand operand') (at0 : Nat) (hc : c.atPunct "(" = true) :
    Opens (if atCast c then do
        let _ ← bump
        let type ← typeName f
        expectPunct ")"
        let inner ← operand
        finish .cast at0 [.node type, .node inner]
      else do
        let base ← primary expr f
        suffixes expr f at0 base f) c := by
  split
  · exact .parentheses hc (carries_typeName hf) fun type c => .bind (ho _ c) fun n c => .finish
  · exact .bind (opens_primary he hc) fun base c => carries_suffixes hf he hf _ base c

theorem carries_unary (he : Follows t expr expr') {m m' : Nat} (hm : m ≤ m') :
    Follows t (unary expr f m) (unary expr' f' m') := by
  intro s c
  induction m generalizing m' s c with
  | zero => exact .tooDeep
  | succ m ih =>
    obtain ⟨m', rfl⟩ : ∃ g, m' = g + 1 := ⟨m' - 1, by omega⟩
    have operand (s : Bool) (c : Cursor) :
        Carries t s (unary expr f m) (unary expr' f' m') c := ih (by omega) s c
    refine .start fun at0 => .operator? (fun _ => by decide) (fun tok s c hs => ?_) ?_
    · exact .bind (operand s c) fun n c => .finish
    refine .eatWord (fun c => .bind (operand _ c) fun n c => .finish) fun _ => .get ?_
    refine .iteRun (fun n c' hr _ hc => atCast_extend hc fun hp => ?_) (fun hcast => ?_) fun _ => ?_
    · obtain ⟨inner, close, more, here, some, -⟩ := opens_operand hf he operand at0 hp n c' hr
      have := List.length_pos_iff.2 some
      rw [here]
      simp only [List.length_cons, List.length_append]
      omega
    · have hp : c.atPunct "(" = true := by
        simp only [atCast, Bool.and_eq_true] at hcast
        exact hcast.1.1.1
      have plain := Lexeme.isPlain_of_isPunct hp (by decide)
      simp only [Cursor.atPunct, Lexeme.isPunct, Bool.and_eq_true, beq_iff_eq] at hp
      refine .take (by simp [hp]) plain fun l c => .bind (carries_typeName hf _ c) fun type c => ?_
      exact .expectPunct (by decide) fun c => .bind (operand _ c) fun n c => .finish
    · exact .bind (carries_primary hf he s c) fun base c => carries_suffixes hf he hf at0 base c

theorem opens_unary (he : Follows t expr expr') {m m' : Nat} (hm : m ≤ m')
    (hc : c.atPunct "(" = true) : Opens (unary expr f m) c := by
  have paren := hc
  simp only [Cursor.atPunct, Lexeme.isPunct, Bool.and_eq_true, beq_iff_eq] at paren
  cases m with
  | zero => exact fun a c' hr => by cases hr
  | succ m =>
    refine .congr ?_ (opens_operand hf he (carries_unary hf he (m.le_refl)) c.start hc)
    rw [unary, run_start, run_operator?_of_not (by simp [paren])]
    exact run_eatWord_of_not (by simp [Cursor.atWord, Lexeme.isWord, paren])

theorem carries_binaryRest {operand operand' : Parse Node} (ho : Follows t operand operand')
    (operators : List String) (at0 : Nat) (left : Node) (c : Cursor) :
    Carries t false (binaryRest operand operators at0 left f)
      (binaryRest operand' operators at0 left f') c := by
  induction f generalizing f' left c with
  | zero => exact .tooDeep
  | succ f ih =>
    obtain ⟨f', rfl⟩ : ∃ g, f' = g + 1 := ⟨f' - 1, by omega⟩
    refine .operator? (fun hs => by cases hs) (fun tok s c _ => ?_) (.pure _)
    refine .bind (ho s c) fun right c => .bind .finish fun joined c => ?_
    exact ih (by omega) joined c

theorem carries_binary {operand operand' : Parse Node} (ho : Follows t operand operand') :
    (levels : List (List String)) →
      Follows t (binary operand f levels) (binary operand' f' levels)
  | [] => ho
  | operators :: tighter => fun s c => by
    have tight := carries_binary ho tighter
    refine .start fun at0 => .bind (tight s c) fun left c => ?_
    exact carries_binaryRest hf tight operators at0 left c

omit hf in
theorem opens_binary {operand operand' : Parse Node} (ho : Follows t operand operand')
    (open' : Opens operand c) : (levels : List (List String)) → Opens (binary operand f levels) c
  | [] => open'
  | operators :: tighter => by
    have tight := carries_binary (Nat.le_refl f) ho tighter
    exact .congr run_start (.bind (opens_binary ho open' tighter)
      (carries_binaryRest (Nat.le_refl f) tight operators _))

omit hf in
theorem carries_conditionalRest (he : Follows t expr expr') (at0 : Nat) (condition : Node)
    (c : Cursor) : Carries t false
      (do
        if ← eatPunct "?" then
          let whenTrue ← expr
          expectPunct ":"
          let whenFalse ← expr
          finish .conditional at0 (asNodes [condition, whenTrue, whenFalse])
        else return condition)
      (do
        if ← eatPunct "?" then
          let whenTrue ← expr'
          expectPunct ":"
          let whenFalse ← expr'
          finish .conditional at0 (asNodes [condition, whenTrue, whenFalse])
        else return condition) c := by
  refine .eatPunct (by decide) (fun c => .bind (he _ c) fun whenTrue c => ?_) fun _ => .pure _
  exact .expectPunct (by decide) fun c => .bind (he _ c) fun whenFalse c => .finish

theorem carries_conditional (he : Follows t expr expr') :
    Follows t (conditional expr f) (conditional expr' f') := by
  intro s c
  have operands := carries_binary hf (carries_unary hf he hf) binaryLevels
  exact .start fun at0 => .bind (operands s c) fun condition c => carries_conditionalRest he _ _ c

omit hf in
theorem opens_conditional (he : Follows t expr expr') (hc : c.atPunct "(" = true) :
    Opens (conditional expr f) c := by
  have operand := carries_unary (Nat.le_refl f) he (Nat.le_refl f)
  have opened := opens_unary (Nat.le_refl f) he (Nat.le_refl f) hc
  exact .congr run_start (.bind (opens_binary operand opened binaryLevels)
    (carries_conditionalRest he _))

omit hf in
/-- An expression that does not begin with a lambda. -/
theorem carries_assignmentRest (he : Follows t expr expr') (at0 : Nat) (target : Node)
    (c : Cursor) : Carries t false
      (do
        match ← operator? ["=", "+=", "-="] with
        | some operator =>
          let value ← expr
          finish .assignment at0 [.node target, .token operator, .node value]
        | none => return target)
      (do
        match ← operator? ["=", "+=", "-="] with
        | some operator =>
          let value ← expr'
          finish .assignment at0 [.node target, .token operator, .node value]
        | none => return target) c := by
  refine .operator? (fun hs => by cases hs) (fun tok s c _ => ?_) (.pure _)
  exact .bind (he s c) fun value c => .finish

omit hf in
/-- The names in parentheses end at the same place of the longer text. -/
theorem arrow_extend {x y : Lexeme} {ls : List Lexeme}
    (h : c.rest.tail.dropWhile (fun l => l.isName || l.isPunct ",") = x :: y :: ls) :
    (c.extend t).rest.tail.dropWhile (fun l => l.isName || l.isPunct ",") =
      x :: y :: (ls ++ t.lexemes) := by
  have some : c.rest ≠ [] := by
    intro hr
    simp [hr] at h
  simp [Cursor.extend, List.tail_append_of_ne_nil some, List.dropWhile_append, h]

omit hf in
/-- A lambda is told by its arrow, which stands before the end. -/
theorem atLambda_extend (h : atLambda c = true) : atLambda (c.extend t) = true := by
  unfold atLambda at h ⊢
  split at h
  · next hn =>
    have two : 1 < c.rest.length := by
      refine Cursor.lt_of_ahead ?_
      simp only [Lexeme.isPunct, Bool.and_eq_true, beq_iff_eq] at hn
      simp [hn]
    have hr : c.rest ≠ [] := List.length_pos_iff.1 (by omega)
    rw [Cursor.peek_extend hr, Cursor.ahead_extend two, if_pos hn]
  · split at h
    · next hp =>
      split at h
      · next close arrow ls hd =>
        have hr : c.rest ≠ [] := by
          intro hr
          simp [hr] at hd
        rw [arrow_extend hd, Cursor.atPunct_extend hr, if_pos hp]
        split
        · rfl
        · exact h
      · cases h
    · cases h

omit hf in
/-- What stands behind a closing parenthesis tells that no lambda starts. -/
theorem not_atLambda_extend (two : 1 < c.rest.length)
    (behind : c.atPunct "(" = true → ∃ inner close after rest,
      c.rest = c.peek :: (inner ++ close :: after :: rest) ∧ close.isPunct ")" = true)
    (h : atLambda c = false) : atLambda (c.extend t) = false := by
  have hr : c.rest ≠ [] := List.length_pos_iff.1 (by omega)
  unfold atLambda at h ⊢
  rw [Cursor.peek_extend hr, Cursor.ahead_extend two, Cursor.atPunct_extend hr]
  split at h
  · cases h
  · next hn =>
    rw [if_neg hn]
    split at h
    · next hp =>
      obtain ⟨inner, close, after, rest, here, closes⟩ := behind hp
      simp only [Lexeme.isPunct, Bool.and_eq_true, beq_iff_eq] at closes
      obtain ⟨x, y, ls, hd⟩ : ∃ x y ls,
          c.rest.tail.dropWhile (fun l => l.isName || l.isPunct ",") = x :: y :: ls := by
        rw [here, List.tail_cons, List.dropWhile_append]
        split
        · exact ⟨close, after, rest, by simp [Lexeme.isName, Lexeme.isPunct, closes]⟩
        · next hne =>
          cases hd : inner.dropWhile (fun l => l.isName || l.isPunct ",") with
          | nil => simp [hd] at hne
          | cons x xs =>
            cases xs with
            | nil => exact ⟨x, close, after :: rest, rfl⟩
            | cons y ys => exact ⟨x, y, ys ++ close :: after :: rest, rfl⟩
      rw [hd] at h
      rw [if_pos hp, arrow_extend hd]
      exact h
    · next hp => rw [if_neg hp]

theorem carries_expression (he : Follows t expr expr') (hs : Follows t stmt stmt') :
    Follows t (Grammar.expression expr stmt f) (Grammar.expression expr' stmt' f') := by
  intro s c
  refine .get (.congr (fun hr => by rw [Cursor.start_extend hr]) ?_)
  have rest (s : Bool) : Carries t s
      (conditional expr f >>= fun target => do
        match ← operator? ["=", "+=", "-="] with
        | some operator =>
          let value ← expr
          finish .assignment c.start [.node target, .token operator, .node value]
        | none => return target)
      (conditional expr' f' >>= fun target => do
        match ← operator? ["=", "+=", "-="] with
        | some operator =>
          let value ← expr'
          finish .assignment c.start [.node target, .token operator, .node value]
        | none => return target) c :=
    .bind (carries_conditional hf he s c) (carries_assignmentRest he _)
  refine .iteRun (fun n c' hr hc' hc => ?_) (fun _ => carries_lambda hf he hs s c) fun _ => rest s
  cases hl : atLambda c with
  | true => exact atLambda_extend hl
  | false =>
    rw [hl] at hr
    refine not_atLambda_extend ?_ (fun hp => ?_) hl
    · obtain ⟨⟨taken, htaken, calm⟩, -⟩ := rest true n c' hr
      have some : taken ≠ [] := by
        rintro rfl
        cases calm
      have := List.length_pos_iff.2 some
      have := List.length_pos_iff.2 hc'
      rw [htaken, List.length_append]
      omega
    · have opened := Opens.bind (opens_conditional (f := f) he hp)
        (carries_assignmentRest he c.start)
      obtain ⟨inner, close, more, here, -, closes⟩ := opened n c' hr
      have some : more ++ c'.rest ≠ [] := by simp [hc']
      obtain ⟨after, rest, hsome⟩ := List.exists_cons_of_ne_nil some
      exact ⟨inner, close, after, rest, by rw [here, hsome], closes⟩

/-! ### Statements -/

omit hf in
theorem carries_declarator (he : Follows t expr expr') :
    Follows t (declarator expr) (declarator expr') := by
  intro s c
  refine .start fun at0 => .identifier fun name c => .eatPunct (by decide) (fun c => ?_)
    fun _ => .finish
  exact .bind (he _ c) fun value c => .finish

theorem carries_declaration (he : Follows t expr expr') :
    Follows t (declaration expr f) (declaration expr' f') := by
  intro s c
  refine .start fun at0 => .expectWord fun c => ?_
  exact .bind (.separated (carries_declarator he) hf _ c) fun declarators c => .finish

omit hf in
theorem carries_condition (he : Follows t expr expr') :
    Follows t (parenthesizedCondition expr) (parenthesizedCondition expr') := by
  intro s c
  refine .expectPunct (by decide) fun c => .bind (he _ c) fun condition c => ?_
  exact .expectPunct (by decide) fun c => .pure _

omit hf in
theorem carries_ifStatement (he : Follows t expr expr') (hs : Follows t stmt stmt') :
    Follows t (ifStatement expr stmt) (ifStatement expr' stmt') := by
  intro s c
  refine .start fun at0 => .expectWord fun c => .bind (carries_condition he _ c) fun condition c => ?_
  refine .bind (hs _ c) fun thenBranch c => .start fun elseAt => .eatWord (fun c => ?_)
    fun _ => .finish
  exact .bind (hs _ c) fun body c => .bind .finish fun clause c => .finish

omit hf in
theorem carries_forEachStatement (he : Follows t expr expr') (hs : Follows t stmt stmt')
    (at0 : Nat) (await? : List (Child Node)) :
    Follows t (forEachStatement expr stmt at0 await?) (forEachStatement expr' stmt' at0 await?) := by
  intro s c
  refine .expectWord fun c => .expectPunct (by decide) fun c => .expectWord fun c => ?_
  refine .identifier fun name c => .expectWord fun c => .bind (he _ c) fun source c => ?_
  exact .expectPunct (by decide) fun c => .bind (hs _ c) fun body c => .finish

theorem carries_usingStatement (he : Follows t expr expr') (hs : Follows t stmt stmt')
    (at0 : Nat) (await? : List (Child Node)) :
    Follows t (usingStatement expr stmt f at0 await?)
      (usingStatement expr' stmt' f' at0 await?) := by
  intro s c
  refine .expectWord fun c => .expectPunct (by decide) fun c => ?_
  refine .bind (carries_declaration hf he _ c) fun declared c => ?_
  exact .expectPunct (by decide) fun c => .bind (hs _ c) fun body c => .finish

omit hf in
theorem carries_emptyPart (c : Cursor) : Carries t false emptyPart emptyPart c :=
  .start fun _ => .pure _

omit hf in
/-- A part that may be left out, before the lexeme that follows it. -/
theorem carries_part {stop : String} (he : Follows t expr expr') {k k' : Node → Parse Node}
    (hk : ∀ n c', Carries t false (k n) (k' n) c') (c : Cursor) :
    Carries t false
      (do
        let part ← if (← get).atPunct stop then emptyPart else expr
        k part)
      (do
        let part ← if (← get).atPunct stop then emptyPart else expr'
        k' part) c := by
  refine .look (fun hr => by rw [Cursor.atPunct_extend hr]) ?_
  exact .ite (fun _ => rfl) (fun _ => .bind (carries_emptyPart c) hk) fun _ => .bind (he _ c) hk

theorem carries_forStatement (he : Follows t expr expr') (hs : Follows t stmt stmt') :
    Follows t (forStatement expr stmt f) (forStatement expr' stmt' f') := by
  intro s c
  refine .start fun at0 => .expectWord fun c => .expectPunct (by decide) fun c => ?_
  refine .get (.congr (fun hr => by
    rw [Cursor.start_extend hr, Cursor.atPunct_extend hr, Cursor.atWord_extend hr]) ?_)
  refine .ite (fun _ => rfl) (fun _ => .bind (carries_emptyPart c) ?_) fun _ =>
    .ite (fun _ => rfl) (fun _ => .bind (carries_declaration hf he _ c) ?_) fun _ =>
      .bind (he _ c) fun value c => .bind .finish ?_
  -- the rest of the head is the same after each kind of initializer
  all_goals
    refine fun initializer c => .expectPunct (by decide) (carries_part he fun condition c => ?_)
    refine .expectPunct (by decide) (carries_part he fun increment c => ?_)
    exact .expectPunct (by decide) fun c => .bind (hs _ c) fun body c => .finish

theorem carries_switchSection (he : Follows t expr expr') (hs : Follows t stmt stmt') :
    Follows t (switchSection expr stmt f) (switchSection expr' stmt' f') := by
  intro s c
  have section' (at0 : Nat) (label : Child Node) (c : Cursor) :
      Carries t false
        (do
          expectPunct ":"
          let statements ← itemsUntil
            (fun c => c.atWord "case" || c.atWord "default" || c.atPunct closeBrace) stmt f
          finish .switchSection at0 (label :: asNodes statements))
        (do
          expectPunct ":"
          let statements ← itemsUntil
            (fun c => c.atWord "case" || c.atWord "default" || c.atPunct closeBrace) stmt' f'
          finish .switchSection at0 (label :: asNodes statements)) c := by
    refine .expectPunct (by decide) fun c => .bind (.itemsUntil (fun c hr => ?_) hs hf c)
      fun statements c => .finish
    rw [Cursor.atWord_extend hr, Cursor.atWord_extend hr, Cursor.atPunct_extend hr]
  refine .start fun at0 => .eatWord (fun c => ?_) fun _ => ?_
  · exact .bind (he _ c) fun value c => .bind (.pure _) (section' at0)
  refine .look (fun hr => by rw [Cursor.atWord_extend hr]) ?_
  refine .ite (fun _ => rfl) (fun hd => ?_) fun _ => .failBind
  simp only [Cursor.atWord, Lexeme.isWord, Bool.and_eq_true, beq_iff_eq] at hd
  refine .takeToken (by simp [hd]) (Lexeme.isPlain_of_kind (by simp [hd])) fun tok c => ?_
  exact .bind (.pure _) (section' at0)

theorem carries_switchSections (he : Follows t expr expr') (hs : Follows t stmt stmt')
    {m m' : Nat} (hm : m ≤ m') (c : Cursor) :
    Carries t false (switchSections expr stmt f m) (switchSections expr' stmt' f' m') c := by
  induction m generalizing m' c with
  | zero => exact .tooDeep
  | succ m ih =>
    obtain ⟨m', rfl⟩ : ∃ g, m' = g + 1 := ⟨m' - 1, by omega⟩
    refine .look (fun hr => by rw [Cursor.atPunct_extend hr]) ?_
    refine .ite (fun _ => rfl) (fun _ => .pure _) fun _ => ?_
    refine .bind (carries_switchSection hf he hs _ c) fun first c => ?_
    exact .bind (ih (by omega) c) fun sections c => .pure _

theorem carries_switchStatement (he : Follows t expr expr') (hs : Follows t stmt stmt') :
    Follows t (switchStatement expr stmt f) (switchStatement expr' stmt' f') := by
  intro s c
  refine .start fun at0 => .expectWord fun c => .bind (carries_condition he _ c) fun subject c => ?_
  refine .expectPunct (by decide) fun c => ?_
  refine .bind (carries_switchSections hf he hs hf c) fun sections c => ?_
  exact .expectPunct (by decide) fun c => .finish

theorem closes_routine (hs : Follows t stmt stmt') (kind : NodeKind) (at0 : Nat) :
    Closes t s (routine stmt kind f at0) (routine stmt' kind f' at0) c := by
  refine .identifier fun name s c => ?_
  refine .bind (.bracketed (by decide) (by decide) (carries_parameter hf) hf) fun ps s c => ?_
  exact .andThen (closes_block hf hs) fun body c => .finish

omit hf in
theorem carries_jump {kind : NodeKind} {at0 : Nat} (hk : c.peek.kind = .ident) :
    Carries t s (jump kind at0) (jump kind at0) c := 
  .take (by simp [hk]) (Lexeme.isPlain_of_kind (by simp [hk])) fun l c =>
    .expectPunct (by decide) fun c => .finish

omit hf in
theorem carries_expressionStatement (he : Follows t expr expr') :
    Follows t (expressionStatement expr) (expressionStatement expr') := by
  intro s c
  exact .start fun at0 => .bind (he _ c) fun value c => .expectPunct (by decide) fun c => .finish

theorem carries_keywordStatement (he : Follows t expr expr') (hs : Follows t stmt stmt')
    (at0 : Nat) (word : String) (hk : c.peek.kind = .ident) :
    Carries t s (keywordStatement expr stmt f at0 word)
      (keywordStatement expr' stmt' f' at0 word) c := by
  have there : c.peek.kind ≠ .eof := by simp [hk]
  have plain : c.peek.isPlain = true := Lexeme.isPlain_of_kind (by simp [hk])
  unfold keywordStatement
  split
  case h_1 =>
    exact .bind (carries_declaration hf he _ c) fun declared c =>
      .expectPunct (by decide) fun c => .finish
  case h_2 => exact carries_ifStatement he hs s c
  case h_3 => exact carries_forEachStatement he hs at0 _ s c
  case h_4 => exact carries_usingStatement hf he hs at0 _ s c
  case h_5 =>
    refine .get (.iteAhead (fun two => by rw [Cursor.ahead_extend two]) (fun s => ?_) fun s => ?_)
    · exact .takeToken there plain fun tok c => carries_forEachStatement he hs at0 _ _ c
    refine .iteAhead (fun two => by rw [Cursor.ahead_extend two]) (fun s => ?_) fun s => ?_
    · exact .takeToken there plain fun tok c => carries_usingStatement hf he hs at0 _ _ c
    · exact carries_expressionStatement he s c
  case h_6 =>
    refine .take there plain fun l c => .bind (carries_condition he _ c) fun condition c => ?_
    exact .bind (hs _ c) fun body c => .finish
  case h_7 =>
    refine .take there plain fun l c => .bind (hs _ c) fun body c => .expectWord fun c => ?_
    refine .bind (carries_condition he _ c) fun condition c => ?_
    exact .expectPunct (by decide) fun c => .finish
  case h_8 => exact carries_forStatement hf he hs s c
  case h_9 =>
    refine .take there plain fun l c => .look (fun hr => by rw [Cursor.atPunct_extend hr]) ?_
    refine .ite (fun _ => rfl) (fun _ => .bind (.pure _) ?_)
      fun _ => .bind (he _ c) fun value c => .bind (.pure _) ?_
    all_goals exact fun values c => .expectPunct (by decide) fun c => .finish
  case h_10 => exact carries_jump hk
  case h_11 => exact carries_jump hk
  case h_12 =>
    refine .take there plain fun l c => .identifier fun label c => ?_
    exact .expectPunct (by decide) fun c => .finish
  case h_13 => exact carries_switchStatement hf he hs s c
  case h_14 =>
    refine .take there plain fun l c => .bind (carries_condition he _ c) fun subject c => ?_
    exact .bind (hs _ c) fun body c => .finish
  case h_15 => exact .take there plain fun l c => (closes_routine hf hs _ _).carries
  case h_16 =>
    refine .take there plain fun l c => .eatWord (fun c => ?_) fun _ => ?_
    · exact .bind (he _ c) fun value c => .expectPunct (by decide) fun c => .finish
    · exact .expectWord fun c => .expectPunct (by decide) fun c => .finish
  case h_17 => exact carries_expressionStatement he s c

theorem carries_statement (he : Follows t expr expr') (hs : Follows t stmt stmt') :
    Follows t (Grammar.statement expr stmt f) (Grammar.statement expr' stmt' f') := by
  intro s c
  refine .get (.congr (fun hr => by
    rw [Cursor.start_extend hr, Cursor.peek_extend hr, Cursor.atPunct_extend hr]) ?_)
  refine .ite (fun _ => rfl) (fun _ => (closes_block hf hs).carries) fun _ => ?_
  refine .eatPunct (by decide) (fun c => .finish) fun _ => ?_
  simp only [Bool.false_eq_true, if_false]
  refine .ite (fun _ => rfl) (fun hk => ?_) fun _ => carries_expressionStatement he s c
  exact carries_keywordStatement hf he hs _ _ (by simpa using hk)

theorem closes_template (hs : Follows t stmt stmt') :
    Closes t s (template stmt f) (template stmt' f') c :=
  .start fun _ _ => .expectWord fun _ _ => closes_routine hf hs _ _

end

end Grammar

/-! ## The language -/

/-- Expressions and statements, by induction on the fuel of the shorter text. -/
theorem carries_language (f : Nat) : ∀ {f' : Nat}, f ≤ f' →
    Follows t (expression f) (expression f') ∧ Follows t (statement f) (statement f') := by
  induction f with
  | zero => exact fun _ => ⟨fun _ _ => .tooDeep, fun _ _ => .tooDeep⟩
  | succ f ih =>
    intro f' hf
    obtain ⟨f', rfl⟩ : ∃ g, f' = g + 1 := ⟨f' - 1, by omega⟩
    obtain ⟨he, hs⟩ := ih (show f ≤ f' by omega)
    exact ⟨Grammar.carries_expression (by omega) he hs, Grammar.carries_statement (by omega) he hs⟩

section

variable {f f' : Nat} (hf : f ≤ f')

include hf

theorem carries_templates {m m' : Nat} (hm : m ≤ m') (c : Cursor) :
    Carries t false (templates f m) (templates f' m') c := by
  induction m generalizing m' c with
  | zero => exact .tooDeep
  | succ m ih =>
    obtain ⟨m', rfl⟩ : ∃ g, m' = g + 1 := ⟨m' - 1, by omega⟩
    refine .look (fun hr => by rw [Cursor.atEnd_extend hr]) ?_
    refine .ite (fun _ => rfl) (fun _ => .pure _) fun _ => ?_
    refine .bind (Grammar.closes_template hf (carries_language f hf).2).carries fun first c => ?_
    exact .bind (ih (by omega) c) fun ns c => .pure _

omit hf in
theorem run_templates_succ {m : Nat} : (templates f (m + 1)).run c =
    if c.atEnd then .ok ([], c)
    else (do
      let first ← Grammar.template (statement f) f
      return first :: (← templates f m)).run c := by
  rw [templates, StateT.run_bind, StateT.run_get]
  simp only [pure_bind]
  split <;> rfl

omit hf in
theorem templates_atEnd {m : Nat} {ns : List Node} {c' : Cursor}
    (h : (templates f m).run c = .ok (ns, c')) : c'.atEnd = true := by
  induction m generalizing c ns with
  | zero => cases h
  | succ m ih =>
    rw [run_templates_succ] at h
    split at h
    · next hend => cases h; exact hend
    · obtain ⟨first, mid, -, h⟩ := run_bind_ok h
      obtain ⟨ns, last, h, hl⟩ := run_bind_ok h
      cases hl
      exact ih h

/-- The templates of a text begin those of a longer one. -/
theorem templates_extend {m m' : Nat} {c' c'' : Cursor} {ns ns' : List Node}
    (h : (templates f m).run c = .ok (ns, c'))
    (h' : (templates f' m').run (c.extend t) = .ok (ns', c'')) : ns <+: ns' := by
  induction m generalizing m' c ns ns' with
  | zero => cases h
  | succ m ih =>
    cases m' with
    | zero => cases h'
    | succ m' =>
      rw [run_templates_succ] at h h'
      split at h
      · cases h
        exact List.nil_prefix
      · next going =>
        obtain ⟨first, mid, hfirst, h⟩ := run_bind_ok h
        obtain ⟨ns, last, h, hl⟩ := run_bind_ok h
        cases hl
        obtain ⟨⟨taken, htaken, calm⟩, hsame⟩ := Grammar.closes_template (t := t) (s := true) hf
          (carries_language f hf).2 first mid hfirst
        have some := rest_ne_nil_of_calm htaken calm
        rw [Cursor.atEnd_extend some, if_neg going, run_bind_of_ok hsame] at h'
        obtain ⟨ns', last, h', hl⟩ := run_bind_ok h'
        cases hl
        exact List.cons_prefix_cons.2 ⟨rfl, ih h h'⟩

end

/-! ## Whole texts -/

/-- At the end of a text that was scanned nothing is left. -/
theorem rest_eq_nil_of_atEnd {c : Cursor} (h : c.atEnd = true)
    (genuine : ∀ l ∈ c.rest, Genuine l.word) : c.rest = [] := by
  by_contra hr
  have first : c.peek ∈ c.rest := by
    rw [Cursor.rest_eq hr]
    exact List.mem_cons_self
  have word := genuine _ first
  have kind : c.peek.kind = .eof := by simpa [Cursor.atEnd] using h
  rw [Lexeme.word, kind] at word
  exact word

/-- The file that a text was read as. -/
theorem exists_templates {text : String} {n : Node} (h : parseUnit text = .ok n) :
    ∃ ls ns c, lexemes text = .ok ls ∧
      (templates (2 * ls.length + 4) (2 * ls.length + 4)).run ⟨ls, text.utf8ByteSize, 0⟩ =
        .ok (ns, c) ∧
      n = ⟨0, .compilationUnit, ⟨0, text.utf8ByteSize⟩, [], Grammar.asNodes ns⟩ := by
  unfold parseUnit parseWith at h
  cases hl : lexemes text with
  | error e => rw [hl] at h; cases h
  | ok ls =>
    rw [hl] at h
    cases hp : (templates (2 * ls.length + 4) (2 * ls.length + 4)).run
        ⟨ls, text.utf8ByteSize, 0⟩ with
    | error e => simp only [bind, Except.bind, hp] at h; cases h
    | ok r =>
      simp only [bind, Except.bind, hp] at h
      cases h
      exact ⟨ls, r.1, r.2, rfl, hp, rfl⟩

/-- A file that goes on after a line break begins with the templates it had. -/
theorem parseUnit_line {a b : String} {n n' : Node} (h : parseUnit a = .ok n)
    (h' : parseUnit (a ++ "\n" ++ b) = .ok n') :
    ∃ ns more span span', n = ⟨0, .compilationUnit, span, [], Grammar.asNodes ns⟩ ∧
      n' = ⟨0, .compilationUnit, span', [], Grammar.asNodes (ns ++ more)⟩ := by
  obtain ⟨ls, ns, c, hls, hns, rfl⟩ := exists_templates h
  obtain ⟨ls', ns', c', hls', hns', rfl⟩ := exists_templates h'
  obtain ⟨⟨taken, htaken, calm⟩, -⟩ :=
    carries_templates (t := ⟨[], 0⟩) (Nat.le_refl _) (Nat.le_refl _) _ _ _ hns
  have htaken : ls = taken ++ c.rest := htaken
  have whole : taken = ls := by
    have ended := rest_eq_nil_of_atEnd (templates_atEnd hns) fun l hl =>
      genuine_of_scan hls l (by rw [htaken]; exact List.mem_append_right _ hl)
    rw [htaken, ended, List.append_nil]
  have text : (a ++ "\n" ++ b).toList = a.toList ++ '\n' :: b.toList := by simp
  rw [lexemes, text, scan_line hls (whole ▸ calm)] at hls'
  cases hm : scan (0 + byteLength a.toList) ('\n' :: b.toList) with
  | error e => rw [hm] at hls'; cases hls'
  | ok more =>
    rw [hm] at hls'
    cases hls'
    have longer : 2 * ls.length + 4 ≤ 2 * (ls ++ more).length + 4 := by
      rw [List.length_append]
      omega
    obtain ⟨rest, rfl⟩ := templates_extend (t := ⟨more, (a ++ "\n" ++ b).utf8ByteSize⟩) longer
      hns hns'
    exact ⟨ns, rest, _, _, rfl, rfl⟩

end Stencil.Source
