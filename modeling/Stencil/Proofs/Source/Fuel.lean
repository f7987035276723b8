import Stencil.Proofs.Source.Nesting

/-!
# Fuel never runs out

A parser gives up with `tooDeep` when its fuel is used up. On a whole text it never is: an
expression or a statement inside another one comes after a lexeme of the outer one, with one
exception, the expression that a statement begins with. So two levels for each lexeme are enough.

`Copes n d p` is the invariant: with fewer than `n` lexemes left `p` does not give up, and if it
succeeds it has taken at least `d` of them. What follows it has to cope with `n - d` only.

Results:

* `copes_expression`, `copes_statement` – one lemma for each production, closed by induction on
  the fuel in `copes_code`: `2n` levels are enough for an expression, `2n + 1` for a statement;
* `parseUnit_ne_tooDeep`, `parseStatement_ne_tooDeep`, `parseExpression_ne_tooDeep` – a text that
  is refused is refused for what stands in it.
-/
namespace Stencil.Source

/-- From `c` the parser does not give up, and if it succeeds it has taken at least `d` lexemes. -/
structure CopesFrom {α : Type} (c : Cursor) (d : Nat) (p : Parse α) : Prop where
  shallow : ∀ e, p.run c = .error e → e.problem ≠ .tooDeep
  taken : ∀ a c', p.run c = .ok (a, c') → c'.rest.length + d ≤ c.rest.length

/-- The parser copes wherever fewer than `n` lexemes are left. -/
def Copes {α : Type} (n d : Nat) (p : Parse α) : Prop :=
  ∀ c : Cursor, c.rest.length < n → CopesFrom c d p

theorem Cursor.length_advance {c : Cursor} (h : c.rest ≠ []) :
    c.advance.rest.length + 1 = c.rest.length := by
  rw [rest_eq h, List.length_cons]

theorem Cursor.length_advance_le (c : Cursor) : c.advance.rest.length ≤ c.rest.length := by
  obtain ⟨_ | ⟨l, rest⟩, length, lastEnd⟩ := c
  · exact Nat.le_refl _
  · exact Nat.le_succ _

namespace CopesFrom

variable {α β : Type} {c : Cursor} {n d e : Nat} {p : Parse α} {k : α → Parse β}

theorem of (hc : c.rest.length < n) (h : Copes n d p) : CopesFrom c d p := h c hc

theorem bind (h : CopesFrom c d p)
    (hk : ∀ a c', c'.rest.length + d ≤ c.rest.length → CopesFrom c' (e - d) (k a)) :
    CopesFrom c e (p >>= k) where
  shallow error hr := by
    rw [StateT.run_bind] at hr
    cases hp : p.run c with
    | error first =>
      rw [hp] at hr
      cases hr
      exact h.shallow _ hp
    | ok r =>
      rw [hp] at hr
      exact (hk r.1 r.2 (h.taken r.1 r.2 hp)).shallow error hr
  taken b c' hr := by
    obtain ⟨a, mid, hp, hrest⟩ := run_bind_ok hr
    have first := h.taken a mid hp
    have second := (hk a mid first).taken b c' hrest
    omega

theorem get {k : Cursor → Parse β} (h : CopesFrom c e (k c)) :
    CopesFrom c e (MonadState.get >>= k) := ⟨h.shallow, h.taken⟩

/-- A lexeme is taken where there is one. -/
theorem bump {k : Lexeme → Parse β} (hc : c.rest.length < n) (hne : c.rest ≠ [])
    (hk : ∀ l, Copes (n - 1) (e - 1) (k l)) : CopesFrom c e (Parse.bump >>= k) := by
  have one := Cursor.length_advance hne
  have rest := hk c.peek c.advance (by omega)
  refine ⟨fun error hr => rest.shallow error hr, fun b c' hr => ?_⟩
  have := rest.taken b c' hr
  omega

/-- A lexeme is taken if `test` holds of the cursor. -/
theorem taking {test : Cursor → Bool} {k : Bool → Parse β} (hc : c.rest.length < n)
    (hne : test c = true → c.rest ≠ []) (htrue : Copes (n - 1) (e - 1) (k true))
    (hfalse : CopesFrom c e (k false)) :
    CopesFrom c e ((do
      if test (← MonadState.get) then let _ ← Parse.bump; return true else return false) >>= k) := by
  rw [bind_assoc]
  refine get ?_
  split
  · next h =>
    rw [bind_assoc]
    exact bump hc (hne h) fun _ => htrue
  · exact hfalse

theorem eatPunct {text : String} {k : Bool → Parse β} (hc : c.rest.length < n)
    (htrue : Copes (n - 1) (e - 1) (k true)) (hfalse : CopesFrom c e (k false)) :
    CopesFrom c e (Parse.eatPunct text >>= k) :=
  taking hc Cursor.rest_ne_nil_of_isPunct htrue hfalse

theorem eatWord {text : String} {k : Bool → Parse β} (hc : c.rest.length < n)
    (htrue : Copes (n - 1) (e - 1) (k true)) (hfalse : CopesFrom c e (k false)) :
    CopesFrom c e (Parse.eatWord text >>= k) :=
  taking hc Cursor.rest_ne_nil_of_isWord htrue hfalse

end CopesFrom

namespace Copes

variable {α β : Type} {m n d e : Nat} {p : Parse α} {k : α → Parse β}

theorem mono (h : Copes n d p) (hm : m ≤ n) : Copes m d p :=
  fun c hc => h c (Nat.lt_of_lt_of_le hc hm)

/-- Nothing is asked of how much the parser takes. -/
theorem weaken (h : Copes n d p) : Copes n 0 p := fun c hc =>
  ⟨(h c hc).shallow, fun a c' hr => Nat.le_of_add_right_le ((h c hc).taken a c' hr)⟩

/-- There are no cursors to cope with. -/
theorem none (hn : n ≤ 0) : Copes n d p := fun _ hc => absurd hc (by omega)

theorem bind (h : Copes n d p) (hk : ∀ a, Copes (n - d) (e - d) (k a)) : Copes n e (p >>= k) :=
  fun c hc => (h c hc).bind fun a c' htaken => hk a c' (by omega)

theorem skip (h : Copes n 0 p) (hk : ∀ a, Copes n e (k a)) : Copes n e (p >>= k) := bind h hk

theorem pure (a : α) : Copes n 0 (Pure.pure a : Parse α) := by
  refine fun c _ => ⟨fun error hr => ?_, fun b c' hr => ?_⟩
  · cases hr
  · cases hr
    exact Nat.le_refl _

theorem given {a : α} (h : Copes n e (k a)) : Copes n e (Pure.pure a >>= k) := by
  rwa [pure_bind]

theorem fail (what : Expectation) : Copes n d (Parse.fail what : Parse α) := by
  refine fun c _ => ⟨fun error hr => ?_, fun b c' hr => ?_⟩
  · cases hr
    simp
  · cases hr

theorem get {k : Cursor → Parse β} (h : ∀ c, c.rest.length < n → CopesFrom c e (k c)) :
    Copes n e (MonadState.get >>= k) := fun c hc => .get (h c hc)

/-- What follows copes from every cursor, whichever was looked at. -/
theorem look {k : Cursor → Parse β} (h : ∀ c, Copes n e (k c)) :
    Copes n e (MonadState.get >>= k) := get fun c => h c c

theorem start {k : Nat → Parse β} (h : ∀ at0, Copes n e (k at0)) :
    Copes n e (Parse.start >>= k) := look fun c => h c.start

theorem finish (kind : NodeKind) (at0 : Nat) (children : List (Child Node)) :
    Copes n 0 (Parse.finish kind at0 children) := look fun _ => pure _

theorem bump : Copes n 0 Parse.bump := by
  refine fun c _ => ⟨fun error hr => ?_, fun l c' hr => ?_⟩
  · cases hr
  · cases hr
    exact c.length_advance_le

theorem takeToken (kind : TokenKind) : Copes n 0 (Parse.takeToken kind) :=
  skip bump fun _ => pure _

theorem eatPunct {text : String} {k : Bool → Parse β} (htrue : Copes (n - 1) (e - 1) (k true))
    (hfalse : Copes n e (k false)) : Copes n e (Parse.eatPunct text >>= k) :=
  fun c hc => .eatPunct hc htrue (hfalse c hc)

theorem eatWord {text : String} {k : Bool → Parse β} (htrue : Copes (n - 1) (e - 1) (k true))
    (hfalse : Copes n e (k false)) : Copes n e (Parse.eatWord text >>= k) :=
  fun c hc => .eatWord hc htrue (hfalse c hc)

theorem expectPunct (text : String) : Copes n 1 (Parse.expectPunct text) :=
  eatPunct (pure _) (fail _)

theorem expectWord (text : String) : Copes n 1 (Parse.expectWord text) :=
  eatWord (pure _) (fail _)

theorem expectEnd : Copes n 0 Parse.expectEnd := by
  refine look fun c => ?_
  split
  · exact pure _
  · exact fail _

theorem identifier : Copes n 1 Parse.identifier := by
  refine get fun c hc => ?_
  split
  · next h =>
    simp only [Lexeme.isName, Bool.and_eq_true, beq_iff_eq] at h
    exact .bump hc (Cursor.rest_ne_nil_of_ident h.1) fun _ => pure _
  · exact .of hc (fail _)

theorem operator? {texts : List String} {k : Option Token → Parse β}
    (hsome : ∀ t, Copes (n - 1) (e - 1) (k (some t))) (hnone : Copes n e (k Option.none)) :
    Copes n e (Parse.operator? texts >>= k) := by
  unfold Parse.operator?
  rw [bind_assoc]
  refine get fun c hc => ?_
  dsimp only
  split
  · next h =>
    split
    · next kind _ =>
      simp only [Parse.takeToken, bind_assoc, pure_bind]
      exact .bump hc (Cursor.rest_ne_nil_of_operator h) fun _ => hsome _
    · exact .of hc hnone
  · exact .of hc hnone

theorem separated (h : Copes n 0 p) {fuel : Nat} (hf : n ≤ fuel) :
    Copes n 0 (Parse.separated p fuel) := by
  induction fuel generalizing n with
  | zero => exact none hf
  | succ fuel ih =>
    refine skip h fun _ => eatPunct ?_ (pure _)
    exact skip (ih (h.mono (Nat.sub_le _ _)) (by omega)) fun _ => pure _

theorem bracketed (h : Copes (n - 1) 0 p) {opening closing : String} {fuel : Nat}
    (hf : n ≤ fuel) : Copes n 1 (Parse.bracketed opening closing p fuel) := by
  refine bind (expectPunct _) fun _ => look fun c => ?_
  split
  · exact given (bind (expectPunct _) fun _ => pure _)
  · exact skip (separated h (by omega)) fun _ => bind (expectPunct _) fun _ => pure _

theorem itemsUntil (h : Copes n 1 p) {stop : Cursor → Bool} {fuel : Nat} (hf : n ≤ fuel) :
    Copes n 0 (Parse.itemsUntil stop p fuel) := by
  induction fuel generalizing n with
  | zero => exact none hf
  | succ fuel ih =>
    refine look fun c => ?_
    split
    · exact pure _
    split
    · exact fail _
    · refine bind h fun _ => ?_
      exact skip (ih (h.mono (Nat.sub_le _ _)) (by omega)) fun _ => pure _

end Copes

namespace Grammar

open Parse

variable {n fuel : Nat}

/-! ## Names, types and parameters -/

theorem copes_typeText (hf : n ≤ fuel) : Copes n 1 (typeText fuel) := by
  induction fuel generalizing n with
  | zero => exact .none hf
  | succ fuel ih =>
    refine .get fun c hc => ?_
    split
    · exact .of hc (.fail _)
    · next h =>
      have ident : c.peek.kind = .ident := by simpa using h
      refine .bump hc (Cursor.rest_ne_nil_of_ident ident) fun _ => .eatPunct ?_ (.pure _)
      refine .skip (.separated (ih (by omega)).weaken (by omega)) fun _ => ?_
      exact .bind (.expectPunct _) fun _ => .pure _

theorem copes_typeName (hf : n ≤ fuel) : Copes n 1 (typeName fuel) :=
  .start fun _ => .bind (copes_typeText hf) fun _ => .look fun _ => .finish _ _ _

theorem copes_parameter (hf : n ≤ fuel) : Copes n 0 (parameter fuel) := by
  refine .look fun c => ?_
  split
  · exact .skip (copes_typeName hf).weaken fun _ => .bind .identifier fun _ => .finish _ _ _
  · exact .bind .identifier fun _ => .finish _ _ _

theorem copes_lambdaNames (hf : n ≤ fuel) : Copes n 0 (lambdaNames fuel) := by
  induction fuel generalizing n with
  | zero => exact .none hf
  | succ fuel ih =>
    refine .look fun c => ?_
    split
    · exact .pure _
    · refine .bind .identifier fun _ => .skip (.finish _ _ _) fun _ => .eatPunct ?_ (.pure _)
      exact .skip (ih (by omega)) fun _ => .pure _

/-! ## Expressions

An expression or a statement inside one comes after a lexeme, so it has to cope with one less.
-/

section

variable {expr stmt : Parse Node} (he : Copes (n - 1) 0 expr) (hs : Copes (n - 1) 1 stmt)
  (hf : n ≤ fuel)

include hs hf in
theorem copes_block : Copes n 1 (block stmt fuel) := by
  refine .start fun _ => .bind (.expectPunct _) fun _ => ?_
  refine .skip (.itemsUntil hs (by omega)) fun _ => .bind (.expectPunct _) fun _ => .finish _ _ _

include he hs hf in
theorem copes_lambda : Copes n 0 (lambda expr stmt fuel) := by
  refine .start fun at0 => ?_
  have body (ps : List Node) : Copes (n - 1) 0 (do
      expectPunct "=>"
      let body ← if (← get).atPunct openBrace then block stmt fuel else expr
      finish .lambda at0 (asNodes (ps ++ [body]))) := by
    refine .bind (.expectPunct _) fun _ => .look fun c => ?_
    split
    · exact .bind (copes_block (hs.mono (by omega)) (by omega)) fun _ => .finish _ _ _
    · exact .skip (he.mono (by omega)) fun _ => .finish _ _ _
  refine .eatPunct ?_ ?_
  · refine .skip (copes_lambdaNames (by omega)) fun ps => .bind (.expectPunct _) fun _ => ?_
    exact (body ps).mono (by omega)
  · exact .bind .identifier fun _ => .skip (.finish _ _ _) fun p => body [p]

include he in
theorem copes_query : Copes n 0 (query expr) := by
  refine .start fun at0 => .bind (.expectWord _) fun _ => .bind .identifier fun name => ?_
  refine .bind (.expectWord _) fun _ => .skip (he.mono (by omega)) fun source => ?_
  have rest (filters : List Node) : Copes (n - 1) 0 (do
      let selectAt ← start
      expectWord "select"
      let selection ← expr
      let select ← finish .selectClause selectAt [.node selection]
      finish .query at0 (.token name :: asNodes (source :: filters ++ [select]))) := by
    refine .start fun _ => .bind (.expectWord _) fun _ => .skip (he.mono (by omega)) fun _ => ?_
    exact .skip (.finish _ _ _) fun _ => .finish _ _ _
  refine .start fun _ => .eatWord ?_ ((rest []).mono (by omega))
  refine .skip (he.mono (by omega)) fun _ => .skip (.finish _ _ _) fun f => ?_
  exact (rest [f]).mono (by omega)

include he hf in
theorem copes_primary : Copes n 0 (primary expr fuel) := by
  refine .get fun c hc => ?_
  dsimp only
  split
  · exact .of hc (.skip (.takeToken _) fun _ => .finish _ _ _)
  split
  · exact .of hc (.skip .bump fun _ => .finish _ _ _)
  split
  · exact .of hc (copes_query he)
  split
  · exact .of hc (.bind .identifier fun _ => .finish _ _ _)
  split
  · next h =>
    refine .bump hc (Cursor.rest_ne_nil_of_isPunct h) fun _ => .skip he fun _ => ?_
    exact .bind (.expectPunct _) fun _ => .finish _ _ _
  split
  · exact .of hc (.bind (.bracketed he hf) fun _ => .finish _ _ _)
  · exact .of hc (.fail _)

include he hf in
theorem copes_suffixes {at0 : Nat} {base : Node} {more : Nat} (hm : n ≤ more) :
    Copes n 0 (suffixes expr fuel at0 base more) := by
  induction more generalizing n base with
  | zero => exact .none hm
  | succ more ih =>
    -- a suffix took a lexeme
    have next {m : Nat} (hn : m ≤ n - 1) (kind : NodeKind) (children : List (Child Node)) :
        Copes m 0 (finish kind at0 children >>= fun n => suffixes expr fuel at0 n more) :=
      .skip (.finish _ _ _) fun _ => ih (he.mono (by omega)) (by omega) (by omega)
    refine .eatPunct (.bind .identifier fun _ => next (by omega) _ _) (.look fun c => ?_)
    split
    · exact .bind (.bracketed he hf) fun _ => next (by omega) _ _
    refine .eatPunct ?_ (.operator? (fun _ => next (by omega) _ _) (.pure _))
    exact .skip he fun _ => .bind (.expectPunct _) fun _ => next (by omega) _ _

include he hf in
theorem copes_unary {more : Nat} (hm : n ≤ more) : Copes n 0 (unary expr fuel more) := by
  induction more generalizing n with
  | zero => exact .none hm
  | succ more ih =>
    have next {m : Nat} (hn : m ≤ n - 1) : Copes m 0 (unary expr fuel more) :=
      ih (he.mono (by omega)) (by omega) (by omega)
    refine .start fun _ => .operator? (fun _ => .skip (next (by omega)) fun _ => .finish _ _ _) ?_
    refine .eatWord (.skip (next (by omega)) fun _ => .finish _ _ _) (.look fun c => ?_)
    split
    · refine .skip .bump fun _ => .bind (copes_typeName hf) fun _ => ?_
      refine .bind (.expectPunct _) fun _ => .skip (next (by omega)) fun _ => .finish _ _ _
    · exact .skip (copes_primary he hf) fun _ => copes_suffixes he hf hf

theorem copes_binaryRest {operand : Parse Node} (ho : Copes n 0 operand)
    {operators : List String} {at0 : Nat} {left : Node} {fuel : Nat} (hf : n ≤ fuel) :
    Copes n 0 (binaryRest operand operators at0 left fuel) := by
  induction fuel generalizing n left with
  | zero => exact .none hf
  | succ fuel ih =>
    refine .operator? (fun _ => .skip (ho.mono (Nat.sub_le _ _)) fun _ => ?_) (.pure _)
    exact .skip (.finish _ _ _) fun _ => ih (ho.mono (Nat.sub_le _ _)) (by omega)

include hf in
theorem copes_binary {operand : Parse Node} (ho : Copes n 0 operand)
    (levels : List (List String)) : Copes n 0 (binary operand fuel levels) := by
  induction levels with
  | nil => exact ho
  | cons operators tighter ih =>
    exact .start fun _ => .skip ih fun _ => copes_binaryRest ih hf

include he hf in
theorem copes_conditional : Copes n 0 (conditional expr fuel) := by
  refine .start fun _ => .skip (copes_binary hf (copes_unary he hf hf) _) fun _ => ?_
  refine .eatPunct (.skip he fun _ => .bind (.expectPunct _) fun _ => ?_) (.pure _)
  exact .skip (he.mono (by omega)) fun _ => .finish _ _ _

include he hs hf in
theorem copes_expression : Copes n 0 (expression expr stmt fuel) := by
  refine .look fun c => ?_
  split
  · exact copes_lambda he hs hf
  · refine .skip (copes_conditional he hf) fun _ => .operator? (fun _ => ?_) (.pure _)
    exact .skip he fun _ => .finish _ _ _

end

/-! ## Statements

A statement may begin with an expression, which has to cope with as much. It takes a lexeme.
-/

section

variable {expr stmt : Parse Node} (he : Copes n 0 expr) (hs : Copes (n - 1) 1 stmt)
  (hf : n ≤ fuel)

include he in
theorem copes_declarator : Copes n 0 (declarator expr) := by
  refine .start fun _ => .bind .identifier fun _ => .eatPunct ?_ (.finish _ _ _)
  exact .skip (he.mono (by omega)) fun _ => .finish _ _ _

include he hf in
theorem copes_declaration : Copes n 1 (declaration expr fuel) := by
  refine .start fun _ => .bind (.expectWord _) fun _ => ?_
  exact .skip (.separated (copes_declarator (he.mono (by omega))) (by omega)) fun _ =>
    .finish _ _ _

include he in
theorem copes_parenthesizedCondition : Copes n 1 (parenthesizedCondition expr) := by
  refine .bind (.expectPunct _) fun _ => .skip (he.mono (by omega)) fun _ => ?_
  exact .bind (.expectPunct _) fun _ => .pure _

include he hs in
theorem copes_ifStatement : Copes n 1 (ifStatement expr stmt) := by
  refine .start fun _ => .bind (.expectWord _) fun _ => ?_
  refine .bind (copes_parenthesizedCondition (he.mono (by omega))) fun _ => ?_
  refine .bind (hs.mono (by omega)) fun _ => .start fun _ => .eatWord ?_ (.finish _ _ _)
  exact .bind (hs.mono (by omega)) fun _ => .skip (.finish _ _ _) fun _ => .finish _ _ _

include he hs in
theorem copes_forEachStatement {at0 : Nat} {await? : List (Child Node)} :
    Copes n 1 (forEachStatement expr stmt at0 await?) := by
  refine .bind (.expectWord _) fun _ => .bind (.expectPunct _) fun _ => ?_
  refine .bind (.expectWord _) fun _ => .bind .identifier fun _ => .bind (.expectWord _) fun _ => ?_
  refine .skip (he.mono (by omega)) fun _ => .bind (.expectPunct _) fun _ => ?_
  exact .bind (hs.mono (by omega)) fun _ => .finish _ _ _

include he hs hf in
theorem copes_usingStatement {at0 : Nat} {await? : List (Child Node)} :
    Copes n 1 (usingStatement expr stmt fuel at0 await?) := by
  refine .bind (.expectWord _) fun _ => .bind (.expectPunct _) fun _ => ?_
  refine .bind (copes_declaration (he.mono (by omega)) (by omega)) fun _ => ?_
  refine .bind (.expectPunct _) fun _ => .bind (hs.mono (by omega)) fun _ => .finish _ _ _

theorem copes_emptyPart : Copes n 0 emptyPart := .start fun _ => .pure _

include he in
/-- A part that may be left out. -/
theorem copes_part {β : Type} {closing : String} {k : Node → Parse β}
    (hk : ∀ part, Copes n 0 (k part)) : Copes n 0 (do
      let part ← if (← get).atPunct closing then emptyPart else expr
      k part) := by
  refine .look fun c => ?_
  split
  · exact .skip copes_emptyPart hk
  · exact .skip he hk

include he hs hf in
theorem copes_forStatement : Copes n 1 (forStatement expr stmt fuel) := by
  refine .start fun at0 => .bind (.expectWord _) fun _ => ?_
  have rest (first : Node) : Copes (n - 1) 0 (do
      expectPunct ";"
      let condition ← if (← get).atPunct ";" then emptyPart else expr
      expectPunct ";"
      let increment ← if (← get).atPunct ")" then emptyPart else expr
      expectPunct ")"
      let body ← stmt
      finish .forStatement at0 (asNodes [first, condition, increment, body])) := by
    refine .bind (.expectPunct _) fun _ => copes_part (he.mono (by omega)) fun _ => ?_
    refine .bind (.expectPunct _) fun _ => copes_part (he.mono (by omega)) fun _ => ?_
    exact .bind (.expectPunct _) fun _ => .bind (hs.mono (by omega)) fun _ => .finish _ _ _
  refine .bind (.expectPunct _) fun _ => .look fun c => ?_
  split
  · exact .skip copes_emptyPart fun first => (rest first).mono (by omega)
  split
  · refine .skip (copes_declaration (he.mono (by omega)) (by omega)).weaken fun first => ?_
    exact (rest first).mono (by omega)
  · refine .skip (he.mono (by omega)) fun _ => .skip (.finish _ _ _) fun first => ?_
    exact (rest first).mono (by omega)

include he hs hf in
theorem copes_switchSection : Copes n 1 (switchSection expr stmt fuel) := by
  refine .start fun at0 => ?_
  have rest (label : Child Node) {m : Nat} (hm : m ≤ n) : Copes m 1 (do
      expectPunct ":"
      let statements ← itemsUntil
        (fun c => c.atWord "case" || c.atWord "default" || c.atPunct closeBrace) stmt fuel
      finish .switchSection at0 (label :: asNodes statements)) := by
    refine .bind (.expectPunct _) fun _ => ?_
    exact .skip (.itemsUntil (hs.mono (by omega)) (by omega)) fun _ => .finish _ _ _
  refine .eatWord ?_ (.look fun c => ?_)
  · exact .skip (he.mono (by omega)) fun label => .given (rest (.node label) (by omega)).weaken
  split
  · exact .skip (.takeToken _) fun label => .given (rest (.token label) (Nat.le_refl _))
  · exact .bind (.fail (d := 1) _) fun label => (rest label (by omega)).weaken

include he hs hf in
theorem copes_switchSections {more : Nat} (hm : n ≤ more) :
    Copes n 0 (switchSections expr stmt fuel more) := by
  induction more generalizing n with
  | zero => exact .none hm
  | succ more ih =>
    refine .look fun c => ?_
    split
    · exact .pure _
    · refine .bind (copes_switchSection he hs hf) fun _ => .skip ?_ fun _ => .pure _
      exact ih (he.mono (by omega)) (hs.mono (by omega)) (by omega) (by omega)

include he hs hf in
theorem copes_switchStatement : Copes n 1 (switchStatement expr stmt fuel) := by
  refine .start fun _ => .bind (.expectWord _) fun _ => ?_
  refine .bind (copes_parenthesizedCondition (he.mono (by omega))) fun _ => ?_
  refine .bind (.expectPunct _) fun _ => .skip ?_ fun _ => .bind (.expectPunct _) fun _ =>
    .finish _ _ _
  exact copes_switchSections (he.mono (by omega)) (hs.mono (by omega)) (by omega) (by omega)

include hs hf in
theorem copes_routine {kind : NodeKind} {at0 : Nat} : Copes n 1 (routine stmt kind fuel at0) := by
  refine .bind .identifier fun _ => ?_
  refine .bind (.bracketed (copes_parameter (by omega)) (by omega)) fun _ => ?_
  exact .bind (copes_block (hs.mono (by omega)) (by omega)) fun _ => .finish _ _ _

include he in
theorem copes_expressionStatement : Copes n 1 (expressionStatement expr) :=
  .start fun _ => .skip he fun _ => .bind (.expectPunct _) fun _ => .finish _ _ _

theorem copes_jump {kind : NodeKind} {at0 : Nat} : Copes n 1 (jump kind at0) :=
  .skip .bump fun _ => .bind (.expectPunct _) fun _ => .finish _ _ _

include he hs in
theorem copes_guarded {kind : NodeKind} {at0 : Nat} : Copes n 1 (do
    let _ ← bump
    let subject ← parenthesizedCondition expr
    let body ← stmt
    finish kind at0 (asNodes [subject, body])) := by
  refine .skip .bump fun _ => .bind (copes_parenthesizedCondition he) fun _ => ?_
  exact .bind hs fun _ => .finish _ _ _

include he hs hf in
/-- The keyword is there to be taken, which a statement inside `do` relies on. -/
theorem copes_keywordStatement {c : Cursor} (hc : c.rest.length < n) (hne : c.rest ≠ [])
    {at0 : Nat} {word : String} :
    CopesFrom c 1 (keywordStatement expr stmt fuel at0 word) := by
  unfold keywordStatement
  split
  · refine .of hc (.bind (copes_declaration he hf) fun _ => ?_)
    exact .bind (.expectPunct _) fun _ => .finish _ _ _
  · exact .of hc (copes_ifStatement he hs)
  · exact .of hc (copes_forEachStatement he hs)
  · exact .of hc (copes_usingStatement he hs hf)
  · refine .of hc (.look fun c => ?_)
    dsimp only
    split
    · exact .skip (.takeToken _) fun _ => copes_forEachStatement he hs
    split
    · exact .skip (.takeToken _) fun _ => copes_usingStatement he hs hf
    · exact copes_expressionStatement he
  · exact .of hc (copes_guarded he hs)
  · refine .bump hc hne fun _ => .bind hs fun _ => .bind (.expectWord _) fun _ => ?_
    refine .bind (copes_parenthesizedCondition (he.mono (by omega))) fun _ => ?_
    exact .bind (.expectPunct _) fun _ => .finish _ _ _
  · exact .of hc (copes_forStatement he hs hf)
  · refine .bump hc hne fun _ => .look fun c => ?_
    split
    · exact .given (.bind (.expectPunct _) fun _ => .finish _ _ _)
    · refine .skip (he.mono (by omega)) fun _ => .given ?_
      exact .bind (.expectPunct _) fun _ => .finish _ _ _
  · exact .of hc copes_jump
  · exact .of hc copes_jump
  · refine .bump hc hne fun _ => .bind .identifier fun _ => ?_
    exact .bind (.expectPunct _) fun _ => .finish _ _ _
  · exact .of hc (copes_switchStatement he hs hf)
  · exact .of hc (copes_guarded he hs)
  · exact .of hc (.skip .bump fun _ => copes_routine hs hf)
  · refine .bump hc hne fun _ => .eatWord ?_ ?_
    · refine .skip (he.mono (by omega)) fun _ => ?_
      exact .bind (.expectPunct _) fun _ => .finish _ _ _
    · exact .bind (.expectWord _) fun _ => .bind (.expectPunct _) fun _ => .finish _ _ _
  · exact .of hc (copes_expressionStatement he)

include he hs hf in
theorem copes_statement : Copes n 1 (statement expr stmt fuel) := by
  refine .get fun c hc => ?_
  split
  · exact .of hc (copes_block hs hf)
  refine .eatPunct hc (.finish _ _ _) ?_
  show CopesFrom c 1 (if c.peek.kind == .ident then _ else _)
  split
  · next h =>
    have ident : c.peek.kind = .ident := by simpa using h
    exact copes_keywordStatement he hs hf hc (Cursor.rest_ne_nil_of_ident ident)
  · exact .of hc (copes_expressionStatement he)

include hs hf in
theorem copes_template : Copes n 1 (template stmt fuel) :=
  .start fun _ => .bind (.expectWord _) fun _ =>
    (copes_routine (hs.mono (by omega)) (by omega)).weaken

end

end Grammar

/-! ## Whole texts -/

/-- Two levels for each lexeme that is left, and one more for a statement. -/
theorem copes_code (fuel : Nat) {n : Nat} :
    (2 * n ≤ fuel → Copes n 0 (expression fuel)) ∧
      (2 * n + 1 ≤ fuel → Copes n 1 (statement fuel)) := by
  induction fuel generalizing n with
  | zero => exact ⟨fun hn => .none (by omega), fun hn => absurd hn (Nat.not_succ_le_zero _)⟩
  | succ fuel ih =>
    rw [expression, statement]
    cases n with
    | zero => exact ⟨fun _ => .none (Nat.le_refl 0), fun _ => .none (Nat.le_refl 0)⟩
    | succ n =>
      constructor
      · intro hn
        have inner : Copes n 0 (expression fuel) := ih.1 (by omega)
        have nested : Copes n 1 (statement fuel) := ih.2 (by omega)
        exact Grammar.copes_expression inner nested (by omega)
      · intro hn
        have leading : Copes (n + 1) 0 (expression fuel) := ih.1 (by omega)
        have nested : Copes n 1 (statement fuel) := ih.2 (by omega)
        exact Grammar.copes_statement leading nested (by omega)

theorem copes_templates {fuel more n : Nat} (hf : 2 * n + 1 ≤ fuel) (hm : n ≤ more) :
    Copes n 0 (templates fuel more) := by
  induction more generalizing n with
  | zero => exact .none hm
  | succ more ih =>
    refine .look fun c => ?_
    split
    · exact .pure _
    · have nested : Copes (n - 1) 1 (statement fuel) := (copes_code fuel).2 (by omega)
      refine .bind (Grammar.copes_template nested (by omega)) fun _ => ?_
      exact .skip (ih (by omega) (by omega)) fun _ => .pure _

/-- The scanner does not look at how deep a text nests. -/
theorem scan_ne_tooDeep {offset : Nat} {cs : List Char} {e : SourceError}
    (h : scan offset cs = .error e) : e.problem ≠ .tooDeep := by
  fun_induction scan offset cs with
  | case1 => cases h
  | case2 offset c rest n ht ih => exact ih h
  | case3 => cases h
  | case4 offset c rest ht kind text n hw stop first hm ih =>
    cases h
    exact ih hm
  | case5 offset c rest ht hw problem =>
    cases h
    dsimp only [problem]
    split <;> simp

/-- A parser that copes with all lexemes of a text is given enough fuel for it. -/
theorem parseWith_ne_tooDeep {α : Type} {parser : Nat → Parse α} {source : String} {e : SourceError}
    (hp : ∀ n fuel, 2 * n + 1 ≤ fuel → Copes n 0 (parser fuel))
    (h : parseWith parser source = .error e) : e.problem ≠ .tooDeep := by
  unfold parseWith at h
  cases hl : lexemes source with
  | error first =>
    rw [hl] at h
    cases h
    exact scan_ne_tooDeep hl
  | ok ls =>
    rw [hl] at h
    have copes := hp (ls.length + 1) (2 * ls.length + 4) (by omega) ⟨ls, source.utf8ByteSize, 0⟩
      (Nat.lt_succ_self _)
    cases hr : (parser (2 * ls.length + 4)).run ⟨ls, source.utf8ByteSize, 0⟩ with
    | error first =>
      simp only [bind, Except.bind, hr] at h
      cases h
      exact copes.shallow _ hr
    | ok r =>
      simp only [bind, Except.bind, hr] at h
      cases h

theorem parseUnit_ne_tooDeep {source : String} {e : SourceError}
    (h : parseUnit source = .error e) : e.problem ≠ .tooDeep := by
  unfold parseUnit at h
  cases hp : parseWith (fun fuel => templates fuel fuel) source with
  | error first =>
    rw [hp] at h
    cases h
    exact parseWith_ne_tooDeep (fun n fuel hn => copes_templates hn (by omega)) hp
  | ok ns =>
    rw [hp] at h
    cases h

theorem parseStatement_ne_tooDeep {source : String} {e : SourceError}
    (h : parseStatement source = .error e) : e.problem ≠ .tooDeep :=
  parseWith_ne_tooDeep (fun _ fuel hn => .bind ((copes_code fuel).2 hn) fun _ =>
    .skip .expectEnd fun _ => .pure _) h

theorem parseExpression_ne_tooDeep {source : String} {e : SourceError}
    (h : parseExpression source = .error e) : e.problem ≠ .tooDeep :=
  parseWith_ne_tooDeep (fun n fuel hn => .skip ((copes_code fuel).1 (by omega)) fun _ =>
    .skip .expectEnd fun _ => .pure _) h

end Stencil.Source
