import Stencil.Proofs.Quotation.Names
import Stencil.Proofs.Quotation.Program
import Stencil.Proofs.Source.Portable

/-!
# The text of generator programs

The forms that a generator is made of never went through the parser, but they print as words that it
reads: a made expression is a primary expression with suffixes, a made statement begins with a
keyword or with such an expression, and kept code stands where it may be read back.

Results:

* `ReadsAsValue` – what is known of an expression that the quoter made;
* `Made.reads` – whatever the quoter makes is read back from what it prints;
* `accepts_program` – the whole generator.
-/
namespace Stencil.Quotation

open Source

/-! ## Words of generators -/

theorem isName_of_toList {s : String} {c : Char} {more : List Char} (h : s.toList = c :: more)
    (hc : isNameStart c) (hm : more.all isNameRest) (hk : isKeyword s = false) : IsName s :=
  ⟨⟨c, more, by rw [← h, String.ofList_toList], hc, hm⟩, hk⟩

/-- No keyword has an underscore in it. -/
theorem isKeyword_of_underscore {s : String} (h : '_' ∈ s.toList) : isKeyword s = false := by
  have none : ∀ k ∈ keywords, '_' ∉ k.toList := by decide
  rw [Bool.eq_false_iff]
  exact fun hk => none s (List.contains_iff_mem.1 hk) h

theorem all_isNameRest_toString (k : Nat) : (toString k).toList.all isNameRest :=
  List.all_eq_true.2 fun _ hc => isNameRest_of_isDigit (isDigit_of_mem_toString hc)

theorem isName_accumulatorName (k : Nat) : IsName (accumulatorName k) := by
  have text := toList_accumulatorName k
  refine isName_of_toList text (by decide) ?_ (isKeyword_of_underscore (by simp [text]))
  simp only [List.all_cons, Bool.and_eq_true]
  exact ⟨by decide, by decide, all_isNameRest_toString k⟩

/-- The characters of a name, or none. -/
theorem all_isNameRest_of_isName {s : String} (h : s = "" ∨ IsName s) : s.toList.all isNameRest := by
  rcases h with rfl | h
  · rfl
  · exact h.all_isNameRest

theorem isName_holderName {s : String} (h : s = "" ∨ IsName s) (k : Nat) :
    IsName (holderName s k) := by
  have text := toList_holderName s k
  refine isName_of_toList text (by decide) ?_ (isKeyword_of_underscore (by simp [text]))
  simp only [List.all_cons, List.all_append, Bool.and_eq_true]
  exact ⟨by decide, all_isNameRest_of_isName h, by decide, all_isNameRest_toString k⟩

theorem isName_generatorName {s : String} (h : s = "" ∨ IsName s) :
    IsName (s ++ generatorEnding) := by
  have keyword : isKeyword (s ++ generatorEnding) = false :=
    isKeyword_of_underscore (by simp [generatorEnding])
  have ending : generatorEnding.toList.all isNameRest := by decide
  rcases h with rfl | ⟨⟨c, more, rfl, hc, hm⟩, -⟩
  · exact isName_of_toList (show _ = '_' :: "Generator".toList from rfl) (by decide) (by decide) keyword
  · refine isName_of_toList (show _ = c :: (more ++ generatorEnding.toList) from ?_) hc ?_ keyword
    · rw [String.toList_append, String.toList_ofList, List.cons_append]
    · rw [List.all_append, hm, ending]
      rfl

theorem isName_of_isNameText {s : String} (h : isNameText s) (hk : isKeyword s = false) :
    IsName s := by
  unfold isNameText at h
  split at h
  · next c more hs =>
    rw [Bool.and_eq_true] at h
    exact isName_of_toList hs h.1 h.2 hk
  · cases h

theorem isName_of_mem_hostNames {s : String} (h : s ∈ hostNames) : IsName s := by
  have each : ∀ s ∈ hostNames, isNameText s = true ∧ isKeyword s = false := by decide +kernel
  exact isName_of_isNameText (each s h).1 (each s h).2

/-! ## Made expressions -/

/-- Words that begin a made expression. -/
def Begins (w : Word) : Prop := w = punct "(" ∨ w.1 = .string ∨ ∃ s, w = name s ∧ isKeyword s = false

theorem begins_name {s : String} (h : IsName s) : Begins (name s) := .inr (.inr ⟨s, rfl, h.2⟩)

/-- The expression is printed as `ws`, which is an expression wherever expressions end. -/
structure ReadsAsValue (n : Node) (ws : List Word) : Prop where
  prints : Prints n ws
  begins : ∃ w, ws.head? = some w ∧ Begins w
  accepts : ∀ f, ws.length < f → ∀ v ∈ closers, Accepts (expression f) ws (· = some v) (Alike n)

theorem Begins.ne_punct {w : Word} (h : Begins w) {s : String} (hs : s ≠ "(") : w ≠ punct s := by
  rcases h with rfl | h | ⟨t, rfl, -⟩
  · simpa [punct] using hs.symm
  · rintro rfl
    cases h
  · simp [name, punct]

theorem Begins.ne_keyword {w : Word} (h : Begins w) {s : String} (hs : isKeyword s) :
    w ≠ name s := by
  rcases h with rfl | h | ⟨t, rfl, ht⟩
  · simp [name, punct]
  · rintro rfl
    cases h
  · rintro ⟨⟩
    rw [hs] at ht
    cases ht

theorem Begins.opens {w : Word} (h : Begins w) : w.1 ≠ .eof ∧ ends (some w) = false := by
  have brace := h.ne_punct (s := Grammar.closeBrace) (by decide)
  have other := h.ne_keyword (s := "else") (by decide)
  refine ⟨?_, by simp [ends, brace, other]⟩
  rcases h with rfl | h | ⟨s, rfl, -⟩
  · simp
  · simp [h]
  · simp

/-- A primary expression with suffixes is an expression. -/
theorem readsAsValue_of_primary {n : Node} {w : Word} (hw : Begins w)
    (h : ∀ v ∈ closers, ∃ c c₁ m ws, c.words.head? = some w ∧ castAhead c.words = false ∧
      ReadsPrimary c m c₁ ws ∧ Looped NodeKind.fencedOperand suffixLoop m n c₁ (.of [v])) :
    ∃ ws, ReadsAsValue n ws := by
  have each : ∀ v ∈ closers, ∃ ws, Prints n ws ∧ (∃ w, ws.head? = some w ∧ Begins w) ∧
      ∀ f, ws.length < f → Accepts (expression f) ws (· = some v) (Alike n) := by
    intro v hv
    obtain ⟨c, c₁, m, us, hc, hcast, hm, hl⟩ := h v hv
    have operator : ∀ s ∈ ["!", "-"], c.words.head? ≠ some (punct s) := by
      have other : ∀ s ∈ ["!", "-"], s ≠ "(" := by decide
      intro s hs
      rw [hc]
      simpa using hw.ne_punct (other s hs)
    have await : c.words.head? ≠ some (name "await") := by
      rw [hc]
      simpa using hw.ne_keyword (s := "await") (by decide)
    obtain ⟨ws, hn⟩ := readsUnary_primary hm operator await hcast (noSuffix_of_mem_closers hv) hl
    refine ⟨ws, hn.prints, ?_, fun f hf => ?_⟩
    · obtain ⟨u, hu, rfl | hl⟩ := hn.leads
      · exact ⟨_, hu, .inl rfl⟩
      · rw [hc] at hl
        cases hl
        exact ⟨w, hu, hw⟩
    · obtain ⟨f, rfl, room⟩ := exists_fuel hf
      have := hn.length_pos
      refine accepts_expression_of_unary (by omega) hn.firm (fun o ho => ⟨v, hv, ho⟩)
        ((hn.accepts f f room room).mono (fun o ho => ?_) fun _ h => h)
      have arrow : ∀ v ∈ closers, v ≠ punct "=>" := by decide
      exact ⟨.inl (by simpa using ho), by rw [ho]; simpa using arrow v hv⟩
  obtain ⟨ws, hp, hb, -⟩ := each _ List.mem_cons_self
  refine ⟨ws, hp, hb, fun f hf v hv => ?_⟩
  obtain ⟨ws', hp', -, hq⟩ := each v hv
  obtain rfl := hp.unique hp'
  exact hq f hf

/-! ### Names and texts -/

/-- A word alone. -/
theorem readsAsValue_of_word {n : Node} {w : Word} (hw : Begins w) (hp : w ≠ punct "(")
    (h : ∀ c c' : Cursor, c.words = w :: c'.words → ReadsPrimary c n c' [w]) :
    ∃ ws, ReadsAsValue n ws :=
  readsAsValue_of_primary hw fun v hv => ⟨.of [w, v], .of [v], n, [w], by simp,
    by rw [Cursor.words_of]; exact castAhead_cons hp _, h _ _ (by simp),
    looped_suffixes_nil (noSuffix_of_mem_closers hv) n⟩

theorem reads_text (s : String) : ∃ ws, ReadsAsValue (Node.stringLiteral s).bare ws := by
  refine readsAsValue_of_word (w := (.string, s)) (.inr (.inl rfl)) (by simp [punct])
    fun c c' hc => ?_
  have kind : Grammar.literalKind? ⟨.string, s, .detached⟩ = some .stringLiteral := rfl
  rw [Node.stringLiteral, Node.literal, Node.bare_build]
  refine readsPrimary_word hc (.literal trivial (by simp) ?_) rfl rfl (by simp) (by simp [name]) fun f =>
    accepts_primary_literal (fun l hl => ?_) rfl
  · exact (spelling_of_literalKind? (l := ⟨.string, s, .detached⟩)
      (t := (Token.detached .stringLiteral s).unplaced) kind rfl).2.2
  · rw [(Lexeme.asks_congr (l := ⟨.string, s, .detached⟩) hl).1]
    exact kind

section

variable {s t : String} (hs : IsName s) (ht : IsName t)

include hs

theorem readsPrimary_name {c c' : Cursor} (hc : c.words = name s :: c'.words) :
    ReadsPrimary c (Node.identifier s).bare c' [name s] := by
  rw [Node.identifier, Node.identifierOf, Node.bare_build]
  exact readsPrimary_word hc (.identifier rfl hs.1) rfl rfl (by simp)
    ((begins_name hs).ne_keyword (by decide)) fun f =>
      accepts_primary_identifier (t := (Token.ofName s).unplaced) rfl hs.2

theorem reads_name : ∃ ws, ReadsAsValue (Node.identifier s).bare ws :=
  readsAsValue_of_word (begins_name hs) (by simp [name, punct]) fun _ _ hc => readsPrimary_name hs hc

/-- A name and its suffixes. -/
theorem readsAsValue_of_name {n : Node} (h : ∀ v ∈ closers, ∃ c : Cursor,
    Looped NodeKind.fencedOperand suffixLoop (Node.identifier s).bare n c (.of [v])) :
    ∃ ws, ReadsAsValue n ws := by
  refine readsAsValue_of_primary (begins_name hs) fun v hv => ?_
  obtain ⟨c, hl⟩ := h v hv
  refine ⟨.of (name s :: c.words), c, _, _, by simp, ?_, readsPrimary_name hs (by simp), hl⟩
  rw [Cursor.words_of]
  exact castAhead_cons (by simp [name, punct]) _

end

/-! ### Calls -/

/-- A node whose children are nodes, without their places. -/
theorem bare_asNodes (kind : NodeKind) (ns : List Node) :
    (Node.build kind (ns.map .node)).bare =
      ⟨0, kind, .detached, [], Grammar.asNodes (ns.map Node.bare)⟩ := by
  rw [Node.bare_build]
  simp [Grammar.asNodes, Child.mapped, Function.comp_def]

section

variable {ns : List Node} {wss : List (List Word)}

theorem accepts_values (h : List.Forall₂ ReadsAsValue ns wss) (hne : ns ≠ []) {f g : Nat}
    (hf : (listed wss).length < f) (hg : (listed wss).length < g) :
    Accepts (Parse.separated (expression f) g) (listed wss) (· = some (punct ")"))
      (List.Forall₂ Alike ns) := by
  induction h generalizing g with
  | nil => exact absurd rfl hne
  | @cons n ws ns wss hn hns ih =>
    obtain ⟨g, rfl⟩ : ∃ g', g = g' + 1 := ⟨g - 1, by omega⟩
    cases hns with
    | nil =>
      refine accepts_separated_last (hn.accepts f hf _ (by simp [closers])) ?_
      rintro _ rfl
      simp [punct]
    | cons hm hms =>
      rw [listed_cons (by simp)] at hf hg ⊢
      simp only [List.length_append, List.length_cons] at hf hg
      exact accepts_separated_cons (hn.accepts f (by omega) (punct ",") (by simp [closers])) rfl
        (ih (by simp) (by omega) (by omega))

/-- Made arguments are read between the parentheses of a call. -/
theorem accepts_arguments (h : List.Forall₂ ReadsAsValue ns wss) (f : Nat)
    (N : Option Word → Prop) (hf : (listed wss).length < f) :
    Accepts (Parse.bracketed "(" ")" (expression f) f) (inParens (listed wss)) N
      (List.Forall₂ Alike ns) := by
  cases h with
  | nil => exact accepts_bracketed_nil
  | @cons n ws ns wss hn hns =>
    refine accepts_bracketed (accepts_values (.cons hn hns) (by simp) hf hf) rfl ?_
    obtain ⟨w, hw, hb⟩ := hn.begins
    have first : (listed (ws :: wss)).head? = some w := by
      cases wss with
      | nil => exact hw
      | cons ws' wss => rw [listed_cons (by simp), List.head?_append, hw]; rfl
    rw [first]
    simpa using hb.ne_punct (s := ")") (by decide)

end

/-- So is one kept argument. -/
theorem accepts_kept {n : Node} {ws : List Word} (h : ReadsInside n ws) (f : Nat)
    (N : Option Word → Prop) (hf : (listed [ws]).length < f) :
    Accepts (Parse.bracketed "(" ")" (expression f) f) (inParens (listed [ws])) N
      (List.Forall₂ Alike [n]) := by
  obtain ⟨f, rfl⟩ : ∃ f', f = f' + 1 := ⟨f - 1, by omega⟩
  refine accepts_bracketed (accepts_separated_last (h.accepts _ hf) ?_) rfl ?_
  · rintro _ rfl
    simp [punct]
  · -- no expression begins with the parenthesis
    intro closing
    have front := h.front
    match ws with
    | [] => cases front
    | w :: ws =>
      cases closing
      cases ws <;> simp [IsFront, Word.isName] at front

section

variable {s t : String} (hs : IsName s) (ht : IsName t)

include ht in
/-- A member of a global, before its suffixes. -/
theorem looped_member {n : Node} {c c' : Cursor} (hl : Looped NodeKind.fencedOperand suffixLoop
    (Node.memberAccess (.identifier s) t).bare n c c') :
    Looped NodeKind.fencedOperand suffixLoop (Node.identifier s).bare n (.of [punct "."]) c' := by
  rw [Node.memberAccess, Node.bare_build] at hl
  exact (round_memberAccess (t := (Token.ofName t).unplaced) rfl ht.2 ht.1).looped (by simp) hl

include hs ht

theorem reads_member : ∃ ws, ReadsAsValue (Node.memberAccess (.identifier s) t).bare ws :=
  readsAsValue_of_name hs fun _ hv =>
    ⟨_, looped_member ht (looped_suffixes_nil (noSuffix_of_mem_closers hv) _)⟩

theorem reads_methodCall {arguments : List Node} {wss : List (List Word)}
    (hp : List.Forall₂ Prints (arguments.map Node.bare) wss)
    (h : ∀ f N, (listed wss).length < f →
      Accepts (Parse.bracketed "(" ")" (expression f) f) (inParens (listed wss)) N
        (List.Forall₂ Alike (arguments.map Node.bare))) :
    ∃ ws, ReadsAsValue (Node.methodCall s t arguments).bare ws := by
  refine readsAsValue_of_name hs fun v hv => ⟨_, looped_member ht (c := .of [punct "("]) ?_⟩
  rw [Node.methodCall, Node.invocation, ← List.map_cons, bare_asNodes, List.map_cons]
  exact (round_invocation hp h).looped (by simp)
    (looped_suffixes_nil (noSuffix_of_mem_closers hv) _)

end

/-! ## Made statements -/

/-- The node is printed as an opening brace and `ws`, which is read as a block. -/
structure ReadsAsBody (n : Node) (ws : List Word) : Prop where
  prints : Prints n (punct Grammar.openBrace :: ws)
  accepts : ∀ f N, ws.length < f →
    Accepts (Grammar.block (statement f) f) (punct Grammar.openBrace :: ws) N (Alike n)

/-! ### Blocks -/

section

variable {ns : List Node} {wss : List (List Word)}

/-- No statement begins with `else`, and neither does the end of a block. -/
theorem head_flatten_ne (h : List.Forall₂ ReadsInBlock ns wss) :
    wss.flatten.head?.or (some (punct Grammar.closeBrace)) ≠ some (name "else") := by
  cases h with
  | nil => simp [punct, name]
  | cons hn _ =>
    obtain ⟨w, hw, -, begins⟩ := hn.begins
    rw [List.flatten_cons, List.head?_append, hw]
    rintro ⟨⟩
    cases begins

theorem accepts_steps (h : List.Forall₂ ReadsInBlock ns wss) {f g : Nat}
    (hf : wss.flatten.length < f) (hg : wss.flatten.length < g) :
    Accepts (Parse.itemsUntil (·.atPunct Grammar.closeBrace) (statement f) g) wss.flatten
      (fun o => (o == some (punct Grammar.closeBrace)) = true) (List.Forall₂ Alike ns) := by
  induction h generalizing g with
  | nil =>
    obtain ⟨g, rfl⟩ : ∃ g', g = g' + 1 := ⟨g - 1, by simp at hg; omega⟩
    exact accepts_itemsUntil_nil stop_block
  | @cons n ws ns wss hn hns ih =>
    obtain ⟨w, hw, inside, begins⟩ := hn.begins
    have going : (some w == some (punct Grammar.closeBrace)) = false := by
      rw [beq_eq_false_iff_ne]
      rintro ⟨⟩
      cases begins
    have : 0 < ws.length := List.length_pos_iff.2 (by rintro rfl; cases hw)
    rw [List.flatten_cons] at hf hg ⊢
    rw [List.length_append] at hf hg
    obtain ⟨g, rfl⟩ : ∃ g', g = g' + 1 := ⟨g - 1, by omega⟩
    refine accepts_itemsUntil_cons (S := (· == _)) stop_block hw going inside (hn.accepts f (by omega))
      (fun o ho => ?_) (ih (by omega) (by omega))
    rw [eq_of_beq ho]
    exact head_flatten_ne hns

theorem readsAsBody_of_steps (h : List.Forall₂ ReadsInBlock ns wss) :
    ReadsAsBody ⟨0, .block, .detached, [], Grammar.asNodes ns⟩
      (wss.flatten ++ [punct Grammar.closeBrace]) := by
  refine ⟨.block (h.imp fun _ _ hn => hn.prints), fun f N hf => ?_⟩
  rw [List.length_append] at hf
  exact accepts_block (accepts_steps h (by omega) (by omega))

end

/-! ### Declarations and effects -/

/-- A statement that a keyword opens. -/
theorem readsInBlock_of_keyword {n : Node} {word : String} {ws : List Word}
    (hw : ends (some (name word)) = false) (hp : Prints n (name word :: ws))
    (hq : ∀ f at0, ws.length < f →
      Accepts (Grammar.keywordStatement (expression f) (statement f) f at0 word) (name word :: ws)
        (· ≠ some (name "else")) (Alike n)) : ReadsInBlock n (name word :: ws) := by
  refine ⟨hp, ⟨_, rfl, by simp, hw⟩, fun f hf => ?_⟩
  obtain ⟨f, rfl, room⟩ := exists_fuel hf
  rw [List.length_cons] at room
  exact accepts_keyword fun at0 => hq f at0 (by omega)

section

variable {q : Node} {ws : List Word} (h : ReadsAsValue q.bare ws)

include h

theorem reads_declaration {s : String} (hs : IsName s) :
    ∃ ws, ReadsInBlock (Node.localDeclaration (.ofName s) (some q)).bare ws := by
  have shape : (Node.localDeclaration (.ofName s) (some q)).bare =
      ⟨0, .localDeclaration, .detached, [], Grammar.asNodes
        [⟨0, .declarator, .detached, [], [.token (Token.ofName s).unplaced, .node q.bare]⟩]⟩ := by
    simp [Node.localDeclaration, Node.declarator, Node.bare_build, Child.mapped, Grammar.asNodes]
  have printed : Prints ⟨0, .declarator, .detached, [], [.token (Token.ofName s).unplaced,
      .node q.bare]⟩ _ := .initialized rfl hs.1 h.prints
  rw [shape]
  refine ⟨_, readsInBlock_of_keyword rfl (.localDeclaration (by simp) (.cons printed .nil))
    fun f at0 hf => ?_⟩
  simp only [listed, List.length_append, List.length_cons] at hf
  obtain ⟨f, rfl⟩ : ∃ f', f = f' + 1 := ⟨f - 1, by omega⟩
  refine accepts_localDeclaration (accepts_declaration (accepts_separated_last
    (accepts_initialized rfl hs.2 (h.accepts _ (by omega) (punct ";") (by simp [closers]))) ?_)) rfl
  rintro _ rfl
  simp [punct]

theorem reads_effect : ∃ ws, ReadsInBlock (Node.expressionStatement q).bare ws := by
  obtain ⟨w, hw, hb⟩ := h.begins
  have single : ∀ o ∈ openers, isKeyword o := by decide
  have effect : IsEffect (.of [w]) := by
    refine ⟨by simpa using hb.ne_punct (by decide), by simpa using hb.ne_punct (by decide),
      fun word hword => .inl fun ho => ?_⟩
    exact hb.ne_keyword (single word ho) (by simpa using hword)
  have await : ws.head? ≠ some (name "await") := by
    rw [hw]
    simpa using hb.ne_keyword (s := "await") (by decide)
  rw [Node.expressionStatement, Node.bare_build]
  refine ⟨ws ++ [punct ";"], .expressionStatement h.prints, ⟨w, by simp [hw], hb.opens⟩,
    fun f hf => ?_⟩
  obtain ⟨f, rfl, room⟩ := exists_fuel hf
  rw [List.length_append, List.length_singleton] at room
  exact accepts_effect effect ⟨w, hw, .inr (by simp)⟩ (fun ha => absurd ha await)
    (h.accepts f (by omega) (punct ";") (by simp [closers])) rfl

theorem reads_result : ∃ ws, ReadsInBlock (Node.returnStatement (some q)).bare ws := by
  obtain ⟨w, hw, hb⟩ := h.begins
  rw [Node.returnStatement, Node.bare_build]
  refine ⟨_, readsInBlock_of_keyword rfl (.returning h.prints) fun f at0 hf => ?_⟩
  rw [List.length_append] at hf
  refine accepts_returning (h.accepts f (by omega) (punct ";") (by simp [closers])) rfl ?_
  rw [hw]
  simpa using hb.ne_punct (s := ";") (by decide)

end

/-! ### Closures and control flow -/

section

variable {steps : List Node} {ws : List Word} (h : ReadsAsBody (Node.block steps).bare ws)

include h

/-- A closure may stand between parentheses. -/
theorem readsInside_thunk : ReadsInside (Node.thunk (.block steps)).bare
    (punct "(" :: punct ")" :: punct "=>" :: punct Grammar.openBrace :: ws) := by
  have shape : (Node.thunk (.block steps)).bare =
      ⟨0, .lambda, .detached, [], Grammar.asNodes ([] ++ [(Node.block steps).bare])⟩ :=
    Node.bare_build _ _
  have body : (Node.block steps).bare.kind ≠ .parameter := by
    rw [Node.keeps_bare.kind]
    nofun
  have none : ∀ p ∈ ([] : List Node), p.kind = .parameter := by simp
  rw [shape]
  refine ⟨.lambda none body .nil h.prints, isFront_cons (by simp) _, fun f hf => ?_⟩
  simp only [List.length_cons] at hf
  obtain ⟨f, rfl⟩ : ∃ f', f = f' + 1 := ⟨f - 1, by omega⟩
  rw [expression]
  refine .get fun d rest hd _ => ?_
  rw [atLambda_eq, hd, if_pos (by rfl)]
  refine .start fun at0 => .eatPunct_hit ?_
  refine (lambdaNames_nil.accepts f (by simp [listed]; omega)).bind (fun ps hps => .expectPunct ?_)
    fun o _ => rfl
  exact accepts_lambdaBlock hps (h.accepts f _ (by omega))

theorem reads_closure : ∃ ws, ReadsAsValue (closureCall steps).bare ws := by
  have shape : (closureCall steps).bare = ⟨0, .invocation, .detached, [], Grammar.asNodes
      [⟨0, .parenthesized, .detached, [], [.node (Node.thunk (.block steps)).bare]⟩]⟩ := by
    simp [closureCall, Node.invocation, Node.parenthesized, Node.bare_build, Child.mapped,
      Grammar.asNodes]
  have inside := readsInside_thunk h
  have made (c' : Cursor) : ReadsPrimary (.of [punct "(", punct "("])
      ⟨0, .parenthesized, .detached, [], [.node (Node.thunk (.block steps)).bare]⟩ c' _ :=
    readsPrimary_parens (by simp) inside.prints inside.front
      (fun _ rest => by simp [castAhead, inParens]) inside.accepts
  rw [shape]
  refine readsAsValue_of_primary (.inl rfl) fun v hv => ⟨_, .of [punct "("], _, _, by simp,
    by rw [Cursor.words_of]; rfl, made _, ?_⟩
  exact (round_invocation .nil fun f N _ => accepts_bracketed_nil).looped (by simp)
    (looped_suffixes_nil (noSuffix_of_mem_closers hv) _)

/-- A body on its own and in front of `else`. -/
theorem accepts_body {f : Nat} {N : Option Word → Prop} (hf : ws.length + 1 < f) :
    Accepts (statement f) (punct Grammar.openBrace :: ws) N (Alike (Node.block steps).bare) := by
  obtain ⟨f, rfl⟩ : ∃ f', f = f' + 1 := ⟨f - 1, by omega⟩
  exact accepts_statement_block (h.accepts f N (by omega))

variable {m : Node} {us : List Word} (hm : ReadsInside m.bare us)

include hm

theorem reads_branch (hk : m.kind.isExpression) :
    ∃ ws, ReadsInBlock (Node.ifStatement m (.block steps) none).bare ws := by
  have shape : (Node.ifStatement m (.block steps) none).bare = ⟨0, .ifStatement, .detached, [],
      Grammar.asNodes [m.bare, (Node.block steps).bare]⟩ :=
    bare_asNodes .ifStatement [m, .block steps]
  rw [shape]
  refine ⟨_, readsInBlock_of_keyword rfl (.ifStatement ?_ ?_ hm.prints h.prints) fun f at0 hf => ?_⟩
  · rwa [Node.keeps_bare.kind]
  · rw [Node.keeps_bare.kind]
    rfl
  · simp only [List.length_cons, List.length_append] at hf
    exact accepts_ifStatement (accepts_parenthesizedCondition (hm.accepts f (by omega)))
      (accepts_body h (by omega)) fun _ ho => ho

theorem reads_branches (hk : m.kind.isExpression) {others : List Node} {vs : List Word}
    (h' : ReadsAsBody (Node.block others).bare vs) :
    ∃ ws, ReadsInBlock (Node.ifStatement m (.block steps) (some (.block others))).bare ws := by
  have shape : (Node.ifStatement m (.block steps) (some (.block others))).bare =
      ⟨0, .ifStatement, .detached, [], Grammar.asNodes [m.bare, (Node.block steps).bare,
        ⟨0, .elseClause, .detached, [], [.node (Node.block others).bare]⟩]⟩ := by
    simp [Node.ifStatement, Node.bare_build, Child.mapped, Grammar.asNodes]
  rw [shape]
  refine ⟨_, readsInBlock_of_keyword rfl (.ifElse ?_ ?_ hm.prints h.prints h'.prints)
    fun f at0 hf => ?_⟩
  · rwa [Node.keeps_bare.kind]
  · rw [Node.keeps_bare.kind]
    rfl
  · simp only [List.length_cons, List.length_append] at hf
    exact accepts_ifElse (accepts_parenthesizedCondition (hm.accepts f (by omega)))
      (accepts_body h (N := fun _ => True) (by omega)) trivial (accepts_body h' (by omega))

theorem reads_loop {t : Token} (ht : t.kind = .identifier) (hw : IsName t.text) :
    ∃ ws, ReadsInBlock (Node.forEachStatement false t m (.block steps)).bare ws := by
  have shape : (Node.forEachStatement false t m (.block steps)).bare = ⟨0, .forEachStatement,
      .detached, [], [] ++ [.token t.unplaced, .node m.bare, .node (Node.block steps).bare]⟩ :=
    Node.bare_build _ _
  rw [shape]
  refine ⟨_, readsInBlock_of_keyword rfl
    (.forEachStatement (t := t.unplaced) ht hw.1 hm.prints h.prints) fun f at0 hf => ?_⟩
  simp only [List.length_cons, List.length_append] at hf
  exact accepts_forEachStatement (t := t.unplaced) ht hw.2 (hm.accepts f (by omega)) rfl (accepts_body h (by omega)) .nil

end

/-! ## Generators -/

/-- A list of what has a list of words has a list of such lists. -/
theorem exists_forall₂ {α β : Type} {R : α → β → Prop} {as : List α} (h : ∀ a ∈ as, ∃ b, R a b) :
    ∃ bs, List.Forall₂ R as bs := by
  induction as with
  | nil => exact ⟨[], .nil⟩
  | cons a as ih =>
    rw [List.forall_mem_cons] at h
    obtain ⟨b, hb⟩ := h.1
    obtain ⟨bs, hbs⟩ := ih h.2
    exact ⟨b :: bs, .cons hb hbs⟩

/-- How code of generators is read back. -/
def ReadsAs : Role → Node → List Word → Prop
  | .value => ReadsAsValue
  | .step => ReadsInBlock

theorem exists_body {steps : List Node} (h : ∀ q ∈ steps, ∃ ws, ReadsInBlock q.bare ws) :
    ∃ ws, ReadsAsBody (Node.block steps).bare ws := by
  obtain ⟨wss, hwss⟩ := exists_forall₂ h
  rw [Node.block, bare_asNodes]
  exact ⟨_, readsAsBody_of_steps (List.forall₂_map_left_iff.2 hwss)⟩

/-- Whatever the quoter makes is read back from what it prints, if what it keeps may be taken out of
its text and the words that it uses are names. -/
theorem Made.reads {kept : Node → Prop} {word : String → Prop}
    (hkept : ∀ m, kept m → Portable m.bare) (hword : ∀ s, word s → IsName s) {r : Role} {n : Node}
    (h : Made kept word r n) : ∃ ws, ReadsAs r n.bare ws := by
  have expression {m : Node} (h : kept m) (hk : m.kind.isExpression) : ∃ ws, ReadsInside m.bare ws :=
    (hkept m h).expression (by rwa [Node.keeps_bare.kind])
  induction h with
  | value hs ht h hk =>
    obtain ⟨ws, hn⟩ := expression h hk
    exact reads_methodCall (hword _ hs) (hword _ ht) (.cons hn.prints .nil) (accepts_kept hn)
  | text s => exact reads_text s
  | name h => exact reads_name (hword _ h)
  | member hs ht => exact reads_member (hword _ hs) (hword _ ht)
  | call hs ht _ ih =>
    obtain ⟨wss, hwss⟩ := exists_forall₂ ih
    have read : List.Forall₂ ReadsAsValue _ wss := List.forall₂_map_left_iff.2 hwss
    exact reads_methodCall (hword _ hs) (hword _ ht) (read.imp fun _ _ hn => hn.prints)
      (accepts_arguments read)
  | closure _ ih =>
    obtain ⟨ws, hb⟩ := exists_body ih
    exact reads_closure hb
  | @step n h hk => exact (hkept n h).statement (by rwa [Node.keeps_bare.kind])
  | declare hs _ ih =>
    obtain ⟨ws, hq⟩ := ih
    exact reads_declaration hq (hword _ hs)
  | effect _ ih =>
    obtain ⟨ws, hq⟩ := ih
    exact reads_effect hq
  | result _ ih =>
    obtain ⟨ws, hq⟩ := ih
    exact reads_result hq
  | branch hc hk _ ih =>
    obtain ⟨us, hm⟩ := expression hc hk
    obtain ⟨ws, hb⟩ := exists_body ih
    exact reads_branch hb hm hk
  | branches hc hk _ _ ih ih' =>
    obtain ⟨us, hm⟩ := expression hc hk
    obtain ⟨ws, hb⟩ := exists_body ih
    obtain ⟨vs, hb'⟩ := exists_body ih'
    exact reads_branches hb hm hk hb'
  | loop hn hw hs hk _ ih =>
    obtain ⟨us, hm⟩ := expression hs hk
    obtain ⟨ws, hb⟩ := exists_body ih
    exact reads_loop hb hm hn (hword _ hw)

/-! ### The whole program -/

section

variable {s : String} {ps steps : List Node} {wss : List (List Word)} {ws : List Word} (hs : IsName s)
  (hp : ReadsAsParameters (ps.map Node.bare) wss) (hb : ReadsAsBody (Node.block steps).bare ws)

include hs hp hb

/-- A generator is read back from the words that it is printed as. -/
theorem accepts_program : ∃ us, Prints (Node.template s ps (.block steps)) (name "template" :: us) ∧
    ∀ f N, us.length < f → Accepts (Grammar.template (statement f) f) (name "template" :: us) N
      (Alike (Node.template s ps (.block steps)).bare) := by
  have shape : (Node.template s ps (.block steps)).bare = ⟨0, .template, .detached, [],
      .token (Token.ofName s).unplaced ::
        Grammar.asNodes (ps.map Node.bare ++ [(Node.block steps).bare])⟩ := by
    rw [Node.template, Node.bare_build]
    simp [Grammar.asNodes, Child.mapped, Function.comp_def]
  have layouts (style : Style) (n : Node) (hn : n.kind = .template) :
      layout style n = Layout.routine Fixed.template.text n := by
    simp only [layout, hn]
    rfl
  obtain ⟨kinds, printed⟩ := printsAs_each hp.prints
  have block : (Node.block steps).bare.kind = .block := Node.keeps_bare.kind _
  refine ⟨name s :: punct "(" :: (listed wss ++ punct ")" :: punct Grammar.openBrace :: ws), ?_,
    fun f N hf => ?_⟩
  · rw [← prints_bare, shape]
    exact .routine (f := .template) (t := (Token.ofName s).unplaced) layouts rfl hs.1 kinds block
      printed hb.prints
  · simp only [List.length_cons, List.length_append] at hf
    rw [shape]
    exact accepts_template (t := (Token.ofName s).unplaced) rfl hs.2 (hp.accepts f _ (by omega))
      (hb.accepts f N (by omega))

/-- The text of a generator holds one template, which is the generator again. -/
theorem parseUnit_program (style : Style) : ∃ text unit p,
    (Node.template s ps (.block steps)).render style = .ok text ∧ parseUnit text = .ok unit ∧
      unit.nodes = [p] ∧ Alike (Node.template s ps (.block steps)).bare p := by
  obtain ⟨us, printed, accepts⟩ := accepts_program hs hp hb
  obtain ⟨text, ht, hspells⟩ := printed style 0
  have words : words? text.toList = some (name "template" :: us) := by simpa using hspells [] rfl
  have accepted (f : Nat) (hf : us.length < f) : Accepts (templates (f + 1) (f + 1))
      (name "template" :: us) (· = none)
      (List.Forall₂ Alike [(Node.template s ps (.block steps)).bare]) := by
    rw [← List.append_nil (name "template" :: us)]
    obtain ⟨g, rfl⟩ : ∃ g, f = g + 1 := ⟨f - 1, by omega⟩
    exact accepts_templates_cons (accepts _ _ (by omega)) accepts_templates_nil
  obtain ⟨ns, hns, halike⟩ := parseWith_of_accepts (fun fuel => templates fuel fuel) words
    (accepted (2 * (name "template" :: us).length + 3) (by simp; omega))
  cases halike with
  | @cons _ p _ _ hp rest =>
    cases rest
    refine ⟨text, ⟨0, .compilationUnit, ⟨0, text.utf8ByteSize⟩, [], Grammar.asNodes [p]⟩, p,
      (renderAt_eq style 0 _).trans ht, ?_, rfl, hp⟩
    rw [parseUnit, hns]
    rfl

end

end Stencil.Quotation
