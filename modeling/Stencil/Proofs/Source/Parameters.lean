import Stencil.Proofs.Source.Alike
import Stencil.Proofs.Source.Lookahead

/-!
# Types and parameters read back

The text of a type is put together from the words it was read from, so it spells them again. The
names of a lambda are printed in parentheses, and a comma after the last of them is dropped.

Results:

* `couples_typeText`, `couples_parameter`, `couples_parameterList`;
* `after_lambdaNames` – the names before an arrow are a list that `lambdaAhead` recognizes.
-/
namespace Stencil.Source

open Grammar

/-! ## Spelling a type -/

theorem Spells.append {cs cs' : List Char} {ws ws' : List Word} (h : Spells cs ws)
    (h' : Spells cs' ws') (hb : ∀ rest, breaks rest = true → breaks (cs' ++ rest) = true) :
    Spells (cs ++ cs') (ws ++ ws') := by
  intro rest hr
  rw [List.append_assoc, h _ (hb rest hr), h' rest hr]
  cases words? rest <;> simp

theorem Closed.append {cs cs' : List Char} {ws ws' : List Word} (h : Closed cs ws)
    (h' : Spells cs' ws') : Spells (cs ++ cs') (ws ++ ws') := by
  intro rest hr
  rw [List.append_assoc, h _, h' rest hr]
  cases words? rest <;> simp

theorem head?_ne_of_breaks {rest : List Char} (h : breaks rest = true) : rest.head? ≠ some '=' := by
  cases rest with
  | nil => nofun
  | cons c rest =>
    rintro ⟨⟩
    revert h
    simp [breaks]
    decide

/-- An angle bracket is a word of its own unless it begins a comparison. -/
theorem words?_angle {s : String} (hs : s ∈ ["<", ">"]) {rest : List Char}
    (h : rest.head? ≠ some '=') :
    words? (s.toList ++ rest) = (words? rest).map (punct s :: ·) := by
  simp only [List.mem_cons, List.not_mem_nil, or_false] at hs
  have alone : ∀ c ∈ ['<', '>'], punctuation.find? (·.isPrefixOf (c :: rest)) = some [c] := by
    intro c hc
    simp only [List.mem_cons, List.not_mem_nil, or_false] at hc
    cases rest with
    | nil => rcases hc with rfl | rfl <;> simp [punctuation]
    | cons d rest =>
      have hd : '=' ≠ d := fun he => h (by rw [he]; rfl)
      rcases hc with rfl | rfl <;> simp [punctuation, hd]
  rcases hs with rfl | rfl
  · exact words?_mark '<' [] rfl (by decide) (alone '<' (by simp))
  · exact words?_mark '>' [] rfl (by decide) (alone '>' (by simp))

theorem spells_listed {texts : List String} {wss : List (List Word)}
    (h : List.Forall₂ (fun s ws => Spells s.toList ws) texts wss) :
    Spells (String.intercalate ", " texts).toList (listed wss) := by
  induction h with
  | nil => exact Closed.spells fun rest => by simp [listed]
  | @cons s ws texts wss hs hss ih =>
    cases hss with
    | nil => simpa [listed] using hs
    | @cons s' ws' texts wss hs' hss =>
      rw [String.intercalate_cons_cons, listed_cons (by simp), String.append_assoc,
        String.toList_append, String.toList_append]
      refine hs.append ?_ fun rest _ => rfl
      exact (closed_of_isFixed (isFixed_text .comma)).append ih

/-- A text whose first word is a name does not begin with an equals sign. -/
theorem head?_ne_of_spells {cs : List Char} {head : String} {ws : List Word}
    (h : Spells cs (name head :: ws)) (rest : List Char) : (cs ++ rest).head? ≠ some '=' := by
  have alone : words? cs = some (name head :: ws) := by simpa using h [] rfl
  cases cs with
  | nil => simp at alone
  | cons c cs =>
    rintro ⟨⟩
    cases (lengthens_of_words? alone rfl).1

/-- The text of a type spells its name, alone or with arguments. -/
def SpellsType (s : String) (ws : List Word) : Prop :=
  Spells s.toList ws ∧
    ∃ head more, ws = name head :: more ∧ ∀ w, more.head? = some w → w = punct "<"

theorem listed_head {wss : List (List Word)} {texts : List String} (hne : texts ≠ [])
    (h : List.Forall₂ SpellsType texts wss) : ∃ head more, listed wss = name head :: more := by
  cases h with
  | nil => contradiction
  | cons hs hss =>
    obtain ⟨_, head, more, rfl, _⟩ := hs
    cases hss with
    | nil => exact ⟨head, more, rfl⟩
    | cons _ _ => exact ⟨head, _, rfl⟩

/-- A type with arguments spells its head, its arguments and their brackets. -/
theorem spellsType_generic {head : String} {texts : List String} {wss : List (List Word)}
    (hg : Genuine (name head)) (hne : texts ≠ []) (h : List.Forall₂ SpellsType texts wss) :
    SpellsType (head ++ "<" ++ String.intercalate ", " texts ++ ">")
      (name head :: punct "<" :: (listed wss ++ [punct ">"])) := by
  refine ⟨?_, head, _, rfl, by simp⟩
  have inside := spells_listed (h.imp fun _ _ hs => hs.1)
  have closing : Spells ">".toList [punct ">"] := fun rest hr =>
    words?_angle (by simp) (head?_ne_of_breaks hr)
  have arguments := inside.append closing fun _ _ => rfl
  have opened : Spells ("<".toList ++ ((String.intercalate ", " texts).toList ++ ">".toList))
      (punct "<" :: (listed wss ++ [punct ">"])) := by
    intro rest hr
    rw [List.append_assoc, words?_angle (by simp), arguments rest hr]
    · cases words? rest <;> simp
    · obtain ⟨first, more, he⟩ := listed_head hne h
      rw [List.append_assoc]
      exact head?_ne_of_spells (he ▸ inside) _
  have whole := (spells_text hg).append opened fun _ _ => rfl
  simpa [String.toList_append, List.append_assoc] using whole

/-! ## Reading a type -/

theorem accepts_typeText_simple {f : Nat} {head : String} {N : Option Word → Prop}
    (hN : ∀ o, N o → o ≠ some (punct "<")) (hf : 0 < f) :
    Accepts (typeText f) [name head] N (head = ·) := by
  obtain ⟨f, rfl⟩ : ∃ g, f = g + 1 := ⟨f - 1, by omega⟩
  refine .get fun d rest hd _ => ?_
  have hk : d.peek.kind = .ident := congrArg Prod.fst (Cursor.peek_of_words hd)
  simp only [hk, bne_self_eq_false, Bool.false_eq_true, if_false]
  refine .bump fun l hl => .eatPunct_miss (fun o ho => ?_) (.pure ?_)
  · simpa using hN o ho
  · exact (congrArg Prod.snd hl).symm

theorem couples_typeText (fuel : Nat) :
    Couples (typeText fuel) typeText Stops SpellsType Eq := by
  induction fuel with
  | zero => exact fun _ => .tooDeep
  | succ fuel ih =>
    intro c hc
    refine After.get ?_ hc
    split
    · exact .bind (.fail _)
    · next hk =>
      have hk : c.peek.kind = .ident := by simpa using hk
      obtain ⟨ws, hw⟩ := Cursor.words_of_peek (c := c) (by simp [hk])
      have hw : c.words = name c.peek.text :: ws := by
        rw [hw]
        simp [Lexeme.word, hk]
      have hg : Genuine (name c.peek.text) := hc _ (by simp [hw])
      refine .bump hw fun l c1 hl hc1 => ?_
      have hl : l.text = c.peek.text := congrArg Prod.snd hl
      rw [hl]
      refine .eatPunct (fun c2 hc2 => ?_) fun hmiss => ?_
      · refine .bind ((couples_separated ih fuel c2).mono ?_)
        rintro texts c3 ⟨wss, hne, hs, _, hq⟩
        refine .expectPunct fun c4 hc4 => .pure ?_
        refine ⟨_, spellsType_generic hg hne hs, .of_words hw, fun f hf => ?_⟩
        obtain ⟨f, rfl⟩ : ∃ g, f = g + 1 := ⟨f - 1, by omega⟩
        simp only [List.length_cons, List.length_append, List.length_nil] at hf
        refine .get fun d rest hd _ => ?_
        have hk : d.peek.kind = .ident := congrArg Prod.fst (Cursor.peek_of_words hd)
        simp only [hk, bne_self_eq_false, Bool.false_eq_true, if_false]
        refine .bump fun l' hl' => .eatPunct_hit ?_
        refine (hq f f (by omega) (by omega)).bind (fun texts' ht => .expectPunct (.pure ?_))
          fun o _ => .of_words hc4 (by simp [punct]) o
        rw [List.forall₂_eq_eq_eq] at ht
        have hl' : l'.text = c.peek.text := congrArg Prod.snd hl'
        rw [hl', ht]
      · refine .pure ⟨[name c.peek.text], ⟨spells_text hg, _, _, rfl, by simp⟩, .of_words hw,
          fun f hf => ?_⟩
        refine accepts_typeText_simple (fun o ho => ?_) (by omega)
        exact ho.ne (by simp [punct]) hmiss

/-- The node of a type, put together from its text. -/
theorem couples_typeName (fuel : Nat) :
    Couples (typeName fuel) typeName Stops
      (fun n ws => n.kind = .typeName ∧ SpellsType n.tokenText ws) Alike := by
  intro c
  refine .start (.bind ((couples_typeText fuel c).mono fun s c1 ⟨ws, hs, hl, hq⟩ => .get ?_))
  refine .finish ⟨ws, ⟨rfl, hs⟩, hl, fun f hf => ?_⟩
  refine .start fun at0 => ?_
  rw [← List.append_nil ws]
  refine (hq f hf).bind (fun s' hs' => .get fun d rest hd _ => .finish fun span => ?_) fun o ho => ho
  exact alike_node rfl (.cons (.token rfl hs'.symm) .nil)

/-- A type that is a name alone, as it is in a cast. -/
theorem after_typeName_simple {c : Cursor} {head : String} {w : Word} {ws : List Word} (fuel : Nat)
    (hc : c.words = name head :: w :: ws) (hw : w ≠ punct "<") :
    After (typeName fuel) c fun n c' => Prints n [name head] ∧ c'.words = w :: ws ∧
      ∀ f N, 0 < f → (∀ o, N o → o ≠ some (punct "<")) →
        Accepts (typeName f) [name head] N (Alike n) := by
  intro hg
  have text : After (typeText fuel) c fun s c' => s = head ∧ c'.words = w :: ws := by
    cases fuel with
    | zero => exact .tooDeep
    | succ fuel =>
      refine .get ?_
      have hk : c.peek.kind = .ident := congrArg Prod.fst (Cursor.peek_of_words hc)
      simp only [hk, bne_self_eq_false, Bool.false_eq_true, if_false]
      refine .bump hc fun l c1 hl hc1 => .eatPunct (fun c2 hc2 => ?_) fun _ => .pure ?_
      · rw [hc1] at hc2
        exact absurd (List.cons.inj hc2).1 hw
      · exact ⟨congrArg Prod.snd hl, hc1⟩
  refine After.start (.bind (text.mono fun s c1 ⟨hs, hc1⟩ => .get (.finish ?_))) hg
  subst hs
  refine ⟨.typeName (spells_text (hg _ (by simp [hc]))), hc1, fun f N hf hN => .start fun at0 => ?_⟩
  rw [← List.append_nil [name s]]
  refine (accepts_typeText_simple hN hf).bind (fun s' hs' => .get fun d rest hd _ =>
    .finish fun span => ?_) fun o ho => ho
  exact alike_node rfl (.cons (.token rfl hs'.symm) .nil)

/-! ## Parameters -/

/-- Nodes of certain kinds and the words they print. -/
def PrintsAs (p : NodeKind → Prop) (n : Node) (ws : List Word) : Prop := p n.kind ∧ Prints n ws

theorem printsAs_each {p : NodeKind → Prop} {ns : List Node} {wss : List (List Word)}
    (h : List.Forall₂ (PrintsAs p) ns wss) :
    (∀ n ∈ ns, p n.kind) ∧ List.Forall₂ Prints ns wss :=
  (List.forall₂_and_left ns wss).1 h

/-- A type is told by the word after its head: a name or an opening bracket. -/
def isTyped (o : Option Word) : Bool := o.any fun w => w.isName || w == punct "<"

theorem isTyped_ahead (c : Cursor) :
    ((c.ahead 1).isName || (c.ahead 1).isPunct "<") = isTyped c.words[1]? := by
  rw [Bool.eq_iff_iff, Bool.or_eq_true, Cursor.isPunct_ahead, Cursor.isName_ahead]
  cases c.words[1]? <;> simp [isTyped]

theorem couples_parameter (fuel : Nat) :
    Couples (parameter fuel) parameter Stops (PrintsAs (· = .parameter)) Alike := by
  intro c
  refine .get ?_
  rw [isTyped_ahead]
  split
  · next typed =>
    refine .bind ((couples_typeName fuel c).mono fun type c1 ⟨ws, ⟨hkind, hs⟩, hl, hq⟩ => ?_)
    refine .identifier fun t c2 hc2 hk hw hg => .finish ?_
    refine ⟨ws ++ [name t.text], ⟨rfl, .typedParameter hk hg hkind hs.1⟩, hl.append _,
      fun f hf => .get fun d rest hd _ => ?_⟩
    have again : isTyped d.words[1]? = true := by
      obtain ⟨_, head, more, rfl, hmore⟩ := hs
      rw [hd]
      cases more with
      | nil => simp [isTyped, hw]
      | cons w more => simp [isTyped, hmore w rfl]
    rw [isTyped_ahead, if_pos again]
    rw [List.length_append] at hf
    refine (hq f (by omega)).bind (fun type' ht => ?_) fun o _ => .of_words hc2 (by simp [punct]) o
    refine .identifier hw fun t' hk' ht' => .finish fun span => ?_
    exact alike_node rfl (.cons (.node ht) (.cons (.token (hk'.trans hk.symm) ht') .nil))
  · next bare =>
    refine .identifier fun t c1 hc1 hk hw hg => .finish ?_
    refine ⟨[name t.text], ⟨rfl, .parameter hk hg⟩, .of_words hc1,
      fun f hf => .get fun d rest hd ho => ?_⟩
    have again : isTyped d.words[1]? = false := by
      rw [hc1] at bare
      rw [hd]
      rcases ho.1 with ho | ho
      · simpa [ho, ← List.head?_eq_getElem?] using bare
      · simp [← List.head?_eq_getElem?, ho, isTyped, Word.isName]
    rw [isTyped_ahead, again]
    refine .identifier hw fun t' hk' ht' => .finish fun span => ?_
    exact alike_node rfl (.cons (.token (hk'.trans hk.symm) ht') .nil)

theorem couples_parameterList (fuel : Nat) (c : Cursor) :
    After (parameterList fuel) c fun ps _ =>
      ∃ wss, List.Forall₂ (PrintsAs (· = .parameter)) ps wss ∧ c.words.head? = some (punct "(") ∧
        ∀ f N, (listed wss).length < f →
          Accepts (parameterList f) (inParens (listed wss)) N (List.Forall₂ Alike ps) :=
  couples_bracketed (couples_parameter fuel) (by decide) (by decide) fuel c

/-! ## The names of a lambda -/

theorem namesAhead_listed {ws : List Word} (h : ∀ w ∈ ws, w.isName = true ∨ w = punct ",")
    (rest : List Word) : namesAhead (ws ++ punct ")" :: punct "=>" :: rest) = true := by
  have skipped : (ws ++ punct ")" :: punct "=>" :: rest).dropWhile
      (fun w => w.isName || w == punct ",") = punct ")" :: punct "=>" :: rest := by
    rw [List.dropWhile_append_of_pos (by simpa using h)]
    exact List.dropWhile_cons_of_neg (by simp [Word.isName, punct])
  simp [namesAhead, skipped]

theorem accepts_lambdaNames_nil {f : Nat} (hf : 0 < f) :
    Accepts (lambdaNames f) [] (· = some (punct ")")) (List.Forall₂ Alike []) := by
  obtain ⟨f, rfl⟩ : ∃ g, f = g + 1 := ⟨f - 1, by omega⟩
  refine .get fun d rest hd ho => ?_
  rw [if_pos (Cursor.atPunct_iff.2 (by rw [hd]; exact ho))]
  exact .pure .nil

/-- One more name of a lambda, which is the last one or has a comma after it. -/
theorem accepts_lambdaNames_cons {p : Node} {ps : List Node} {s : String} {ws : List Word} {f : Nat}
    (hs : isKeyword s = false)
    (hp : ∀ (t : Token) span, t.kind = .identifier → t.text = s →
      Alike p ⟨0, .parameter, span, [], [.token t]⟩)
    (h : ws = [] ∧ ps = [] ∨ ∃ ws', ws = punct "," :: ws' ∧
      Accepts (lambdaNames f) ws' (· = some (punct ")")) (List.Forall₂ Alike ps)) :
    Accepts (lambdaNames (f + 1)) (name s :: ws) (· = some (punct ")"))
      (List.Forall₂ Alike (p :: ps)) := by
  refine .get fun d rest hd _ => ?_
  rw [if_neg (by rw [Cursor.atPunct_iff, hd]; simp [punct])]
  refine .identifier hs fun t hk ht => .finish_bind fun span => ?_
  have first := hp t span hk ht
  rcases h with ⟨rfl, rfl⟩ | ⟨ws', rfl, hq⟩
  · refine .eatPunct_miss (fun o ho => by simp [ho, punct]) (.pure ?_)
    exact .cons first .nil
  · refine .eatPunct_hit ?_
    rw [← List.append_nil ws']
    exact hq.bind (fun ps' hps => .pure (.cons first hps)) fun o ho => ho

/-- The parameters of a lambda are printed as names with commas between them. -/
structure LambdaNames (ps : List Node) (wss : List (List Word)) : Prop where
  prints : List.Forall₂ (PrintsAs (· = .parameter)) ps wss
  names : ∀ w ∈ listed wss, w.isName = true ∨ w = punct ","
  accepts : ∀ f, (listed wss).length < f →
    Accepts (lambdaNames f) (listed wss) (· = some (punct ")")) (List.Forall₂ Alike ps)

theorem lambdaNames_nil : LambdaNames [] [] where
  prints := .nil
  names := by simp [listed]
  accepts := fun _ hf => accepts_lambdaNames_nil (by simpa [listed] using hf)

theorem lambdaNames_cons {t : Token} {id : Nat} {span : Span} {ps : List Node}
    {wss : List (List Word)} (hk : t.kind = .identifier) (hw : isKeyword t.text = false)
    (hg : Genuine (name t.text)) (h : LambdaNames ps wss) :
    LambdaNames (⟨id, .parameter, span, [], [.token t]⟩ :: ps) ([name t.text] :: wss) := by
  have alike (t' : Token) (span' : Span) (hk' : t'.kind = .identifier) (ht' : t'.text = t.text) :
      Alike ⟨id, .parameter, span, [], [.token t]⟩ ⟨0, .parameter, span', [], [.token t']⟩ :=
    alike_node rfl (.cons (.token (hk'.trans hk.symm) ht') .nil)
  refine ⟨.cons ⟨rfl, .parameter hk hg⟩ h.prints, ?_, fun f hf => ?_⟩
  · intro w hmem
    cases wss with
    | nil =>
      cases List.mem_singleton.1 hmem
      exact .inl (by simp [hw])
    | cons ws wss =>
      rw [listed_cons (by simp)] at hmem
      simp only [List.singleton_append, List.mem_cons] at hmem
      rcases hmem with rfl | rfl | hmem
      · exact .inl (by simp [hw])
      · exact .inr rfl
      · exact h.names w hmem
  · obtain ⟨f, rfl⟩ : ∃ g, f = g + 1 := ⟨f - 1, by omega⟩
    cases wss with
    | nil =>
      cases h.prints
      exact accepts_lambdaNames_cons hw alike (.inl ⟨rfl, rfl⟩)
    | cons ws wss =>
      rw [listed_cons (by simp)] at hf ⊢
      simp only [List.singleton_append, List.length_cons] at hf
      exact accepts_lambdaNames_cons hw alike (.inr ⟨_, rfl, h.accepts f (by omega)⟩)

theorem after_lambdaNames (fuel : Nat) (c : Cursor) :
    After (lambdaNames fuel) c fun ps _ => ∃ wss, LambdaNames ps wss := by
  induction fuel generalizing c with
  | zero => exact .tooDeep
  | succ fuel ih =>
    refine .get ?_
    split
    · exact .pure ⟨[], lambdaNames_nil⟩
    · refine .identifier fun t c1 hc1 hk hw hg => .finish_bind ?_
      refine .eatPunct (fun c2 _ => ?_) fun _ => ?_
      · exact .bind ((ih c2).mono fun ps c3 ⟨wss, h⟩ => .pure ⟨_, lambdaNames_cons hk hw hg h⟩)
      · exact .pure ⟨_, lambdaNames_cons hk hw hg lambdaNames_nil⟩

end Stencil.Source
