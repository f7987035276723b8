import Stencil.Proofs.Source.Primaries

/-!
# Expressions read back

Level by level, from the operands to assignments, what was read is printed as words that are read
again. An operand that the layout puts in parentheses is read as a primary expression; the other
operands are read where they were.

Results:

* `Looped` – the law of the two productions that lean left, `suffixes` and `binaryRest`;
* `after_unary`, `after_binary`, `after_conditional` – the levels;
* `exprCouples_expression` – the law of expressions, from the laws of their parts.
-/
namespace Stencil.Source

open Grammar

/-! ## Operands -/

theorem Word.ne_of_severs {w : Word} (h : w.severs = true) : w ≠ punct "=>" := by
  rintro rfl
  simp at h

theorem Leads.fenced {c : Cursor} {ws : List Word} (h : Leads c ws) (fence : Bool) :
    Leads c (fencedWords fence ws) := by
  cases fence with
  | false => exact h
  | true => exact ⟨_, rfl, .inl rfl⟩

theorem Firm.fenced {ws : List Word} (h : Firm ws) (hf : IsFront ws = true) (fence : Bool) :
    Firm (fencedWords fence ws) := by
  cases fence with
  | false => exact h
  | true => exact firm_inParens hf

theorem isFront_fenced {ws : List Word} (h : IsFront ws = true) (fence : Bool) :
    IsFront (fencedWords fence ws) = true := by
  cases fence with
  | false => exact h
  | true => exact isFront_cons (by simp) _

/-- An operand, in parentheses if `fence` says so, and what goes on after it. -/
theorem Tight.extend {c c₁ c' : Cursor} {m n : Node} {w : Word} {ws tail : List Word}
    (h : Tight c m c₁ ws) (fence : Bool) (hp : Prints n (fencedWords fence ws ++ w :: tail))
    (hk : n.kind.isExpression = true) (hw : w.severs = true) :
    Tight c n c' (fencedWords fence ws ++ w :: tail) := by
  have leads := h.leads.fenced fence
  refine ⟨⟨hp, hk, isFront_append (isFront_fenced h.front fence) hw tail, leads.append _,
    (h.awaits.fenced fence).append leads.ne_nil _, fun x hx => ?_⟩,
    (h.firm.fenced h.front fence).append (Word.ne_of_severs hw) tail⟩
  have one := congrArg List.length hx
  have := leads.length_pos
  simp only [List.length_append, List.length_cons, List.length_nil] at one
  omega

/-! ## Productions that lean left

`suffixes` and `binaryRest` go round with the expression so far. In `loop f at1 base g` the loop
has `base` to start with, `f` is the fuel of its parts and `g` bounds the rounds; `p` tells which
expressions are put in parentheses in front of one more round. -/

section

variable (p : NodeKind → Bool) (loop : Nat → Nat → Node → Nat → Parse Node)

/-- Before the words after `c` the loop ends. -/
def Rests (c : Cursor) : Prop :=
  ∀ f at1 n g, 0 < g → Accepts (loop f at1 n g) [] (Stops c) (· = n)

/-- `n` is made of `base` and adds the words `w :: ws` to it. -/
structure Adds (base n : Node) (w : Word) (ws : List Word) : Prop where
  severs : w.severs = true
  kind : n.kind.isExpression = true
  bare : p n.kind = false
  prints : ∀ us, Prints base us → Prints n (fencedWords (p base.kind) us ++ w :: ws)

/-- One round of the loop. -/
structure Round (base n : Node) (c' : Cursor) (w : Word) (ws : List Word) : Prop
    extends Adds p base n w ws where
  accepts : ∀ f g at1 base' vs N Q, ws.length < f → AlikeIn (p base.kind) base base' →
    (∀ o, N o → Stops c' (vs.head?.or o)) →
    (∀ n', Alike n n' → Accepts (loop f at1 n' g) vs N Q) →
    Accepts (loop f at1 base' (g + 1)) (w :: (ws ++ vs)) N Q

/-- All rounds together. -/
structure Rounds (base n : Node) (c' : Cursor) (w : Word) (ws : List Word) : Prop
    extends Adds p base n w ws where
  accepts : ∀ f g at1 base', ws.length < f → ws.length + 1 < g → AlikeIn (p base.kind) base base' →
    Accepts (loop f at1 base' g) (w :: ws) (Stops c') (Alike n)

/-- What a loop made of `base`: nothing new, or what its rounds added. -/
structure Looped (base n : Node) (c c' : Cursor) : Prop where
  rests : Rests loop c'
  rounds : n = base ∧ c' = c ∨ ∃ w ws, c.words.head? = some w ∧ Rounds p loop base n c' w ws

variable {p loop}

/-- A round and what the loop makes of its result. -/
theorem Round.looped {base m n : Node} {c c₁ c' : Cursor} {w : Word} {ws : List Word}
    (h : Round p loop base m c₁ w ws) (hc : c.words.head? = some w)
    (hl : Looped p loop m n c₁ c') : Looped p loop base n c c' := by
  refine ⟨hl.rests, .inr ?_⟩
  rcases hl.rounds with ⟨rfl, rfl⟩ | ⟨w', ws', hc', hr⟩
  · refine ⟨w, ws, hc, h.toAdds, fun f g at1 base' hf hg hb => ?_⟩
    obtain ⟨g, rfl⟩ : ∃ g', g = g' + 1 := ⟨g - 1, by omega⟩
    rw [← List.append_nil ws]
    refine h.accepts f g at1 base' [] _ _ hf hb (fun o ho => ho) fun n' hn => ?_
    refine (hl.rests f at1 n' g (by omega)).mono (fun _ ho => ho) ?_
    rintro _ rfl
    exact hn
  · refine ⟨w, ws ++ w' :: ws', hc, ⟨h.severs, hr.kind, hr.bare, fun us hus => ?_⟩,
      fun f g at1 base' hf hg hb => ?_⟩
    · have := hr.prints _ (h.prints us hus)
      rw [h.bare] at this
      simpa [fencedWords] using this
    · obtain ⟨g, rfl⟩ : ∃ g', g = g' + 1 := ⟨g - 1, by omega⟩
      simp only [List.length_append, List.length_cons] at hf hg
      refine h.accepts f g at1 base' _ _ _ (by omega) hb (fun o _ => ?_) fun n' hn => ?_
      · obtain ⟨more, hwords⟩ := List.head?_eq_some_iff.1 hc'
        exact .of_words hwords (Word.ne_of_severs hr.severs) o
      · exact hr.accepts f g at1 n' (by omega) (by omega) (h.bare.symm ▸ hn)

end

/-! ### Accesses, calls and steps -/

/-- `suffixes` as a loop. -/
abbrev suffixLoop (f at1 : Nat) (base : Node) (g : Nat) : Parse Node :=
  suffixes (expression f) f at1 base g

/-- No suffix starts here. -/
def NoSuffix (o : Option Word) : Prop := ∀ s ∈ [".", "(", "[", "++", "--"], o ≠ some (punct s)

section

variable {base : Node} {id : Nat} {span : Span} {c' : Cursor}

theorem accepts_suffixes_nil {f at1 g : Nat} {N : Option Word → Prop} (hg : 0 < g)
    (hN : ∀ o, N o → NoSuffix o) : Accepts (suffixLoop f at1 base g) [] N (· = base) := by
  obtain ⟨g, rfl⟩ : ∃ g', g = g' + 1 := ⟨g - 1, by omega⟩
  refine .eatPunct_miss (fun o ho => hN o ho _ (by simp)) (.get fun d rest hd ho => ?_)
  have away : ¬ d.atPunct "(" = true := by
    rw [Cursor.atPunct_iff, hd]
    exact hN _ ho _ (by simp)
  rw [if_neg away]
  refine .eatPunct_miss (fun o ho => hN o ho _ (by simp)) ?_
  exact .operator?_miss (fun o ho s hs => hN o ho s (by simp at hs ⊢; tauto)) (.pure rfl)

theorem NoSuffix.stops {c : Cursor} (h : NoSuffix c.words.head?) {o : Option Word}
    (ho : Stops c o) : NoSuffix o := by
  intro s hs
  refine ho.ne ?_ (h s hs)
  rintro ⟨⟩
  simp at hs

theorem round_memberAccess {t : Token} (hk : t.kind = .identifier) (hw : isKeyword t.text = false)
    (hg : Genuine (name t.text)) :
    Round NodeKind.fencedOperand suffixLoop base
      ⟨id, .memberAccess, span, [], [.node base, .token t]⟩ c' (punct ".") [name t.text] where
  severs := by simp
  kind := rfl
  bare := rfl
  prints := fun us h => .memberAccess h hk hg
  accepts := fun f g at1 base' vs N Q _ hb _ h => by
    refine .eatPunct_hit (.identifier hw fun t' hk' ht' => .finish_bind fun span => h _ ?_)
    exact .suffixed (.inl rfl) hb (hk'.trans hk.symm) ht'

theorem round_step {t : Token} (hk : TokenKind.ofOperator? t.text = some t.kind)
    (ht : t.text ∈ ["++", "--"]) :
    Round NodeKind.fencedOperand suffixLoop base
      ⟨id, .step, span, [], [.node base, .token t]⟩ c' (punct t.text) [] where
  severs := by
    simp only [List.mem_cons, List.not_mem_nil, or_false] at ht
    rcases ht with h | h <;> rw [h] <;> decide
  kind := rfl
  bare := rfl
  prints := fun us h => .step h ht
  accepts := fun f g at1 base' vs N Q _ hb _ h => by
    have other : ∀ s ∈ [".", "(", "["], t.text ≠ s := by
      simp only [List.mem_cons, List.not_mem_nil, or_false] at ht
      rcases ht with h | h <;> rw [h] <;> decide
    refine .eatPunct_miss (fun o _ => by simpa [punct] using other "." (by simp)) ?_
    refine .get fun d rest hd _ => ?_
    have away : ¬ d.atPunct "(" = true := by
      rw [Cursor.atPunct_iff, hd]
      simpa [punct] using other "(" (by simp)
    rw [if_neg away]
    refine .eatPunct_miss (fun o _ => by simpa [punct] using other "[" (by simp)) ?_
    refine .operator?_hit ht hk fun t' hk' ht' => .finish_bind fun span => h _ ?_
    exact .suffixed (.inr rfl) hb hk' ht'

theorem round_invocation {ns : List Node} {wss : List (List Word)}
    (hs : List.Forall₂ Prints ns wss)
    (hq : ∀ f N, (listed wss).length < f →
      Accepts (Parse.bracketed "(" ")" (expression f) f) (inParens (listed wss)) N
        (List.Forall₂ Alike ns)) :
    Round NodeKind.fencedOperand suffixLoop base
      ⟨id, .invocation, span, [], asNodes (base :: ns)⟩ c' (punct "(")
        (listed wss ++ [punct ")"]) where
  severs := by simp
  kind := rfl
  bare := rfl
  prints := fun us h => .invocation h hs
  accepts := fun f g at1 base' vs N Q hf hb _ h => by
    rw [List.length_append] at hf
    refine .eatPunct_miss (fun o _ => by simp [punct]) (.get fun d rest hd _ => ?_)
    rw [if_pos (Cursor.atPunct_iff.2 (by rw [hd]; rfl))]
    refine (hq f (fun _ => True) (by omega)).bind (fun ns' hns => .finish_bind fun span => h _ ?_)
      fun _ _ => trivial
    exact .applied (.inl rfl) hb hns

theorem round_elementAccess {i : Node} {c₁ : Cursor} {ws more : List Word} (hi : Prints i ws)
    (hc : c₁.words = punct "]" :: more)
    (hq : ∀ f, ws.length < f → Accepts (expression f) ws (Stops c₁) (Alike i)) :
    Round NodeKind.fencedOperand suffixLoop base
      ⟨id, .elementAccess, span, [], [.node base, .node i]⟩ c' (punct "[")
        (ws ++ [punct "]"]) where
  severs := by simp
  kind := rfl
  bare := rfl
  prints := fun us h => .elementAccess h hi
  accepts := fun f g at1 base' vs N Q hf hb _ h => by
    rw [List.length_append] at hf
    refine .eatPunct_miss (fun o _ => by simp [punct]) (.get fun d rest hd _ => ?_)
    rw [if_neg (by rw [Cursor.atPunct_iff, hd]; simp [punct]), List.append_assoc]
    refine .eatPunct_hit ((hq f (by omega)).bind (fun i' hi' => .expectPunct ?_)
      fun o _ => .of_words hc (by simp [punct]) o)
    exact .finish_bind fun span => h _ (.applied (.inr rfl) hb (.cons hi' .nil))

end

theorem after_suffixes {expr : Parse Node} (he : ExprCouples expr) (fuel at0 more : Nat)
    (base : Node) (c : Cursor) :
    After (suffixes expr fuel at0 base more) c fun n c' =>
      NoSuffix c'.words.head? ∧ Looped NodeKind.fencedOperand suffixLoop base n c c' := by
  induction more generalizing base c with
  | zero => exact .tooDeep
  | succ more ih =>
    refine .eatPunct (fun c1 hc1 => ?_) fun hdot => .get ?_
    · refine .identifier fun t c2 hc2 hk hw hg => .finish_bind ((ih _ c2).mono fun n c' h => ?_)
      exact ⟨h.1, (round_memberAccess hk hw hg).looped (by rw [hc1]; rfl) h.2⟩
    split
    · refine .bind ((couples_bracketed he.couples (by decide) (by decide) fuel c).mono
        fun ns c1 ⟨wss, hs, hfirst, hq⟩ => .finish_bind ((ih _ c1).mono fun n c' h => ?_))
      exact ⟨h.1, (round_invocation (printsAs_each hs).2 hq).looped hfirst h.2⟩
    · next hcall =>
      refine .eatPunct (fun c1 hc1 => ?_) fun hindex => ?_
      · refine .bind ((he c1).mono fun i c2 ⟨ws, hr, hq⟩ => .expectPunct fun c3 hc3 => ?_)
        refine .finish_bind ((ih _ c3).mono fun n c' h => ?_)
        exact ⟨h.1, (round_elementAccess hr.prints hc3 hq).looped (by rw [hc1]; rfl) h.2⟩
      · refine .operator? (by decide) (fun t c1 hc1 ht hk => ?_) fun hstep => .pure ?_
        · refine .finish_bind ((ih _ c1).mono fun n c' h => ?_)
          exact ⟨h.1, (round_step hk ht).looped (by rw [hc1]; rfl) h.2⟩
        · have ended : NoSuffix c.words.head? := by
            intro s hs
            simp only [List.mem_cons, List.not_mem_nil, or_false] at hs
            rw [Cursor.atPunct_iff] at hcall
            rcases hs with rfl | rfl | rfl | hs
            · exact hdot
            · exact hcall
            · exact hindex
            · exact hstep s (by simpa using hs)
          exact ⟨ended, fun f at1 n g hg => accepts_suffixes_nil hg fun o ho => ended.stops ho,
            .inl ⟨rfl, rfl⟩⟩

/-! ## Falling through a level

Where no operator of a level follows, the level returns what the next tighter one read. -/

section

variable {f : Nat} {N : Option Word → Prop} {Q : Node → Prop} {ws : List Word}

theorem accepts_binaryRest_nil {operand : Parse Node} {operators : List String} {at0 g : Nat}
    {left : Node} (hg : 0 < g) (hN : ∀ o, N o → ∀ s ∈ operators, o ≠ some (punct s)) :
    Accepts (binaryRest operand operators at0 left g) [] N (· = left) := by
  obtain ⟨g, rfl⟩ : ∃ g', g = g' + 1 := ⟨g - 1, by omega⟩
  exact .operator?_miss hN (.pure rfl)

/-- Looser levels return what the tighter ones read. -/
theorem accepts_binary_through {operand : Parse Node} {outer levels : List (List String)}
    (hf : 0 < f) (hN : ∀ o, N o → ∀ ops ∈ outer, ∀ s ∈ ops, o ≠ some (punct s))
    (h : Accepts (binary operand f levels) ws N Q) :
    Accepts (binary operand f (outer ++ levels)) ws N Q := by
  induction outer with
  | nil => exact h
  | cons operators tighter ih =>
    refine .start fun at0 => ?_
    rw [← List.append_nil ws]
    refine (ih fun o ho ops hops => hN o ho ops (by simp [hops])).bind (fun left hl => ?_)
      fun o ho => ho
    refine (accepts_binaryRest_nil hf fun o ho => hN o ho operators (by simp)).mono
      (fun _ ho => ho) ?_
    rintro _ rfl
    exact hl

theorem accepts_conditional_through (hN : ∀ o, N o → o ≠ some (punct "?"))
    (h : Accepts (binary (unary (expression f) f f) f binaryLevels) ws N Q) :
    Accepts (conditional (expression f) f) ws N Q := by
  refine .start fun at0 => ?_
  rw [← List.append_nil ws]
  exact h.bind (fun n hn => .eatPunct_miss (fun o ho => hN o ho) (.pure hn)) fun o ho => ho

/-- Operators of an assignment. -/
def assignments : List String := ["=", "+=", "-="]

theorem accepts_expression_through (hfirm : Firm ws) (harrow : ∀ o, N o → o ≠ some (punct "=>"))
    (hN : ∀ o, N o → ∀ s ∈ assignments, o ≠ some (punct s))
    (h : Accepts (conditional (expression f) f) ws N Q) :
    Accepts (expression (f + 1)) ws N Q := by
  rw [expression]
  refine .get fun d rest hd ho => ?_
  rw [atLambda_eq, hd, hfirm rest (harrow _ ho)]
  rw [← List.append_nil ws]
  exact h.bind (fun n hn => .operator?_miss (fun o ho => hN o ho) (.pure hn)) fun o ho => ho

/-- Words before which every expression ends. -/
def closers : List Word := [punct ")", punct ",", punct ";"]

theorem mem_closers {o : Option Word} (h : o = some (punct ")")) : ∃ w ∈ closers, o = some w :=
  ⟨_, by simp [closers], h⟩

/-- Where expressions end, what one of the levels reads is an expression. -/
theorem accepts_expression_of_binary {outer levels : List (List String)}
    (hlevels : outer ++ levels = binaryLevels) (hf : 0 < f) (hfirm : Firm ws)
    (hN : ∀ o, N o → ∃ w ∈ closers, o = some w)
    (h : Accepts (binary (unary (expression f) f f) f levels) ws N Q) :
    Accepts (expression (f + 1)) ws N Q := by
  have others : ∀ w ∈ closers, w ≠ punct "=>" ∧ w ≠ punct "?" ∧
      ∀ ops ∈ assignments :: binaryLevels, ∀ s ∈ ops, w ≠ punct s := by decide
  have away {o : Option Word} (ho : N o) {v : Word} (hv : ∀ w ∈ closers, w ≠ v) : o ≠ some v := by
    obtain ⟨w, hw, rfl⟩ := hN o ho
    simpa using hv w hw
  refine accepts_expression_through hfirm (fun o ho => away ho fun w hw => (others w hw).1) ?_
    (accepts_conditional_through (fun o ho => away ho fun w hw => (others w hw).2.1)
      (hlevels ▸ accepts_binary_through hf ?_ h))
  · exact fun o ho s hs => away ho fun w hw => (others w hw).2.2 assignments (by simp) s hs
  · exact fun o ho ops hops s hs => away ho fun w hw =>
      (others w hw).2.2 ops (by simp [← hlevels, hops]) s hs

/-- Where expressions end an operand is an expression. -/
theorem accepts_expression_of_unary (hf : 0 < f) (hfirm : Firm ws)
    (hN : ∀ o, N o → ∃ w ∈ closers, o = some w)
    (h : Accepts (unary (expression f) f f) ws N Q) : Accepts (expression (f + 1)) ws N Q :=
  accepts_expression_of_binary (show binaryLevels ++ [] = binaryLevels from List.append_nil _) hf hfirm
    hN h

end

/-! ## Unary expressions -/

/-- The first word is no operator before an operand. -/
def NoPrefix (ws : List Word) : Prop :=
  ∃ w, ws.head? = some w ∧ w ∉ [punct "!", punct "-", name "await"]

/-- A primary expression and its suffixes are read where an operand is. -/
theorem accepts_unary_of_primary {f g : Nat} {us vs : List Word} {N N' : Option Word → Prop}
    {Q Q' : Node → Prop} (hg : 0 < g) (hp : NoPrefix us)
    (hcast : ∀ rest, castAhead (us ++ rest) = false)
    (h : Accepts (primary (expression f) f) us N' Q') (hN : ∀ o, N o → N' (vs.head?.or o))
    (hs : ∀ n at1, Q' n → Accepts (suffixLoop f at1 n f) vs N Q) :
    Accepts (unary (expression f) f g) (us ++ vs) N Q := by
  obtain ⟨g, rfl⟩ : ∃ g', g = g' + 1 := ⟨g - 1, by omega⟩
  obtain ⟨w, hw, hmem⟩ := hp
  have head (o : Option Word) : (us ++ vs).head?.or o = some w := by
    rw [List.head?_append, hw]
    rfl
  simp only [List.mem_cons, List.not_mem_nil, or_false, not_or] at hmem
  obtain ⟨hbang, hminus, hawait⟩ := hmem
  refine .start fun at0 => .operator?_miss (fun o _ s hs => ?_) ?_
  · rw [head]
    simp only [List.mem_cons, List.not_mem_nil, or_false] at hs
    rcases hs with rfl | rfl
    · simpa using hbang
    · simpa using hminus
  refine .eatWord_miss (fun o _ => by rw [head]; simpa using hawait) (.get fun d rest hd _ => ?_)
  rw [atCast_eq, hd, List.append_assoc, hcast]
  exact h.bind (fun n hn => hs n at0 hn) hN

structure ReadsUnary (c : Cursor) (n : Node) (c' : Cursor) (ws : List Word) : Prop
    extends Tight c n c' ws where
  opening : Opening n ws
  ended : NoSuffix c'.words.head?
  accepts : ∀ f g, ws.length ≤ f → ws.length ≤ g →
    Accepts (unary (expression f) f g) ws (Stops c') (Alike n)

theorem length_fencedWords (ws : List Word) : (fencedWords true ws).length = ws.length + 2 := by
  simp [fencedWords, inParens]

/-- An operand of a kind that is printed in parentheses is longer than a word, so these are not
those of a cast. -/
theorem castAhead_fenced {c c' : Cursor} {n : Node} {ws : List Word} (h : Rereads c n c' ws)
    (hf : n.kind.fencedOperand = true) (rest : List Word) :
    castAhead (inParens ws ++ rest) = false := by
  refine castAhead_inParens h.front (fun w hw _ => ?_) rest
  rw [(h.single w hw).2] at hf
  contradiction

/-- In parentheses an operand is read back as a primary expression. -/
theorem accepts_primary_fenced {f : Nat} {n : Node} {ws : List Word} {N : Option Word → Prop}
    (hfirm : Firm ws) (hf : ws.length + 2 ≤ f)
    (h : ∀ f, 0 < f → ws.length ≤ f →
      Accepts (unary (expression f) f f) ws (· = some (punct ")")) (Alike n)) :
    Accepts (primary (expression f) f) (inParens ws) N (AlikeIn true n) := by
  obtain ⟨f, rfl⟩ : ∃ f', f = f' + 1 := ⟨f - 1, by omega⟩
  exact accepts_primary_parens
    (accepts_expression_of_unary (by omega) hfirm (fun _ => mem_closers) (h f (by omega) (by omega)))

/-- An operand is read back, in parentheses where the layout puts them. -/
theorem ReadsUnary.accepts_fenced {c c' : Cursor} {n : Node} {ws : List Word}
    (h : ReadsUnary c n c' ws) {fence : Bool} (hn : fence = true → n.kind.fencedOperand = true)
    {f g : Nat} (hf : (fencedWords fence ws).length ≤ f) (hg : (fencedWords fence ws).length ≤ g) :
    Accepts (unary (expression f) f g) (fencedWords fence ws) (Stops c') (AlikeIn fence n) := by
  cases fence with
  | false => exact h.accepts f g hf hg
  | true =>
    rw [length_fencedWords] at hf hg
    have closing : ∀ o, o = some (punct ")") → Stops c' o := by
      rintro _ rfl
      exact .closing c'
    have inside := accepts_primary_fenced (N := fun _ => True) h.firm hf fun f _ hf =>
      (h.accepts f f hf hf).mono closing fun _ hn => hn
    rw [← List.append_nil (fencedWords true ws)]
    refine accepts_unary_of_primary (by omega) ⟨_, rfl, by decide⟩
      (castAhead_fenced h.toRereads (hn rfl)) inside (fun _ _ => trivial) fun m at1 hm => ?_
    refine (accepts_suffixes_nil (by omega) fun o ho => h.ended.stops ho).mono (fun _ ho => ho) ?_
    rintro _ rfl
    exact hm

/-- The first word of an operand does not lengthen an operator before it. -/
theorem Opening.fenced {c c' : Cursor} {n : Node} {ws : List Word} (h : Opening n ws)
    (hr : Rereads c n c' ws) : ∃ w more, fencedWords n.kind.fencedOperand ws = w :: more ∧
      (w.1 = .punct → w.2 = "(" ∨ w.2 = "[") := by
  cases hf : n.kind.fencedOperand with
  | true => exact ⟨_, _, rfl, fun _ => .inl rfl⟩
  | false =>
    cases hw : ws with
    | nil => exact absurd hw hr.leads.ne_nil
    | cons w more => exact ⟨w, more, rfl, h hf w (by rw [hw]; rfl)⟩

section

variable {c c₁ c' : Cursor} {m : Node} {ws : List Word} {span : Span}

/-- Words before an operand: an operator, `await` or a cast. -/
theorem readsUnary_operand {n : Node} {w : Word} (us : List Word) (h : ReadsUnary c₁ m c' ws)
    (hc : c.words.head? = some w) (hk : n.kind.isExpression = true)
    (hn : n.kind.fencedOperand = true) (hw : w.severs = true) (hfirm : Firm (w :: us))
    (ha : w = name "await" → us = [] ∧ c.words = w :: c₁.words)
    (hp : Prints n (w :: (us ++ fencedWords m.kind.fencedOperand ws)))
    (hq : ∀ f g, 0 < f →
      Accepts (unary (expression f) f g) (fencedWords m.kind.fencedOperand ws) (Stops c')
        (AlikeIn m.kind.fencedOperand m) →
      Accepts (unary (expression f) f (g + 1))
        (w :: (us ++ fencedWords m.kind.fencedOperand ws)) (Stops c') (Alike n)) :
    ReadsUnary c n c' (w :: (us ++ fencedWords m.kind.fencedOperand ws)) := by
  obtain ⟨more, hc⟩ := List.head?_eq_some_iff.1 hc
  obtain ⟨v, vs, hv, _⟩ := h.opening.fenced h.toRereads
  have front := isFront_fenced h.front m.kind.fencedOperand
  have leads := h.leads.fenced m.kind.fencedOperand
  refine ⟨⟨⟨hp, hk, isFront_cons hw _, .of_words hc, fun hw' => ?_, fun x hx => ?_⟩, ?_⟩, ?_,
    h.ended, fun f g hf hg => ?_⟩
  · obtain ⟨rfl, hc₁⟩ := ha (Option.some.inj hw')
    obtain ⟨x, hx, hl⟩ := leads
    rw [hv] at hx ⊢
    cases hx
    refine ⟨v, vs, by rw [Option.some.inj hw']; rfl, hl.imp (fun h => h) fun hl => ?_⟩
    rw [hc₁, List.getElem?_cons_succ, ← List.head?_eq_getElem?, hl]
  · simp [hv] at hx
  · rw [hv] at front ⊢
    exact hfirm.append (isFront_head front) vs
  · intro hf
    simp [hn] at hf
  · simp only [List.length_cons, List.length_append] at hf hg
    obtain ⟨g, rfl⟩ : ∃ g', g = g' + 1 := ⟨g - 1, by omega⟩
    exact hq f g (by omega) (h.accepts_fenced (fun hf => hf) (by omega) (by omega))

theorem readsUnary_unary {t : Token} (h : ReadsUnary c₁ m c' ws)
    (hc : c.words = punct t.text :: c₁.words) (ht : t.text ∈ ["!", "-"])
    (hk : TokenKind.ofOperator? t.text = some t.kind) :
    ReadsUnary c ⟨0, .unary, span, [], [.token t, .node m]⟩ c'
      (punct t.text :: fencedWords m.kind.fencedOperand ws) := by
  obtain ⟨v, vs, hv, hopen⟩ := h.opening.fenced h.toRereads
  have other : ∀ s ∈ ["!", "-"], (punct s).severs = true ∧ punct s ≠ punct "(" := by decide
  refine readsUnary_operand [] h (by rw [hc]; rfl) rfl rfl (other _ ht).1
    (firm_cons rfl (other _ ht).2 _) (by simp [punct]) (.unary h.prints ht hv hopen)
    fun f g _ hm => ?_
  refine .start fun at0 => .operator?_hit ht hk fun t' hk' ht' => ?_
  rw [List.nil_append, ← List.append_nil (fencedWords _ ws)]
  exact hm.bind (fun m' hm' => .finish fun span => .unary hk' ht' hm') fun o ho => ho

theorem readsUnary_await (h : ReadsUnary c₁ m c' ws) (hc : c.words = name "await" :: c₁.words) :
    ReadsUnary c ⟨0, .await, span, [], [.node m]⟩ c'
      (name "await" :: fencedWords m.kind.fencedOperand ws) := by
  refine readsUnary_operand [] h (by rw [hc]; rfl) rfl rfl (by decide)
    (firm_cons (by decide) (by simp [punct]) _) (fun _ => ⟨rfl, hc⟩) (.await h.prints)
    fun f g _ hm => ?_
  refine .start fun at0 => .operator?_miss (fun o _ s _ => by simp [punct]) (.eatWord_hit ?_)
  rw [List.nil_append, ← List.append_nil (fencedWords _ ws)]
  exact hm.bind (fun m' hm' => .finish fun span => .await hm') fun o ho => ho

theorem readsUnary_cast {type : Node} {s : String} (h : ReadsUnary c₁ m c' ws)
    (hc : c.words.head? = some (punct "(")) (hs : s ∈ predefinedTypes) (hp : Prints type [name s])
    (hq : ∀ f N, 0 < f → (∀ o, N o → o ≠ some (punct "<")) →
      Accepts (typeName f) [name s] N (Alike type)) :
    ReadsUnary c ⟨0, .cast, span, [], [.node type, .node m]⟩ c'
      (punct "(" :: ([name s, punct ")"] ++ fencedWords m.kind.fencedOperand ws)) := by
  refine readsUnary_operand [name s, punct ")"] h hc rfl rfl (by simp) (firm_inParens (isFront_type hs))
    (by simp [punct]) (.cast hp h.prints) fun f g hf hm => ?_
  refine .start fun at0 => .operator?_miss (fun o _ s hs => ?_) (.eatWord_miss
    (fun o _ => by simp [name]) (.get fun d rest hd _ => ?_))
  · have other : ∀ s ∈ ["!", "-"], some (punct "(") ≠ some (punct s) := by decide
    exact other s hs
  have again : atCast d = true := by
    rw [atCast_eq, hd]
    exact castAhead_type hs _
  rw [if_pos again]
  refine .bump fun _ _ => (hq f (fun o => o = some (punct ")")) hf ?_).bind
    (v := punct ")" :: fencedWords m.kind.fencedOperand ws) (fun type' ht => .expectPunct ?_)
    fun o _ => rfl
  · rintro _ rfl
    simp [punct]
  · rw [← List.append_nil (fencedWords _ ws)]
    exact hm.bind (fun m' hm' => .finish fun span => .cast ht hm') fun o ho => ho

theorem Leads.noPrefix (h : Leads c ws) (hmiss : ∀ s ∈ ["!", "-"], c.words.head? ≠ some (punct s))
    (hawait : c.words.head? ≠ some (name "await")) : NoPrefix ws := by
  obtain ⟨w, hw, hl⟩ := h
  refine ⟨w, hw, ?_⟩
  rcases hl with rfl | hl
  · decide
  · simp only [List.mem_cons, List.not_mem_nil, or_false, not_or]
    rw [hl] at hmiss hawait
    exact ⟨by simpa using hmiss "!" (by simp), by simpa using hmiss "-" (by simp),
      by simpa using hawait⟩

/-- A primary expression is an operand, before words that do not go on with it. -/
theorem ReadsPrimary.accepts_unary (h : ReadsPrimary c m c₁ ws)
    (hmiss : ∀ s ∈ ["!", "-"], c.words.head? ≠ some (punct s))
    (hawait : c.words.head? ≠ some (name "await")) (hcast : castAhead c.words = false)
    {f g : Nat} {N : Option Word → Prop} (hf : 0 < f) (hg : 0 < g) (hws : ws.length ≤ f)
    (hN : ∀ o, N o → Stops c₁ o ∧ NoSuffix o) :
    Accepts (unary (expression f) f g) ws N (Alike m) := by
  rw [← List.append_nil ws]
  refine accepts_unary_of_primary hg (h.leads.noPrefix hmiss hawait) (h.noCast hcast)
    (h.accepts f hws) (fun o ho _ => (hN o ho).1) fun m' at1 hm => ?_
  refine (accepts_suffixes_nil hf fun o ho => (hN o ho).2).mono (fun _ ho => ho) ?_
  rintro _ rfl
  exact hm

/-- A primary expression and the suffixes that were read after it. -/
theorem readsUnary_primary {n : Node} (h : ReadsPrimary c m c₁ ws)
    (hmiss : ∀ s ∈ ["!", "-"], c.words.head? ≠ some (punct s))
    (hawait : c.words.head? ≠ some (name "await")) (hcast : castAhead c.words = false)
    (hend : NoSuffix c'.words.head?)
    (hl : Looped NodeKind.fencedOperand suffixLoop m n c₁ c') :
    ∃ ws', ReadsUnary c n c' ws' := by
  have alone (f g : Nat) (N : Option Word → Prop) (hf : 0 < f) (hg : 0 < g) (hws : ws.length ≤ f)
      (hN : ∀ o, N o → Stops c₁ o ∧ NoSuffix o) := h.accepts_unary hmiss hawait hcast hf hg hws hN
  rcases hl.rounds with ⟨rfl, rfl⟩ | ⟨w, tail, hw, hr⟩
  · refine ⟨ws, h.toTight, h.opening, hend, fun f g hf hg => ?_⟩
    have := h.length_pos
    exact alone f g _ (by omega) (by omega) hf fun o ho => ⟨ho, hend.stops ho⟩
  · -- in front of a suffix, where the layout may put it in parentheses
    have closing : ∀ o, o = some (punct ")") → Stops c₁ o ∧ NoSuffix o := by
      rintro _ rfl
      exact ⟨.closing c₁, by simp [NoSuffix, punct]⟩
    have base (f : Nat) (hf : (fencedWords m.kind.fencedOperand ws).length ≤ f) :
        Accepts (primary (expression f) f) (fencedWords m.kind.fencedOperand ws) (fun _ => True)
          (AlikeIn m.kind.fencedOperand m) := by
      cases hb : m.kind.fencedOperand with
      | false =>
        rw [hb] at hf
        exact (h.accepts f hf).mono (fun _ _ hf => by simp [hb] at hf) fun _ hm => hm
      | true =>
        rw [hb, length_fencedWords] at hf
        exact accepts_primary_fenced h.firm hf fun f hf0 hf => alone f f _ hf0 hf0 hf closing
    have noCast (rest : List Word) :
        castAhead (fencedWords m.kind.fencedOperand ws ++ rest) = false := by
      cases hb : m.kind.fencedOperand with
      | false => exact h.noCast hcast rest
      | true => exact castAhead_fenced h.toRereads hb rest
    obtain ⟨v, vs, hv, hopen⟩ := h.opening.fenced h.toRereads
    have leads := h.leads.fenced m.kind.fencedOperand
    refine ⟨fencedWords m.kind.fencedOperand ws ++ w :: tail,
      h.toTight.extend _ (hr.prints ws h.prints) hr.kind hr.severs, ?_, hend, fun f g hf hg => ?_⟩
    · rw [hv]
      rintro _ x ⟨⟩ hx
      exact hopen hx
    · have := leads.length_pos
      simp only [List.length_append, List.length_cons] at hf hg
      refine accepts_unary_of_primary (by omega) (leads.noPrefix hmiss hawait) noCast
        (base f (by omega)) (fun _ _ => trivial) fun m' at1 hm => ?_
      exact hr.accepts f f at1 m' (by omega) (by omega) hm

end

section

variable {expr : Parse Node} (he : ExprCouples expr)

include he in
theorem after_unary (fuel more : Nat) (c : Cursor) :
    After (unary expr fuel more) c fun n c' => ∃ ws, ReadsUnary c n c' ws := by
  induction more generalizing c with
  | zero => exact .tooDeep
  | succ more ih =>
    refine .start (.operator? (by decide) (fun t c1 hc1 ht hk => ?_) fun hmiss => ?_)
    · exact .bind ((ih c1).mono fun m c' ⟨ws, h⟩ =>
        .finish ⟨_, readsUnary_unary h hc1 ht hk⟩)
    refine .eatWord (fun c1 hc1 => ?_) fun hawait => .get ?_
    · exact .bind ((ih c1).mono fun m c' ⟨ws, h⟩ => .finish ⟨_, readsUnary_await h hc1⟩)
    rw [atCast_eq]
    split
    · next hcast =>
      obtain ⟨s, rest, hc, hs⟩ := eq_of_castAhead hcast
      refine .bump hc fun _ c1 _ hc1 => .bind ((after_typeName_simple fuel hc1 (by simp [punct])).mono
        fun type c2 ⟨hp, hc2, hq⟩ => .expectPunct fun c3 hc3 => ?_)
      exact .bind ((ih c3).mono fun m c' ⟨ws, h⟩ =>
        .finish ⟨_, readsUnary_cast h (by rw [hc]; rfl) hs hp hq⟩)
    · next hcast =>
      refine .bind ((after_primary he fuel c).mono fun m c1 ⟨ws, h⟩ => ?_)
      exact (after_suffixes he fuel _ fuel m c1).mono fun n c' ⟨hend, hl⟩ =>
        readsUnary_primary h hmiss hawait (by simpa using hcast) hend hl

end

/-! ## Binary expressions -/

structure ReadsBinary (levels : List (List String)) (c : Cursor) (n : Node) (c' : Cursor)
    (ws : List Word) : Prop extends Tight c n c' ws where
  accepts : ∀ f fence, (fence = true → n.kind.fencedBinaryOperand = true) →
    (fencedWords fence ws).length ≤ f →
    Accepts (binary (unary (expression f) f f) f levels) (fencedWords fence ws) (Stops c')
      (AlikeIn fence n)

/-- `binaryRest` as a loop, over operands of the tighter levels. -/
abbrev binaryLoop (operators : List String) (tighter : List (List String)) (f at1 : Nat)
    (left : Node) (g : Nat) : Parse Node :=
  binaryRest (binary (unary (expression f) f f) f tighter) operators at1 left g

theorem round_binary {operators : List String} {tighter : List (List String)} {left right : Node}
    {t : Token} {c' : Cursor} {ws : List Word} {id : Nat} {span : Span}
    (ht : t.text ∈ operators) (hi : t.text ∈ infixOperators) (hs : (punct t.text).severs = true)
    (hk : TokenKind.ofOperator? t.text = some t.kind) (hp : Prints right ws)
    (hq : ∀ f, (fencedWords right.kind.fencedBinaryOperand ws).length ≤ f →
      Accepts (binary (unary (expression f) f f) f tighter)
        (fencedWords right.kind.fencedBinaryOperand ws) (Stops c')
        (AlikeIn right.kind.fencedBinaryOperand right)) :
    Round NodeKind.fencedBinaryOperand (binaryLoop operators tighter) left
      ⟨id, .binary, span, [], [.node left, .token t, .node right]⟩ c' (punct t.text)
      (fencedWords right.kind.fencedBinaryOperand ws) where
  severs := hs
  kind := rfl
  bare := rfl
  prints := fun us hus => .binary hus hp hi
  accepts := fun f g at1 left' vs N Q hf hl hN hv => by
    refine .operator?_hit ht hk fun t' hk' ht' => ?_
    refine (hq f (by omega)).bind (fun right' hr => ?_) hN
    exact .finish_bind fun span => hv _ (.binary hl hk' ht' hr)

/-- Operators that the levels may have. -/
def IsLevel (operators : List String) : Prop :=
  ∀ s ∈ operators, s ∈ infixOperators ∧ (punct s).severs = true ∧
    (TokenKind.ofOperator? s).isSome = true

theorem after_binaryRest {operators : List String} {tighter : List (List String)}
    {operand : Parse Node} (hops : IsLevel operators)
    (ho : ∀ c, After operand c fun n c' => ∃ ws, ReadsBinary tighter c n c' ws) (at0 fuel : Nat)
    (left : Node) (c : Cursor) :
    After (binaryRest operand operators at0 left fuel) c fun n c' =>
      Looped NodeKind.fencedBinaryOperand (binaryLoop operators tighter) left n c c' := by
  induction fuel generalizing left c with
  | zero => exact .tooDeep
  | succ fuel ih =>
    refine .operator? (fun s hs => (hops s hs).2.2) (fun t c1 hc1 ht hk => ?_) fun hmiss => .pure ?_
    · refine .bind ((ho c1).mono fun right c2 ⟨ws, h⟩ => .finish_bind ((ih _ c2).mono
        fun n c' hl => ?_))
      exact (round_binary ht (hops _ ht).1 (hops _ ht).2.1 hk h.prints fun f hf =>
        h.accepts f _ (fun hn => hn) hf).looped (by rw [hc1]; rfl) hl
    · refine ⟨fun f at1 n g hg => accepts_binaryRest_nil hg fun o ho s hs => ?_, .inl ⟨rfl, rfl⟩⟩
      have := (hops s hs).2.1
      refine ho.ne ?_ (hmiss s hs)
      rintro ⟨⟩
      simp at this

/-- An expression of the tighter levels and what was read after it. -/
theorem readsBinary_cons {operators : List String} {tighter : List (List String)}
    {c c₁ c' : Cursor} {m n : Node} {ws : List Word} (h : ReadsBinary tighter c m c₁ ws)
    (hl : Looped NodeKind.fencedBinaryOperand (binaryLoop operators tighter) m n c₁ c') :
    ∃ ws', ReadsBinary (operators :: tighter) c n c' ws' := by
  rcases hl.rounds with ⟨rfl, rfl⟩ | ⟨w, tail, hw, hr⟩
  · refine ⟨ws, h.toTight, fun f fence hn hf => .start fun at0 => ?_⟩
    have := (h.leads.fenced fence).length_pos
    rw [← List.append_nil (fencedWords fence ws)]
    refine (h.accepts f fence hn hf).bind (fun m' hm => ?_) fun o ho => ho
    refine (hl.rests f at0 m' f (by omega)).mono (fun _ ho => ho) ?_
    rintro _ rfl
    exact hm
  · have leads := h.leads.fenced m.kind.fencedBinaryOperand
    refine ⟨fencedWords m.kind.fencedBinaryOperand ws ++ w :: tail,
      h.toTight.extend _ (hr.prints ws h.prints) hr.kind hr.severs, fun f fence hn hf => ?_⟩
    cases fence with
    | true =>
      have := hn rfl
      rw [hr.bare] at this
      contradiction
    | false =>
      have := leads.length_pos
      have hf : (fencedWords m.kind.fencedBinaryOperand ws).length + (tail.length + 1) ≤ f := by
        simpa [fencedWords] using hf
      refine .start fun at0 => ?_
      refine (h.accepts f _ (fun hm => hm) (by omega)).bind (v := w :: tail)
        (fun m' hm => hr.accepts f f at0 m' (by omega) (by omega) hm) fun o _ => ?_
      obtain ⟨more, hwords⟩ := List.head?_eq_some_iff.1 hw
      exact .of_words hwords (Word.ne_of_severs hr.severs) o

section

variable {expr stmt : Parse Node} (he : ExprCouples expr) (hs : StmtCouples stmt)

include he in
theorem after_binary (fuel : Nat) {levels : List (List String)}
    (hlevels : ∀ ops ∈ levels, IsLevel ops) (c : Cursor) :
    After (binary (unary expr fuel fuel) fuel levels) c fun n c' =>
      ∃ ws, ReadsBinary levels c n c' ws := by
  induction levels generalizing c with
  | nil =>
    refine (after_unary he fuel fuel c).mono fun n c' ⟨ws, h⟩ => ⟨ws, h.toTight, fun f fence hn hf => ?_⟩
    exact h.accepts_fenced (fun hf => fencedOperand_of_fencedBinaryOperand (hn hf)) hf hf
  | cons operators tighter ih =>
    have operand (c : Cursor) := ih (fun ops hops => hlevels ops (by simp [hops])) c
    refine .start (.bind ((operand c).mono fun m c1 ⟨ws, h⟩ => ?_))
    exact (after_binaryRest (hlevels operators (by simp)) operand _ fuel m c1).mono
      fun n c' hl => readsBinary_cons h hl

theorem isLevel_binaryLevels : ∀ ops ∈ binaryLevels, IsLevel ops := by
  have each : ∀ ops ∈ binaryLevels, ∀ s ∈ ops, s ∈ infixOperators ∧ (punct s).severs = true ∧
      (TokenKind.ofOperator? s).isSome = true := by decide
  exact each

/-! ## Conditionals and assignments -/

include he in
theorem after_conditional (fuel : Nat) (c : Cursor) :
    After (conditional expr fuel) c fun n c' => ∃ ws, Tight c n c' ws ∧
      ∀ f, ws.length ≤ f → Accepts (conditional (expression f) f) ws (Stops c') (Alike n) := by
  refine .start (.bind ((after_binary he fuel isLevel_binaryLevels c).mono fun m c1 ⟨ws, h⟩ => ?_))
  refine .eatPunct (fun c2 hc2 => ?_) fun hmiss => .pure ?_
  · refine .bind ((he c2).mono fun t c3 ⟨ws', hr', hq'⟩ => .expectPunct fun c4 hc4 =>
      .bind ((he c4).mono fun e c' ⟨ws'', hr'', hq''⟩ => .finish ?_))
    refine ⟨_, h.toTight.extend _ (.conditional h.prints hr'.prints hr''.prints) rfl (by simp),
      fun f hf => .start fun at0 => ?_⟩
    simp only [List.length_append, List.length_cons] at hf
    refine (h.accepts f _ (fun hm => hm) (by omega)).bind (fun m' hm => .eatPunct_hit ?_)
      fun o _ => .of_words hc2 (by simp [punct]) o
    refine (hq' f (by omega)).bind (fun t' ht => .expectPunct ?_)
      fun o _ => .of_words hc4 (by simp [punct]) o
    rw [← List.append_nil ws'']
    exact (hq'' f (by omega)).bind (fun e' hf => .finish fun span => .conditional hm ht hf)
      fun o ho => ho
  · refine ⟨ws, h.toTight, fun f hf => accepts_conditional_through (fun o ho => ?_)
      (h.accepts f false (by simp) hf)⟩
    exact ho.ne (by simp [punct]) hmiss

include he hs in
/-- The law of expressions, from those of the expressions and statements in them. -/
theorem exprCouples_expression (fuel : Nat) : ExprCouples (Grammar.expression expr stmt fuel) := by
  intro c
  have operators : ∀ s ∈ assignments, s ∈ infixOperators ∧ (punct s).severs = true ∧
      (TokenKind.ofOperator? s).isSome = true := by decide
  refine .get ?_
  split
  · refine (after_lambda he hs fuel c).mono ?_
    rintro n c' ⟨ws, hr, hlambda, hq⟩
    refine ⟨ws, hr, fun f hf => ?_⟩
    obtain ⟨f, rfl⟩ : ∃ f', f = f' + 1 := ⟨f - 1, by omega⟩
    rw [expression]
    refine .get fun d rest hd _ => ?_
    rw [atLambda_eq, hd, if_pos (hlambda rest)]
    exact hq f (by omega)
  refine .bind ((after_conditional he fuel c).mono ?_)
  rintro m c1 ⟨ws, h, hq⟩
  refine .operator? (fun s hs => (operators s hs).2.2) (fun t c2 hc2 ht hk => ?_) fun hmiss => .pure ?_
  · refine .bind ((he c2).mono ?_)
    rintro value c' ⟨ws', hr', hq'⟩
    refine .finish ?_
    obtain ⟨hjoins, hsevers, _⟩ := operators t.text ht
    refine ⟨ws ++ punct t.text :: ws', (h.extend false
      (.assignment h.prints hr'.prints hjoins) rfl hsevers).toRereads, fun f hf => ?_⟩
    obtain ⟨f, rfl⟩ : ∃ f', f = f' + 1 := ⟨f - 1, by omega⟩
    simp only [List.length_append, List.length_cons] at hf
    rw [expression]
    refine .get fun d rest hd ho => ?_
    rw [atLambda_eq, hd, h.firm.append (Word.ne_of_severs hsevers) ws' rest ho.2]
    refine (hq f (by omega)).bind (fun m' hm => .operator?_hit ht hk fun t' hk' ht' => ?_)
      fun o _ => .of_words hc2 (Word.ne_of_severs hsevers) o
    rw [← List.append_nil ws']
    refine (hq' f (by omega)).bind (fun value' hv => .finish fun span => ?_) fun o ho => ho
    exact alike_node rfl (.cons (.node hm) (.cons (.token hk' ht') (.cons (.node hv) .nil)))
  · refine ⟨ws, h.toRereads, fun f hf => ?_⟩
    obtain ⟨f, rfl⟩ : ∃ f', f = f' + 1 := ⟨f - 1, by omega⟩
    refine accepts_expression_through h.firm (fun o ho => ho.2) (fun o ho s hs => ?_)
      (hq f (by omega))
    have := (operators s hs).2.1
    refine ho.ne ?_ (hmiss s hs)
    rintro ⟨⟩
    simp at this

end

end Stencil.Source
