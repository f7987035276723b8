import Stencil.Proofs.Source.Printing
import Stencil.Source.Parser

/-!
# Reading a text and reading it back

Two statements about parsers go together here. `After p c Φ` looks at a text that was read: if `p`
succeeds at the cursor `c`, then `Φ` holds of its result and of where it stopped. `Accepts q ws N Q`
looks at a text to be read: wherever the words `ws` stand before a word that `N` allows, `q` succeeds,
takes just them and returns something with `Q`. Both compose along a production step by step.

Results:

* `After.bind`, `Accepts.bind` and a rule for each way to take one word;
* `Couples` – what `p` read is spelled by words that `q` accepts; `couples_separated`,
  `couples_bracketed` and `couples_itemsUntil` carry it over repetitions.
-/
namespace Stencil.Source

/-! ## Cursors as words -/

/-- Whether the word can name a variable. -/
def Word.isName (w : Word) : Bool := w.1 == .ident && !isKeyword w.2

namespace Cursor

/-- The words still to come. -/
def words (c : Cursor) : List Word := c.rest.map Lexeme.word

/-- A place before these words. -/
def of (ws : List Word) : Cursor := ⟨ws.map fun w => ⟨w.1, w.2, .detached⟩, 0, 0⟩

@[simp] theorem words_of (ws : List Word) : (Cursor.of ws).words = ws := by
  simp [of, words, Function.comp_def, Lexeme.word]

/-- The words still to come are words of a scanner. -/
def IsGenuine (c : Cursor) : Prop := ∀ w ∈ c.words, Genuine w

variable {c : Cursor}

theorem ahead_of_words {n : Nat} {w : Word} (h : c.words[n]? = some w) : (c.ahead n).word = w := by
  rw [words, List.getElem?_map] at h
  obtain ⟨l, hl, rfl⟩ := Option.map_eq_some_iff.1 h
  simp [ahead, hl]

theorem ahead_of_none {n : Nat} (h : c.words[n]? = none) : (c.ahead n).word = (.eof, "") := by
  rw [words, List.getElem?_map, Option.map_eq_none_iff] at h
  simp [ahead, h, Lexeme.endAt, Lexeme.word]

theorem isPunct_ahead {n : Nat} {s : String} :
    (c.ahead n).isPunct s = true ↔ c.words[n]? = some (punct s) := by
  have agrees : (c.ahead n).isPunct s = true ↔ (c.ahead n).word = punct s := by
    simp [Lexeme.isPunct, Lexeme.word, punct]
  rw [agrees]
  cases h : c.words[n]? with
  | none => simp [ahead_of_none h, punct]
  | some w => simp [ahead_of_words h]

theorem isWord_ahead {n : Nat} {s : String} :
    (c.ahead n).isWord s = true ↔ c.words[n]? = some (name s) := by
  have agrees : (c.ahead n).isWord s = true ↔ (c.ahead n).word = name s := by
    simp [Lexeme.isWord, Lexeme.word, name]
  rw [agrees]
  cases h : c.words[n]? with
  | none => simp [ahead_of_none h, name]
  | some w => simp [ahead_of_words h]

theorem isName_ahead {n : Nat} : (c.ahead n).isName = c.words[n]?.any Word.isName := by
  have agrees : (c.ahead n).isName = Word.isName (c.ahead n).word := rfl
  rw [agrees]
  cases h : c.words[n]? with
  | none => simp [ahead_of_none h, Word.isName]
  | some w => simp [ahead_of_words h]

theorem atPunct_iff {s : String} : c.atPunct s = true ↔ c.words.head? = some (punct s) := by
  rw [List.head?_eq_getElem?]
  exact isPunct_ahead

theorem atWord_iff {s : String} : c.atWord s = true ↔ c.words.head? = some (name s) := by
  rw [List.head?_eq_getElem?]
  exact isWord_ahead

theorem peek_of_words {w : Word} {ws : List Word} (h : c.words = w :: ws) : c.peek.word = w :=
  ahead_of_words (by rw [h]; rfl)

theorem peek_of_nil (h : c.words = []) : c.peek.word = (.eof, "") :=
  ahead_of_none (by rw [h]; rfl)

theorem words_of_peek (h : c.peek.kind ≠ .eof) : ∃ ws, c.words = c.peek.word :: ws := by
  cases hw : c.words with
  | nil => exact absurd (congrArg Prod.fst (peek_of_nil hw)) h
  | cons w ws => exact ⟨ws, by rw [peek_of_words hw]⟩

theorem words_advance {w : Word} {ws : List Word} (h : c.words = w :: ws) :
    c.advance.words = ws := by
  obtain ⟨rest, length, lastEnd⟩ := c
  cases rest with
  | nil => cases h
  | cons l rest => exact (List.cons.inj h).2

theorem isGenuine_of_words {c c' : Cursor} {w : Word} (hc : c.IsGenuine)
    (h : c.words = w :: c'.words) : c'.IsGenuine := by
  intro v hv
  exact hc v (by simp [h, hv])

theorem atEnd_of_nil (h : c.words = []) : c.atEnd = true := by
  have := congrArg Prod.fst (peek_of_nil h)
  simpa [atEnd, Lexeme.word] using this

theorem atEnd_of_words {w : Word} {ws : List Word} (h : c.words = w :: ws) (hw : w.1 ≠ .eof) :
    c.atEnd = false := by
  have := congrArg Prod.fst (peek_of_words h)
  simp only [Lexeme.word] at this
  simpa [atEnd, this] using hw

end Cursor

/-! ## What follows from a text that was read -/

/-- If `p` succeeds at `c`, then `Φ` holds of its result and of the cursor after it. -/
def After {α : Type} (p : Parse α) (c : Cursor) (Φ : α → Cursor → Prop) : Prop :=
  c.IsGenuine → ∀ a c', p.run c = .ok (a, c') → c'.IsGenuine ∧ Φ a c'

namespace After

variable {α β : Type} {c : Cursor} {Φ : α → Cursor → Prop} {Ψ : β → Cursor → Prop}

theorem bind {p : Parse α} {k : α → Parse β}
    (h : After p c fun a c' => After (k a) c' Ψ) : After (p >>= k) c Ψ := by
  intro hc b c' hr
  rw [StateT.run_bind] at hr
  cases hp : p.run c with
  | error e => rw [hp] at hr; cases hr
  | ok r =>
    rw [hp] at hr
    obtain ⟨hg, hk⟩ := h hc r.1 r.2 hp
    exact hk hg b c' hr

theorem pure {a : α} (h : Φ a c) : After (Pure.pure a) c Φ := by
  intro hc b c' hr
  cases hr
  exact ⟨hc, h⟩

theorem mono {p : Parse α} {Φ' : α → Cursor → Prop} (h : After p c Φ)
    (hΦ : ∀ a c', Φ a c' → Φ' a c') : After p c Φ' := by
  intro hc a c' hr
  obtain ⟨hg, ha⟩ := h hc a c' hr
  exact ⟨hg, hΦ a c' ha⟩

theorem throw {e : SourceError} : After (throw e) c Φ := by
  intro _ _ _ hr
  cases hr

theorem get {k : Cursor → Parse α} (h : After (k c) c Φ) : After (get >>= k) c Φ := by
  refine bind ?_
  intro hc b c' hr
  cases hr
  exact ⟨hc, h⟩

theorem fail (what : Expectation) : After (Parse.fail what) c Φ := get throw

theorem tooDeep : After Parse.tooDeep c Φ := get throw

theorem start {k : Nat → Parse α} (h : After (k c.start) c Φ) : After (Parse.start >>= k) c Φ := by
  refine bind ?_
  intro hc b c' hr
  cases hr
  exact ⟨hc, h⟩

theorem finish {kind : NodeKind} {at0 : Nat} {children : List (Child Node)}
    {Φ : Node → Cursor → Prop} (h : Φ (c.finish kind at0 children) c) :
    After (Parse.finish kind at0 children) c Φ :=
  get (pure h)

theorem finish_bind {kind : NodeKind} {at0 : Nat} {children : List (Child Node)}
    {k : Node → Parse α} (h : After (k (c.finish kind at0 children)) c Φ) :
    After (Parse.finish kind at0 children >>= k) c Φ :=
  bind (finish h)

theorem bump {w : Word} {ws : List Word} {k : Lexeme → Parse α} (hw : c.words = w :: ws)
    (h : ∀ l c', l.word = w → c'.words = ws → After (k l) c' Φ) :
    After (Parse.bump >>= k) c Φ := by
  refine bind ?_
  intro hc l c' hr
  cases hr
  have taken := Cursor.words_advance hw
  exact ⟨Cursor.isGenuine_of_words hc (by rw [hw, taken]), h _ _ (Cursor.peek_of_words hw) taken⟩

theorem token {w : Word} {ws : List Word} {kind : TokenKind} {Φ : Token → Cursor → Prop}
    (hw : c.words = w :: ws)
    (h : ∀ t c', t.kind = kind → t.text = w.2 → c'.words = ws → Φ t c') :
    After (Parse.takeToken kind) c Φ :=
  bump hw fun _ c' hl hc' => pure (h _ c' rfl (congrArg Prod.snd hl) hc')

theorem takeToken {w : Word} {ws : List Word} {kind : TokenKind} {k : Token → Parse α}
    (hw : c.words = w :: ws)
    (h : ∀ t c', t.kind = kind → t.text = w.2 → c'.words = ws → After (k t) c' Φ) :
    After (Parse.takeToken kind >>= k) c Φ :=
  bind (token hw h)

theorem eatPunct {s : String} {k : Bool → Parse α}
    (hit : ∀ c', c.words = punct s :: c'.words → After (k true) c' Φ)
    (miss : c.words.head? ≠ some (punct s) → After (k false) c Φ) :
    After (Parse.eatPunct s >>= k) c Φ := by
  refine bind (get ?_)
  split
  · next hp =>
    obtain ⟨ws, hw⟩ := List.head?_eq_some_iff.1 (Cursor.atPunct_iff.1 hp)
    exact bump hw fun l c' _ hc' => pure (hit c' (by rw [hw, hc']))
  · next hp => exact pure (miss fun hw => hp (Cursor.atPunct_iff.2 hw))

theorem eatWord {s : String} {k : Bool → Parse α}
    (hit : ∀ c', c.words = name s :: c'.words → After (k true) c' Φ)
    (miss : c.words.head? ≠ some (name s) → After (k false) c Φ) :
    After (Parse.eatWord s >>= k) c Φ := by
  refine bind (get ?_)
  split
  · next hp =>
    obtain ⟨ws, hw⟩ := List.head?_eq_some_iff.1 (Cursor.atWord_iff.1 hp)
    exact bump hw fun l c' _ hc' => pure (hit c' (by rw [hw, hc']))
  · next hp => exact pure (miss fun hw => hp (Cursor.atWord_iff.2 hw))

theorem expectPunct {s : String} {k : Unit → Parse α}
    (h : ∀ c', c.words = punct s :: c'.words → After (k ()) c' Φ) :
    After (Parse.expectPunct s >>= k) c Φ :=
  bind (eatPunct (fun c' hw => pure (h c' hw)) fun _ => fail _)

theorem expectWord {s : String} {k : Unit → Parse α}
    (h : ∀ c', c.words = name s :: c'.words → After (k ()) c' Φ) :
    After (Parse.expectWord s >>= k) c Φ :=
  bind (eatWord (fun c' hw => pure (h c' hw)) fun _ => fail _)

theorem identifier {k : Token → Parse α}
    (h : ∀ t c', c.words = name t.text :: c'.words → t.kind = .identifier →
      isKeyword t.text = false → Genuine (name t.text) → After (k t) c' Φ) :
    After (Parse.identifier >>= k) c Φ := by
  intro hc
  refine bind (get ?_) hc
  split
  · next hn =>
    cases hw : c.words with
    | nil => simp [Cursor.peek, Cursor.isName_ahead, hw] at hn
    | cons w ws =>
      have hn : w.isName = true := by
        simpa [Cursor.peek, Cursor.isName_ahead, hw] using hn
      obtain ⟨kind, text⟩ := w
      simp only [Word.isName, Bool.and_eq_true, beq_iff_eq, Bool.not_eq_true'] at hn
      obtain ⟨rfl, hk⟩ := hn
      refine token hw fun t c' hkind ht hc' => ?_
      simp only at ht
      subst ht
      exact h t c' (by rw [hw, hc']) hkind hk (hc _ (by simp [hw]))
  · exact fail _

theorem operator? {texts : List String} {k : Option Token → Parse α}
    (known : ∀ s ∈ texts, (TokenKind.ofOperator? s).isSome = true)
    (hit : ∀ t c', c.words = punct t.text :: c'.words → t.text ∈ texts →
      TokenKind.ofOperator? t.text = some t.kind → After (k (some t)) c' Φ)
    (miss : (∀ s ∈ texts, c.words.head? ≠ some (punct s)) → After (k none) c Φ) :
    After (Parse.operator? texts >>= k) c Φ := by
  refine bind (get ?_)
  dsimp only
  split
  · next hp =>
    simp only [Bool.and_eq_true, beq_iff_eq, List.contains_iff_mem] at hp
    obtain ⟨hkind, hmem⟩ := hp
    cases hw : c.words with
    | nil =>
      have := congrArg Prod.fst (Cursor.peek_of_nil hw)
      simp [Lexeme.word, hkind] at this
    | cons w ws =>
      have hl := Cursor.peek_of_words hw
      split
      · next kind hk =>
        refine takeToken hw fun t c' htk ht hc' => pure ?_
        have hword : w = punct c.peek.text := by
          rw [← hl]
          simp [Lexeme.word, hkind, punct]
        have ht : t.text = c.peek.text := by rw [ht, hword]
        refine hit t c' ?_ ?_ ?_
        · rw [hc', hw, hword, ht]
        · rw [ht]; exact hmem
        · rw [ht, htk]; exact hk
      · next hk =>
        have := known _ hmem
        simp [hk] at this
  · next hp =>
    refine pure (miss fun s hs hw => hp ?_)
    obtain ⟨ws, hw⟩ := List.head?_eq_some_iff.1 hw
    have hl := Cursor.peek_of_words hw
    have hkind : c.peek.kind = .punct := congrArg Prod.fst hl
    have htext : c.peek.text = s := congrArg Prod.snd hl
    simp [hkind, htext, hs]

end After

/-! ## What a text to be read gives -/

/-- Where the words `ws` stand before a word that `N` allows, `q` takes just them and returns
something with `Q`. -/
def Accepts {α : Type} (q : Parse α) (ws : List Word) (N : Option Word → Prop) (Q : α → Prop) :
    Prop :=
  ∀ d rest, d.words = ws ++ rest → N rest.head? →
    ∃ a d', q.run d = .ok (a, d') ∧ d'.words = rest ∧ Q a

namespace Accepts

variable {α β : Type} {N N' : Option Word → Prop} {Q : α → Prop} {Q' : β → Prop}
  {ws : List Word}

theorem bind {q : Parse α} {k : α → Parse β} {u v : List Word} (h : Accepts q u N Q)
    (hk : ∀ a, Q a → Accepts (k a) v N' Q') (hN : ∀ o, N' o → N (v.head?.or o)) :
    Accepts (q >>= k) (u ++ v) N' Q' := by
  intro d rest hd ho
  have next : (v ++ rest).head? = v.head?.or rest.head? := List.head?_append
  obtain ⟨a, d', hq, hd', ha⟩ := h d (v ++ rest) (by rw [hd, List.append_assoc])
    (next ▸ hN _ ho)
  obtain ⟨b, d'', hk, hd'', hb⟩ := hk a ha d' rest hd' ho
  refine ⟨b, d'', ?_, hd'', hb⟩
  rw [StateT.run_bind, hq]
  exact hk

theorem pure {a : α} (h : Q a) : Accepts (Pure.pure a) [] N Q :=
  fun d _ hd _ => ⟨a, d, rfl, hd, h⟩

theorem pure_bind {a : α} {k : α → Parse β} (h : Accepts (k a) ws N' Q') :
    Accepts (Pure.pure a >>= k) ws N' Q' :=
  fun d rest hd ho => h d rest hd ho

theorem mono {q : Parse α} {P : α → Prop} (h : Accepts q ws N Q) (hN : ∀ o, N' o → N o)
    (hQ : ∀ a, Q a → P a) : Accepts q ws N' P := by
  intro d rest hd ho
  obtain ⟨a, d', hq, hd', ha⟩ := h d rest hd (hN _ ho)
  exact ⟨a, d', hq, hd', hQ a ha⟩

/-- The production may look at the cursor it stands at. -/
theorem get {k : Cursor → Parse α}
    (h : ∀ d rest, d.words = ws ++ rest → N rest.head? → Accepts (k d) ws N Q) :
    Accepts (get >>= k) ws N Q :=
  fun d rest hd ho => h d rest hd ho d rest hd ho

theorem start {k : Nat → Parse α} (h : ∀ at0, Accepts (k at0) ws N Q) :
    Accepts (Parse.start >>= k) ws N Q :=
  fun d rest hd ho => h d.start d rest hd ho

theorem finish {kind : NodeKind} {at0 : Nat} {children : List (Child Node)} {Q : Node → Prop}
    (h : ∀ span, Q ⟨0, kind, span, [], children⟩) :
    Accepts (Parse.finish kind at0 children) [] N Q :=
  fun d _ hd _ => ⟨_, d, rfl, hd, h _⟩

theorem finish_bind {kind : NodeKind} {at0 : Nat} {children : List (Child Node)}
    {k : Node → Parse α}
    (h : ∀ span, Accepts (k ⟨0, kind, span, [], children⟩) ws N Q) :
    Accepts (Parse.finish kind at0 children >>= k) ws N Q :=
  fun d rest hd ho => h _ d rest hd ho

theorem bump {w : Word} {k : Lexeme → Parse α} (h : ∀ l, l.word = w → Accepts (k l) ws N Q) :
    Accepts (Parse.bump >>= k) (w :: ws) N Q :=
  fun d rest hd ho => h d.peek (Cursor.peek_of_words hd) d.advance rest (Cursor.words_advance hd) ho

theorem token {w : Word} {kind : TokenKind} {Q : Token → Prop}
    (h : ∀ t, t.kind = kind → t.text = w.2 → Q t) : Accepts (Parse.takeToken kind) [w] N Q :=
  bump fun _ hl => pure (h _ rfl (congrArg Prod.snd hl))

theorem takeToken {w : Word} {kind : TokenKind} {k : Token → Parse α}
    (h : ∀ t, t.kind = kind → t.text = w.2 → Accepts (k t) ws N Q) :
    Accepts (Parse.takeToken kind >>= k) (w :: ws) N Q :=
  bind (N := fun _ => True) (Q := fun t => t.kind = kind ∧ t.text = w.2)
    (token fun _ hk ht => ⟨hk, ht⟩) (fun t ht => h t ht.1 ht.2) fun _ _ => trivial

theorem eatPunct_hit {s : String} {k : Bool → Parse α} (h : Accepts (k true) ws N Q) :
    Accepts (Parse.eatPunct s >>= k) (punct s :: ws) N Q := by
  refine bind (u := [punct s]) (N := fun _ => True) (Q := (· = true)) ?_ ?_ fun _ _ => trivial
  · refine get fun d rest hd _ => ?_
    rw [if_pos (Cursor.atPunct_iff.2 (by rw [hd]; rfl))]
    exact bump fun _ _ => pure rfl
  · rintro _ rfl
    exact h

theorem eatPunct_miss {s : String} {k : Bool → Parse α}
    (hn : ∀ o, N o → ws.head?.or o ≠ some (punct s)) (h : Accepts (k false) ws N Q) :
    Accepts (Parse.eatPunct s >>= k) ws N Q := by
  intro d rest hd ho
  have away : d.atPunct s = false := by
    rw [Bool.eq_false_iff, ne_eq, Cursor.atPunct_iff, hd, List.head?_append]
    exact hn _ ho
  obtain ⟨a, d', hk, hd', ha⟩ := h d rest hd ho
  refine ⟨a, d', ?_, hd', ha⟩
  rw [← hk, StateT.run_bind, Parse.eatPunct, StateT.run_bind, StateT.run_get]
  show ((if d.atPunct s = true then _ else _ : Parse Bool).run d >>= _) = _
  rw [away]
  rfl

theorem eatWord_hit {s : String} {k : Bool → Parse α} (h : Accepts (k true) ws N Q) :
    Accepts (Parse.eatWord s >>= k) (name s :: ws) N Q := by
  refine bind (u := [name s]) (N := fun _ => True) (Q := (· = true)) ?_ ?_ fun _ _ => trivial
  · refine get fun d rest hd _ => ?_
    rw [if_pos (Cursor.atWord_iff.2 (by rw [hd]; rfl))]
    exact bump fun _ _ => pure rfl
  · rintro _ rfl
    exact h

theorem eatWord_miss {s : String} {k : Bool → Parse α}
    (hn : ∀ o, N o → ws.head?.or o ≠ some (name s)) (h : Accepts (k false) ws N Q) :
    Accepts (Parse.eatWord s >>= k) ws N Q := by
  intro d rest hd ho
  have away : d.atWord s = false := by
    rw [Bool.eq_false_iff, ne_eq, Cursor.atWord_iff, hd, List.head?_append]
    exact hn _ ho
  obtain ⟨a, d', hk, hd', ha⟩ := h d rest hd ho
  refine ⟨a, d', ?_, hd', ha⟩
  rw [← hk, StateT.run_bind, Parse.eatWord, StateT.run_bind, StateT.run_get]
  show ((if d.atWord s = true then _ else _ : Parse Bool).run d >>= _) = _
  rw [away]
  rfl

theorem expectPunct {s : String} {k : Unit → Parse α} (h : Accepts (k ()) ws N Q) :
    Accepts (Parse.expectPunct s >>= k) (punct s :: ws) N Q :=
  bind (u := [punct s]) (N := fun _ => True) (Q := fun _ => True)
    (eatPunct_hit (pure trivial)) (fun _ _ => h) fun _ _ => trivial

theorem expectWord {s : String} {k : Unit → Parse α} (h : Accepts (k ()) ws N Q) :
    Accepts (Parse.expectWord s >>= k) (name s :: ws) N Q :=
  bind (u := [name s]) (N := fun _ => True) (Q := fun _ => True)
    (eatWord_hit (pure trivial)) (fun _ _ => h) fun _ _ => trivial

theorem identifier {s : String} {k : Token → Parse α} (hs : isKeyword s = false)
    (h : ∀ t, t.kind = .identifier → t.text = s → Accepts (k t) ws N Q) :
    Accepts (Parse.identifier >>= k) (name s :: ws) N Q := by
  refine bind (u := [name s]) (N := fun _ => True)
    (Q := fun t => t.kind = .identifier ∧ t.text = s) ?_ (fun t ht => h t ht.1 ht.2) fun _ _ => trivial
  refine get fun d rest hd _ => ?_
  have hn : d.peek.isName = true := by
    simp [Cursor.peek, Cursor.isName_ahead, hd, Word.isName, hs]
  rw [if_pos hn]
  exact token fun _ hk ht => ⟨hk, ht⟩

theorem operator?_hit {texts : List String} {s : String} {kind : TokenKind}
    {k : Option Token → Parse α} (hs : s ∈ texts) (hk : TokenKind.ofOperator? s = some kind)
    (h : ∀ t, t.kind = kind → t.text = s → Accepts (k (some t)) ws N Q) :
    Accepts (Parse.operator? texts >>= k) (punct s :: ws) N Q := by
  refine bind (u := [punct s]) (N := fun _ => True)
    (Q := fun o => ∃ t, o = some t ∧ t.kind = kind ∧ t.text = s) ?_ ?_ fun _ _ => trivial
  · refine get fun d rest hd _ => ?_
    have hl := Cursor.peek_of_words hd
    have hkind : d.peek.kind = .punct := congrArg Prod.fst hl
    have htext : d.peek.text = s := congrArg Prod.snd hl
    simp only [hkind, htext, beq_self_eq_true, List.contains_iff_mem.2 hs, Bool.and_self, if_true,
      hk]
    exact takeToken fun t htk ht => pure ⟨t, rfl, htk, ht⟩
  · rintro _ ⟨t, rfl, htk, ht⟩
    exact h t htk ht

theorem operator?_miss {texts : List String} {k : Option Token → Parse α}
    (hn : ∀ o, N o → ∀ s ∈ texts, ws.head?.or o ≠ some (punct s))
    (h : Accepts (k none) ws N Q) : Accepts (Parse.operator? texts >>= k) ws N Q := by
  intro d rest hd ho
  have away : ¬ (d.peek.kind == .punct && texts.contains d.peek.text) = true := by
    intro hp
    simp only [Bool.and_eq_true, beq_iff_eq, List.contains_iff_mem] at hp
    refine hn _ ho _ hp.2 ?_
    rw [← List.head?_append, ← hd, ← Cursor.atPunct_iff]
    simp [Cursor.atPunct, Lexeme.isPunct, hp.1]
  obtain ⟨a, d', hk, hd', ha⟩ := h d rest hd ho
  refine ⟨a, d', ?_, hd', ha⟩
  rw [← hk, StateT.run_bind, Parse.operator?, StateT.run_bind, StateT.run_get]
  show ((if (d.peek.kind == .punct && texts.contains d.peek.text) = true then _ else _ :
    Parse (Option Token)).run d >>= _) = _
  rw [if_neg away]
  rfl

end Accepts

/-! ## Reading back what was read -/

/-- The printed words begin as the text did that was read, or with an added parenthesis. -/
def Leads (c : Cursor) (ws : List Word) : Prop :=
  ∃ w, ws.head? = some w ∧ (w = punct "(" ∨ c.words.head? = some w)

theorem Leads.ne_nil {c : Cursor} {ws : List Word} (h : Leads c ws) : ws ≠ [] := by
  obtain ⟨w, hw, _⟩ := h
  rintro rfl
  cases hw

theorem Leads.length_pos {c : Cursor} {ws : List Word} (h : Leads c ws) : 0 < ws.length :=
  List.length_pos_iff.2 h.ne_nil

theorem Leads.append {c : Cursor} {ws : List Word} (h : Leads c ws) (ws' : List Word) :
    Leads c (ws ++ ws') := by
  obtain ⟨w, hw, hl⟩ := h
  exact ⟨w, by rw [List.head?_append, hw]; rfl, hl⟩

theorem Leads.head_ne {c : Cursor} {ws : List Word} (h : Leads c ws) {w : Word}
    (hw : w ≠ punct "(") (hc : c.words.head? ≠ some w) (o : Option Word) :
    ws.head?.or o ≠ some w := by
  obtain ⟨v, hv, hl⟩ := h
  rw [hv]
  intro he
  cases he
  exact hl.elim hw hc

theorem Leads.of_words {c : Cursor} {w : Word} {ws ws' : List Word} (h : c.words = w :: ws) :
    Leads c (w :: ws') :=
  ⟨w, rfl, .inr (by rw [h]; rfl)⟩

/-- An expression is followed by the word that followed it when it was read, or by a
parenthesis that was put around it, and not by the arrow of a lambda. -/
def Stops (c : Cursor) (o : Option Word) : Prop :=
  (o = c.words.head? ∨ o = some (punct ")")) ∧ o ≠ some (punct "=>")

theorem Stops.ne {c : Cursor} {o : Option Word} (h : Stops c o) {w : Word} (hw : w ≠ punct ")")
    (hc : c.words.head? ≠ some w) : o ≠ some w := by
  rintro rfl
  rcases h.1 with h | h
  · exact hc h.symm
  · exact hw (Option.some.inj h)

theorem Stops.of_words {c : Cursor} {w : Word} {ws : List Word} (h : c.words = w :: ws)
    (hw : w ≠ punct "=>") (o : Option Word) : Stops c ((some w).or o) :=
  ⟨.inl (by rw [h]; rfl), by simpa using hw⟩

theorem Stops.closing (c : Cursor) : Stops c (some (punct ")")) :=
  ⟨.inr rfl, by simp [punct]⟩

/-- A statement is followed by `else` only if it was when it was read. -/
def StopsElse (c : Cursor) (o : Option Word) : Prop :=
  o = some (name "else") → c.words.head? = some (name "else")

/-- What `p` reads is shown by words that `q` reads back, given more fuel than words. -/
def Couples {α β : Type} (p : Parse α) (q : Nat → Parse β)
    (stops : Cursor → Option Word → Prop) (shows : α → List Word → Prop) (same : α → β → Prop) :
    Prop :=
  ∀ c, After p c fun a c' => ∃ ws, shows a ws ∧ Leads c ws ∧
    ∀ f, ws.length < f → Accepts (q f) ws (stops c') (same a)

theorem listed_cons {ws : List Word} {wss : List (List Word)} (h : wss ≠ []) :
    listed (ws :: wss) = ws ++ punct "," :: listed wss := by
  cases wss with
  | nil => contradiction
  | cons ws' wss => rfl

/-! ### Repetitions -/

section

variable {α β : Type} {q : Parse β} {same : α → β → Prop} {a : α} {as : List α}
  {N N' : Option Word → Prop} {ws ws' : List Word} {f g : Nat}

theorem accepts_separated_last (h : Accepts q ws N (same a))
    (hN : ∀ o, N o → o ≠ some (punct ",")) :
    Accepts (Parse.separated q (g + 1)) ws N (List.Forall₂ same [a]) := by
  rw [← List.append_nil ws]
  exact h.bind (fun b hb => .eatPunct_miss hN (.pure (.cons hb .nil))) fun o ho => ho

theorem accepts_separated_cons (h : Accepts q ws N' (same a)) (hN : N' (some (punct ",")))
    (hs : Accepts (Parse.separated q g) ws' N (List.Forall₂ same as)) :
    Accepts (Parse.separated q (g + 1)) (ws ++ punct "," :: ws') N (List.Forall₂ same (a :: as)) := by
  refine h.bind (fun b hb => .eatPunct_hit ?_) fun o _ => hN
  rw [← List.append_nil ws']
  exact hs.bind (fun bs hbs => .pure (.cons hb hbs)) fun o ho => ho

theorem accepts_bracketed_nil {opening closing : String} :
    Accepts (Parse.bracketed opening closing q f) [punct opening, punct closing] N
      (List.Forall₂ same []) := by
  refine .expectPunct (.get fun d rest hd _ => ?_)
  rw [if_pos (Cursor.atPunct_iff.2 (by rw [hd]; rfl))]
  exact .pure_bind (.expectPunct (.pure .nil))

theorem accepts_bracketed {opening closing : String}
    (h : Accepts (Parse.separated q f) ws N' (List.Forall₂ same as)) (hN : N' (some (punct closing)))
    (first : ws.head?.or (some (punct closing)) ≠ some (punct closing)) :
    Accepts (Parse.bracketed opening closing q f)
      (punct opening :: (ws ++ [punct closing])) N (List.Forall₂ same as) := by
  refine .expectPunct (.get fun d rest hd _ => ?_)
  have away : d.atPunct closing = false := by
    rw [Bool.eq_false_iff, ne_eq, Cursor.atPunct_iff, hd, List.append_assoc, List.head?_append]
    exact first
  rw [away]
  exact h.bind (fun bs hbs => .expectPunct (.pure hbs)) fun o _ => hN

/-- A place where items end is told by the next word. -/
theorem accepts_itemsUntil_nil {stop : Cursor → Bool} {S : Option Word → Bool}
    (hS : ∀ c, stop c = S c.words.head?) :
    Accepts (Parse.itemsUntil stop q (g + 1)) [] (fun o => S o = true) (List.Forall₂ same []) := by
  refine .get fun d rest hd hN => ?_
  have : stop d = true := by rw [hS, hd]; exact hN
  rw [if_pos this]
  exact .pure .nil

theorem accepts_itemsUntil_cons {stop : Cursor → Bool} {S : Option Word → Bool}
    (hS : ∀ c, stop c = S c.words.head?) {w : Word} (hw : ws.head? = some w)
    (going : S (some w) = false) (inside : w.1 ≠ .eof) (h : Accepts q ws N' (same a))
    (hN : ∀ o, N o → N' (ws'.head?.or o))
    (hs : Accepts (Parse.itemsUntil stop q g) ws' N (List.Forall₂ same as)) :
    Accepts (Parse.itemsUntil stop q (g + 1)) (ws ++ ws') N (List.Forall₂ same (a :: as)) := by
  refine .get fun d rest hd _ => ?_
  have head : d.words.head? = some w := by
    rw [hd, List.append_assoc, List.head?_append, hw]
    rfl
  obtain ⟨more, hd⟩ := List.head?_eq_some_iff.1 head
  rw [hS, head, going, Cursor.atEnd_of_words hd inside]
  refine h.bind (fun b hb => ?_) hN
  rw [← List.append_nil ws']
  exact hs.bind (fun bs hbs => .pure (.cons hb hbs)) fun o ho => ho

end

section

variable {α β : Type} {p : Parse α} {q : Nat → Parse β} {shows : α → List Word → Prop}
  {same : α → β → Prop}

theorem couples_separated (h : Couples p q Stops shows same) (fuel : Nat) (c : Cursor) :
    After (Parse.separated p fuel) c fun as c' =>
      ∃ wss, as ≠ [] ∧ List.Forall₂ shows as wss ∧ Leads c (listed wss) ∧
        ∀ f g, (listed wss).length < f → (listed wss).length ≤ g →
          Accepts (Parse.separated (q f) g) (listed wss) (Stops c') (List.Forall₂ same as) := by
  induction fuel generalizing c with
  | zero => exact .tooDeep
  | succ fuel ih =>
    refine .bind ((h c).mono fun a c1 ⟨ws, hs, hl, hq⟩ => ?_)
    have room {g : Nat} {more : List Word} (hg : (ws ++ more).length ≤ g) :
        ∃ g', g = g' + 1 ∧ more.length ≤ g' := by
      have := hl.length_pos
      rw [List.length_append] at hg
      exact ⟨g - 1, by omega, by omega⟩
    refine .eatPunct (fun c2 hc2 => ?_) fun hmiss => ?_
    · refine .bind ((ih c2).mono fun as c' ⟨wss, hne, hss, _, hqs⟩ => .pure ?_)
      have hwss : wss ≠ [] := by
        rintro rfl
        cases hss
        contradiction
      refine ⟨ws :: wss, by simp, .cons hs hss, ?_, fun f g hf hg => ?_⟩
      · rw [listed_cons hwss]
        exact hl.append _
      · rw [listed_cons hwss] at hf hg ⊢
        obtain ⟨g, rfl, hg⟩ := room hg
        simp only [List.length_append, List.length_cons] at hf hg
        exact accepts_separated_cons (hq f (by omega)) (.of_words hc2 (by simp [punct]) none)
          (hqs f g (by omega) (by omega))
    · refine .pure ⟨[ws], by simp, .cons hs .nil, hl, fun f g hf hg => ?_⟩
      simp only [listed] at hf hg ⊢
      rw [← List.append_nil ws] at hg
      obtain ⟨g, rfl, _⟩ := room hg
      exact accepts_separated_last (hq f hf) fun o ho => ho.ne (by simp [punct]) hmiss

theorem couples_bracketed (h : Couples p q Stops shows same) {opening closing : String}
    (ho : closing ≠ "(") (ha : closing ≠ "=>") (fuel : Nat) (c : Cursor) :
    After (Parse.bracketed opening closing p fuel) c fun as _ =>
      ∃ wss, List.Forall₂ shows as wss ∧ c.words.head? = some (punct opening) ∧
        ∀ f N, (listed wss).length < f →
          Accepts (Parse.bracketed opening closing (q f) f)
            (punct opening :: (listed wss ++ [punct closing])) N (List.Forall₂ same as) := by
  refine .expectPunct fun c1 hc1 => .get ?_
  have first : c.words.head? = some (punct opening) := by rw [hc1]; rfl
  split
  · next hend =>
    exact .bind (.pure (.expectPunct fun c2 hc2 => .pure ⟨[], .nil, first, fun f N hf =>
      accepts_bracketed_nil⟩))
  · next hend =>
    refine .bind ((couples_separated h fuel c1).mono fun as c2 ⟨wss, _, hss, hl, hq⟩ => ?_)
    refine .expectPunct fun c3 hc3 => .pure ⟨wss, hss, first, fun f N hf => ?_⟩
    refine accepts_bracketed (hq f f hf (by omega)) (.of_words hc3 (by simpa [punct] using ha) none)
      (hl.head_ne (by simpa [punct] using ho) ?_ _)
    rwa [ne_eq, ← Cursor.atPunct_iff]

/-- Items up to a place that the next word tells; neither a parenthesis nor `else` tells it. -/
theorem couples_itemsUntil (h : Couples p q StopsElse shows same) {stop : Cursor → Bool}
    {S : Option Word → Bool} (hS : ∀ c, stop c = S c.words.head?)
    (hopen : S (some (punct "(")) = false) (helse : S (some (name "else")) = false) (fuel : Nat)
    (c : Cursor) :
    After (Parse.itemsUntil stop p fuel) c fun as _ =>
      ∃ wss, List.Forall₂ shows as wss ∧ (S c.words.head? = true ∧ wss = [] ∨ Leads c wss.flatten) ∧
        ∀ f g, wss.flatten.length < f → wss.flatten.length < g →
          Accepts (Parse.itemsUntil stop (q f) g) wss.flatten (fun o => S o = true)
            (List.Forall₂ same as) := by
  induction fuel generalizing c with
  | zero => exact .tooDeep
  | succ fuel ih =>
    refine .get ?_
    split
    · next hstop =>
      refine .pure ⟨[], .nil, .inl ⟨by rw [← hS, hstop], rfl⟩, fun f g hf hg => ?_⟩
      obtain ⟨g, rfl⟩ : ∃ g', g = g' + 1 := ⟨g - 1, by simp at hg; omega⟩
      exact accepts_itemsUntil_nil hS
    · next hstop =>
      split
      · exact .fail _
      · next hend =>
        refine .bind ((h c).mono fun a c1 ⟨ws, hs, hl, hq⟩ => ?_)
        refine .bind ((ih c1).mono fun as c' ⟨wss, hss, hnext, hqs⟩ => .pure ?_)
        refine ⟨ws :: wss, .cons hs hss, .inr (hl.append _), fun f g hf hg => ?_⟩
        rw [List.flatten_cons] at hf hg ⊢
        simp only [List.length_append] at hf hg
        have := hl.length_pos
        obtain ⟨g, rfl⟩ : ∃ g', g = g' + 1 := ⟨g - 1, by omega⟩
        obtain ⟨w, hw, hfirst⟩ := hl
        have going : S (some w) = false := by
          rcases hfirst with rfl | hc
          · exact hopen
          · rw [← hc, ← hS]
            exact Bool.eq_false_iff.2 hstop
        have inside : w.1 ≠ .eof := by
          rcases hfirst with rfl | hc
          · simp
          · intro he
            obtain ⟨ws'', hc'⟩ := List.head?_eq_some_iff.1 hc
            have := congrArg Prod.fst (Cursor.peek_of_words hc')
            exact hend (by simpa [Cursor.atEnd, Lexeme.word, he] using this)
        refine accepts_itemsUntil_cons hS hw going inside (hq f (by omega)) (fun o ho he => ?_)
          (hqs f g (by omega) (by omega))
        -- what follows the first item is the next one or the place where they stop
        rcases hnext with ⟨hstop', rfl⟩ | hnext
        · simp only [List.flatten_nil, List.head?_nil, Option.none_or] at he
          rw [he, helse] at ho
          contradiction
        · by_contra hc
          exact hnext.head_ne (by simp [name, punct]) hc o he

end

end Stencil.Source
