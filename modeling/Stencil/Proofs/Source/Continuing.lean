import Stencil.Proofs.Source.Appending
import Stencil.Source.Parser

/-!
# Parsing a text that goes on

A parser that stops before the end of a text does not see what comes after the end, so it does the
same in a longer text. `Carries` compares two parsers that differ in their fuel, the second one in
the longer text. Productions that end with a fixed lexeme do the same even where they take the last
lexeme. That is what `Closes` says.

On the way the lexemes that were taken are found to be calm: no operand begins with `*`.

Results:

* `Carries.bind`, `Closes.bind` and a rule for each way to take one lexeme;
* `Carries.separated`, `Carries.bracketed`, `Carries.itemsUntil` – repetitions;
* `Opens.bind`, `Opens.parentheses` – what starts with a parenthesis has a closing one.
-/
namespace Stencil.Source

/-- What comes after a text: further lexemes, and the length of the longer text. -/
structure Tail where
  lexemes : List Lexeme
  length : Nat

namespace Cursor

/-- The same place in the longer text. -/
def extend (t : Tail) (c : Cursor) : Cursor :=
  { c with rest := c.rest ++ t.lexemes, length := t.length }

variable {t : Tail} {c : Cursor}

theorem ahead_extend {n : Nat} (h : n < c.rest.length) : (c.extend t).ahead n = c.ahead n := by
  simp [ahead, extend, List.getElem?_append_left h, List.getElem?_eq_getElem h]

theorem peek_extend (h : c.rest ≠ []) : (c.extend t).peek = c.peek :=
  ahead_extend (List.length_pos_iff.2 h)

theorem start_extend (h : c.rest ≠ []) : (c.extend t).start = c.start := by
  rw [start, peek_extend h, start]

theorem atPunct_extend (h : c.rest ≠ []) (x : String) :
    (c.extend t).atPunct x = c.atPunct x := by
  rw [atPunct, peek_extend h, atPunct]

theorem atWord_extend (h : c.rest ≠ []) (x : String) : (c.extend t).atWord x = c.atWord x := by
  rw [atWord, peek_extend h, atWord]

theorem atEnd_extend (h : c.rest ≠ []) : (c.extend t).atEnd = c.atEnd := by
  rw [atEnd, peek_extend h, atEnd]

theorem rest_ne_nil (h : c.peek.kind ≠ .eof) : c.rest ≠ [] := by
  intro hr
  simp [peek, ahead, hr, Lexeme.endAt] at h

theorem lt_of_ahead {n : Nat} (h : (c.ahead n).kind ≠ .eof) : n < c.rest.length := by
  by_contra hn
  simp [ahead, List.getElem?_eq_none (Nat.le_of_not_lt hn), Lexeme.endAt] at h

theorem rest_eq (h : c.rest ≠ []) : c.rest = c.peek :: c.advance.rest := by
  obtain ⟨rest, length, lastEnd⟩ := c
  cases rest with
  | nil => exact absurd rfl h
  | cons l rest => rfl

theorem advance_extend (h : c.rest ≠ []) : (c.extend t).advance = c.advance.extend t := by
  obtain ⟨rest, length, lastEnd⟩ := c
  cases rest with
  | nil => exact absurd rfl h
  | cons l rest => rfl

end Cursor

/-- Neither `/` nor `*`. -/
def Lexeme.isPlain (l : Lexeme) : Bool := !l.isPunct "/" && !l.isPunct "*"

theorem Lexeme.isPlain_of_kind {l : Lexeme} (h : l.kind ≠ .punct) : l.isPlain = true := by
  simp [isPlain, isPunct, h]

theorem Lexeme.isPlain_of_isPunct {l : Lexeme} {x : String} (h : l.isPunct x = true)
    (hx : x ≠ "/" ∧ x ≠ "*") : l.isPlain = true := by
  simp only [isPunct, Bool.and_eq_true, beq_iff_eq] at h
  simp [isPlain, isPunct, h.2, hx]

/-! ## Two runs -/

section

variable {α β : Type} (t : Tail)

/-- If `p` succeeds from `c`, it takes calm lexemes, after a `/` or not, and `q` does the same in
the longer text unless `p` takes all that is left. -/
def Carries (slash : Bool) (p q : Parse α) (c : Cursor) : Prop :=
  ∀ a c', p.run c = .ok (a, c') →
    (∃ taken, c.rest = taken ++ c'.rest ∧ calm slash taken = true) ∧
    (c'.rest ≠ [] → q.run (c.extend t) = .ok (a, c'.extend t))

/-- If `p` succeeds from `c`, it takes calm lexemes, and `q` does the same in the longer text. -/
def Closes (slash : Bool) (p q : Parse α) (c : Cursor) : Prop :=
  ∀ a c', p.run c = .ok (a, c') →
    (∃ taken, c.rest = taken ++ c'.rest ∧ calm slash taken = true) ∧
    q.run (c.extend t) = .ok (a, c'.extend t)

end

theorem run_bind_ok {α β : Type} {p : Parse α} {k : α → Parse β} {c c' : Cursor} {b : β}
    (h : (p >>= k).run c = .ok (b, c')) :
    ∃ a mid, p.run c = .ok (a, mid) ∧ (k a).run mid = .ok (b, c') := by
  rw [StateT.run_bind] at h
  cases hp : p.run c with
  | error e => rw [hp] at h; cases h
  | ok r => rw [hp] at h; exact ⟨r.1, r.2, rfl, h⟩

theorem run_bind_of_ok {α β : Type} {p : Parse α} {k : α → Parse β} {c mid : Cursor} {a : α}
    (h : p.run c = .ok (a, mid)) : (p >>= k).run c = (k a).run mid := by
  rw [StateT.run_bind, h]
  rfl

theorem run_expectPunct {α : Type} (x : String) (k : Unit → Parse α) (c : Cursor) :
    (Parse.expectPunct x >>= k).run c =
      if c.atPunct x then (k ()).run c.advance
      else .error ⟨.expected (.spelling x) c.peek, c.peek.span⟩ := by
  unfold Parse.expectPunct Parse.eatPunct
  simp only [StateT.run_bind, StateT.run_get, pure_bind]
  split <;> rfl

variable {α β : Type} {t : Tail} {s : Bool} {c : Cursor}

theorem Closes.carries {p q : Parse α} (h : Closes t s p q c) : Carries t s p q c :=
  fun a c' hr => ⟨(h a c' hr).1, fun _ => (h a c' hr).2⟩

/-- What is not empty later was not empty before. -/
theorem rest_ne_nil_of_taken {c' : Cursor} {taken : List Lexeme}
    (h : c.rest = taken ++ c'.rest) (hc : c'.rest ≠ []) : c.rest ≠ [] := by
  rw [h]
  simp [hc]

/-- What is calm after a `/` is not empty. -/
theorem rest_ne_nil_of_calm {c' : Cursor} {taken : List Lexeme} (h : c.rest = taken ++ c'.rest)
    (hc : calm true taken = true) : c.rest ≠ [] := by
  intro hr
  rw [hr] at h
  obtain ⟨rfl, -⟩ := List.append_eq_nil_iff.1 h.symm
  cases hc

namespace Carries

variable {p q p' q' : Parse α} {k k' : α → Parse β}

theorem bind (h : Carries t s p q c) (hk : ∀ a c', Carries t false (k a) (k' a) c') :
    Carries t s (p >>= k) (q >>= k') c := by
  intro b c' hr
  obtain ⟨a, mid, hp, hb⟩ := run_bind_ok hr
  obtain ⟨⟨first, hfirst, calm₁⟩, hq⟩ := h a mid hp
  obtain ⟨⟨second, hsecond, calm₂⟩, hq'⟩ := hk a mid b c' hb
  refine ⟨⟨first ++ second, by rw [hfirst, hsecond, List.append_assoc],
    calm_append calm₁ calm₂⟩, fun hc => ?_⟩
  rw [run_bind_of_ok (hq (rest_ne_nil_of_taken hsecond hc)), hq' hc]

theorem pure (a : α) : Carries t false (Pure.pure a) (Pure.pure a) c := by
  intro b c' hr
  cases hr
  exact ⟨⟨[], rfl, rfl⟩, fun _ => rfl⟩

/-- Only where something is left the longer text matters. -/
theorem congr (hq : c.rest ≠ [] → q' = q) (h : Carries t s p q c) : Carries t s p q' c := by
  intro a c' hr
  obtain ⟨⟨taken, htaken, calm⟩, hrun⟩ := h a c' hr
  refine ⟨⟨taken, htaken, calm⟩, fun hc => ?_⟩
  rw [hq (rest_ne_nil_of_taken htaken hc)]
  exact hrun hc

theorem get {k k' : Cursor → Parse α} (h : Carries t s (k c) (k' (c.extend t)) c) :
    Carries t s (get >>= k) (get >>= k') c :=
  fun a c' hr => h a c' hr

/-- A parser that looks at the next lexeme only. -/
theorem look {k k' : Cursor → Parse α} (same : c.rest ≠ [] → k' (c.extend t) = k' c)
    (h : Carries t s (k c) (k' c) c) : Carries t s (MonadState.get >>= k) (MonadState.get >>= k') c :=
  get (congr same h)

theorem fail (what : Expectation) : Carries t s (Parse.fail what) q c := fun a c' hr => by
  cases hr

theorem failBind {a : Expectation} {k : β → Parse α} : Carries t s (Parse.fail a >>= k) q c :=
  fun a c' hr => by cases hr

theorem tooDeep : Carries t s Parse.tooDeep q c := fun a c' hr => by
  cases hr

theorem start {k k' : Nat → Parse α} (h : ∀ n, Carries t s (k n) (k' n) c) :
    Carries t s (Parse.start >>= k) (Parse.start >>= k') c := by
  have found : Carries t s (k c.start) (k' (c.extend t).start) c :=
    congr (fun hc => by rw [Cursor.start_extend hc]) (h c.start)
  exact fun a c' hr => found a c' hr

theorem finish {kind : NodeKind} {at0 : Nat} {children : List (Child Node)} :
    Carries t false (Parse.finish kind at0 children) (Parse.finish kind at0 children) c := by
  intro a c' hr
  cases hr
  exact ⟨⟨[], rfl, rfl⟩, fun _ => rfl⟩

/-- A choice that is the same in the longer text. -/
theorem ite {b b' : Bool} (same : c.rest ≠ [] → b' = b) (yes : b = true → Carries t s p q c)
    (no : b = false → Carries t s p' q' c) :
    Carries t s (if b then p else p') (if b' then q else q') c := by
  refine congr (q := if b then q else q') (fun hc => by rw [same hc]) ?_
  cases b with
  | true => exact yes rfl
  | false => exact no rfl

/-- A choice that is the same wherever the parser stops before the end. -/
theorem iteRun {b b' : Bool}
    (same : ∀ a c', (if b then p else p').run c = .ok (a, c') → c'.rest ≠ [] → c.rest ≠ [] → b' = b)
    (yes : b = true → Carries t s p q c) (no : b = false → Carries t s p' q' c) :
    Carries t s (if b then p else p') (if b' then q else q') c := by
  have here : Carries t s (if b then p else p') (if b then q else q') c :=
    ite (fun _ => rfl) yes no
  intro a c' hr
  obtain ⟨⟨taken, htaken, calm⟩, hrun⟩ := here a c' hr
  refine ⟨⟨taken, htaken, calm⟩, fun hc => ?_⟩
  rw [same a c' hr hc (rest_ne_nil_of_taken htaken hc)]
  exact hrun hc

/-- A choice by the lexeme after the next one, between parsers that take the next one. -/
theorem iteAhead {b b' : Bool} (same : 1 < c.rest.length → b' = b)
    (yes : ∀ s, Carries t s p q c) (no : ∀ s, Carries t s p' q' c) :
    Carries t s (if b then p else p') (if b' then q else q') c := by
  have taken {p₁ q₁ : Parse α} (h : ∀ s, Carries t s p₁ q₁ c)
      (hq : b' = b → (if b' then q else q') = q₁) :
      Carries t s p₁ (if b' then q else q') c := by
    intro a c' hr
    obtain ⟨htaken, hrun⟩ := h s a c' hr
    obtain ⟨⟨taken, here, calm⟩, -⟩ := h true a c' hr
    refine ⟨htaken, fun hc => ?_⟩
    have two : 1 < c.rest.length := by
      have first : taken ≠ [] := by
        rintro rfl
        cases calm
      have := List.length_pos_iff.2 first
      have := List.length_pos_iff.2 hc
      rw [here, List.length_append]
      omega
    rw [hq (same two)]
    exact hrun hc
  cases b with
  | true => exact taken yes fun hb => by rw [hb]; rfl
  | false => exact taken no fun hb => by rw [hb]; rfl

/-! ### Taking one lexeme -/

theorem bump {k k' : Lexeme → Parse α} (he : c.peek.kind ≠ .eof)
    (hs : s = true → c.peek.isPunct "*" = false)
    (h : Carries t (c.peek.isPunct "/") (k c.peek) (k' c.peek) c.advance) :
    Carries t s (Parse.bump >>= k) (Parse.bump >>= k') c := by
  have hc := Cursor.rest_ne_nil he
  intro a c' hr
  obtain ⟨⟨taken, htaken, calm₁⟩, hrun⟩ := h a c' hr
  refine ⟨⟨c.peek :: taken, ?_, ?_⟩, fun hc' => ?_⟩
  · rw [Cursor.rest_eq hc, htaken, List.cons_append]
  · cases s with
    | false => simpa [calm] using calm₁
    | true => simpa [calm, hs rfl] using calm₁
  · have next := hrun hc'
    rw [← Cursor.advance_extend hc, ← Cursor.peek_extend (t := t) hc] at next
    exact next

/-- Taking a lexeme that is neither `/` nor `*`. -/
theorem take {k k' : Lexeme → Parse α} (he : c.peek.kind ≠ .eof) (hl : c.peek.isPlain = true)
    (h : ∀ l c', Carries t false (k l) (k' l) c') :
    Carries t s (Parse.bump >>= k) (Parse.bump >>= k') c := by
  simp only [Lexeme.isPlain, Bool.and_eq_true, Bool.not_eq_true'] at hl
  exact bump he (fun _ => hl.2) (by rw [hl.1]; exact h _ _)

theorem takeToken {kind : TokenKind} {k k' : Token → Parse α} (he : c.peek.kind ≠ .eof)
    (hl : c.peek.isPlain = true) (h : ∀ tok c', Carries t false (k tok) (k' tok) c') :
    Carries t s (Parse.takeToken kind >>= k) (Parse.takeToken kind >>= k') c := by
  unfold Parse.takeToken
  rw [bind_assoc, bind_assoc]
  exact take he hl fun _ c' => h _ c'

theorem eatPunct {x : String} (hx : x ≠ "/" ∧ x ≠ "*") {k k' : Bool → Parse α}
    (hit : ∀ c', Carries t false (k true) (k' true) c')
    (miss : c.atPunct x = false → Carries t s (k false) (k' false) c) :
    Carries t s (Parse.eatPunct x >>= k) (Parse.eatPunct x >>= k') c := by
  unfold Parse.eatPunct
  rw [bind_assoc, bind_assoc]
  refine look (fun hc => by rw [Cursor.atPunct_extend hc]) ?_
  cases hp : c.atPunct x with
  | false => exact miss hp
  | true =>
    have punct := hp
    simp only [Cursor.atPunct, Lexeme.isPunct, Bool.and_eq_true, beq_iff_eq] at punct
    exact take (by simp [punct]) (Lexeme.isPlain_of_isPunct hp hx) fun _ c' => hit c'

theorem eatWord {x : String} {k k' : Bool → Parse α}
    (hit : ∀ c', Carries t false (k true) (k' true) c')
    (miss : c.atWord x = false → Carries t s (k false) (k' false) c) :
    Carries t s (Parse.eatWord x >>= k) (Parse.eatWord x >>= k') c := by
  unfold Parse.eatWord
  rw [bind_assoc, bind_assoc]
  refine look (fun hc => by rw [Cursor.atWord_extend hc]) ?_
  cases hp : c.atWord x with
  | false => exact miss hp
  | true =>
    have word := hp
    simp only [Cursor.atWord, Lexeme.isWord, Bool.and_eq_true, beq_iff_eq] at word
    exact take (by simp [word]) (Lexeme.isPlain_of_kind (by simp [word])) fun _ c' => hit c'

theorem expectPunct {x : String} (hx : x ≠ "/" ∧ x ≠ "*") {k k' : Unit → Parse α}
    (h : ∀ c', Carries t false (k ()) (k' ()) c') :
    Carries t s (Parse.expectPunct x >>= k) (Parse.expectPunct x >>= k') c := by
  unfold Parse.expectPunct
  rw [bind_assoc, bind_assoc]
  exact eatPunct hx (fun c' => h c') fun _ => fail _

theorem expectWord {x : String} {k k' : Unit → Parse α}
    (h : ∀ c', Carries t false (k ()) (k' ()) c') :
    Carries t s (Parse.expectWord x >>= k) (Parse.expectWord x >>= k') c := by
  unfold Parse.expectWord
  rw [bind_assoc, bind_assoc]
  exact eatWord (fun c' => h c') fun _ => fail _

theorem identifier {k k' : Token → Parse α} (h : ∀ tok c', Carries t false (k tok) (k' tok) c') :
    Carries t s (Parse.identifier >>= k) (Parse.identifier >>= k') c := by
  unfold Parse.identifier
  rw [bind_assoc, bind_assoc]
  refine look (fun hc => by rw [Cursor.peek_extend hc]) ?_
  cases hn : c.peek.isName with
  | false => exact fail _
  | true =>
    have name := hn
    simp only [Lexeme.isName, Bool.and_eq_true, beq_iff_eq] at name
    exact takeToken (by simp [name]) (Lexeme.isPlain_of_kind (by simp [name])) h

/-- If the operator that was taken is a `/`, what follows must not begin with `*`. -/
theorem operator? {texts : List String} (hs : s = true → "*" ∉ texts)
    {k k' : Option Token → Parse α}
    (hit : ∀ tok s c', (s = true → "/" ∈ texts) → Carries t s (k (some tok)) (k' (some tok)) c')
    (miss : Carries t s (k none) (k' none) c) :
    Carries t s (Parse.operator? texts >>= k) (Parse.operator? texts >>= k') c := by
  unfold Parse.operator?
  rw [bind_assoc, bind_assoc]
  refine look (fun hc => by rw [Cursor.peek_extend hc]) ?_
  dsimp only
  split
  · next hp =>
    simp only [Bool.and_eq_true, beq_iff_eq, List.contains_iff_mem] at hp
    split
    · unfold Parse.takeToken
      simp only [bind_assoc, pure_bind]
      refine bump (by simp [hp.1]) (fun hslash => ?_) (hit _ _ _ fun hslash => ?_)
      · have star : c.peek.text ≠ "*" := fun h => hs hslash (h ▸ hp.2)
        simp [Lexeme.isPunct, star]
      · simp only [Lexeme.isPunct, Bool.and_eq_true, beq_iff_eq] at hslash
        exact hslash.2 ▸ hp.2
    · exact miss
  · exact miss

/-! ### Repetitions -/

theorem separated (h : ∀ s c, Carries t s p q c) {f f' : Nat} (hf : f ≤ f') (s : Bool)
    (c : Cursor) : Carries t s (Parse.separated p f) (Parse.separated q f') c := by
  induction f generalizing f' s c with
  | zero => exact tooDeep
  | succ f ih =>
    obtain ⟨f', rfl⟩ : ∃ g, f' = g + 1 := ⟨f' - 1, by omega⟩
    refine bind (h s c) fun a c => eatPunct (by decide) (fun c => ?_) fun _ => pure _
    exact bind (ih (by omega) false c) fun as c => pure _

theorem bracketed {opening closing : String} (ho : opening ≠ "/" ∧ opening ≠ "*")
    (hc : closing ≠ "/" ∧ closing ≠ "*") (h : ∀ s c, Carries t s p q c) {f f' : Nat}
    (hf : f ≤ f') : Carries t s (Parse.bracketed opening closing p f)
      (Parse.bracketed opening closing q f') c := by
  unfold Parse.bracketed
  refine expectPunct ho fun c => look (fun hr => by rw [Cursor.atPunct_extend hr]) ?_
  refine ite (fun _ => rfl) (fun _ => ?_) fun _ => ?_
  · simp only [pure_bind]
    exact expectPunct hc fun c => pure _
  · exact bind (separated h hf false c) fun as c => expectPunct hc fun c => pure _

theorem itemsUntil {stop : Cursor → Bool}
    (hstop : ∀ c : Cursor, c.rest ≠ [] → stop (c.extend t) = stop c)
    (h : ∀ s c, Carries t s p q c) {f f' : Nat} (hf : f ≤ f') (c : Cursor) :
    Carries t false (Parse.itemsUntil stop p f) (Parse.itemsUntil stop q f') c := by
  induction f generalizing f' c with
  | zero => exact tooDeep
  | succ f ih =>
    obtain ⟨f', rfl⟩ : ∃ g, f' = g + 1 := ⟨f' - 1, by omega⟩
    refine look (fun hr => by rw [hstop c hr, Cursor.atEnd_extend hr]) ?_
    refine ite (fun _ => rfl) (fun _ => pure _) fun _ => ?_
    refine ite (fun _ => rfl) (fun _ => fail _) fun _ => ?_
    exact bind (h false c) fun a c => bind (ih (by omega) c) fun as c => pure _

end Carries

/-! ## Productions that end with a fixed lexeme -/

namespace Closes

variable {p q : Parse α} {k k' : α → Parse β}

/-- What follows takes something, so the first parser stops before the end. -/
theorem bind (h : Carries t s p q c) (hk : ∀ a s c', Closes t s (k a) (k' a) c') :
    Closes t s (p >>= k) (q >>= k') c := by
  intro b c' hr
  obtain ⟨a, mid, hp, hb⟩ := run_bind_ok hr
  obtain ⟨⟨first, hfirst, calm₁⟩, hq⟩ := h a mid hp
  obtain ⟨⟨second, hsecond, calm₂⟩, hq'⟩ := hk a false mid b c' hb
  obtain ⟨⟨some, hsome, calm₃⟩, -⟩ := hk a true mid b c' hb
  refine ⟨⟨first ++ second, by rw [hfirst, hsecond, List.append_assoc],
    calm_append calm₁ calm₂⟩, ?_⟩
  rw [run_bind_of_ok (hq (rest_ne_nil_of_calm hsome calm₃)), hq']

theorem andThen (h : Closes t s p q c) (hk : ∀ a c', Closes t false (k a) (k' a) c') :
    Closes t s (p >>= k) (q >>= k') c := by
  intro b c' hr
  obtain ⟨a, mid, hp, hb⟩ := run_bind_ok hr
  obtain ⟨⟨first, hfirst, calm₁⟩, hq⟩ := h a mid hp
  obtain ⟨⟨second, hsecond, calm₂⟩, hq'⟩ := hk a mid b c' hb
  refine ⟨⟨first ++ second, by rw [hfirst, hsecond, List.append_assoc],
    calm_append calm₁ calm₂⟩, ?_⟩
  rw [run_bind_of_ok hq, hq']

theorem start {k k' : Nat → Parse α} (h : ∀ n s, Closes t s (k n) (k' n) c) :
    Closes t s (Parse.start >>= k) (Parse.start >>= k') c := by
  intro a c' hr
  obtain ⟨htaken, hrun⟩ := h c.start s a c' hr
  obtain ⟨⟨taken, here, calm⟩, -⟩ := h c.start true a c' hr
  refine ⟨htaken, ?_⟩
  rw [← Cursor.start_extend (t := t) (rest_ne_nil_of_calm here calm)] at hrun
  exact hrun

theorem finish {kind : NodeKind} {at0 : Nat} {children : List (Child Node)} :
    Closes t false (Parse.finish kind at0 children) (Parse.finish kind at0 children) c := by
  intro a c' hr
  cases hr
  exact ⟨⟨[], rfl, rfl⟩, rfl⟩

/-- The last lexeme taken, in parsers that only finish a node after it. -/
theorem expectPunct {x : String} (hx : x ≠ "/" ∧ x ≠ "*") {k k' : Unit → Parse α}
    (h : ∀ c', Closes t false (k ()) (k' ()) c') :
    Closes t s (Parse.expectPunct x >>= k) (Parse.expectPunct x >>= k') c := by
  intro a c' hr
  refine ⟨(Carries.expectPunct hx (fun c' => (h c').carries) a c' hr).1, ?_⟩
  rw [run_expectPunct] at hr
  split at hr
  · next hp =>
    have hc : c.rest ≠ [] := by
      refine Cursor.rest_ne_nil ?_
      simp only [Cursor.atPunct, Lexeme.isPunct, Bool.and_eq_true, beq_iff_eq] at hp
      simp [hp]
    rw [run_expectPunct, Cursor.atPunct_extend hc, if_pos hp, Cursor.advance_extend hc]
    exact (h c.advance a c' hr).2
  · cases hr

theorem expectWord {x : String} {k k' : Unit → Parse α}
    (h : ∀ s c', Closes t s (k ()) (k' ()) c') :
    Closes t s (Parse.expectWord x >>= k) (Parse.expectWord x >>= k') c := by
  have taken : Carries t s (Parse.expectWord x) (Parse.expectWord x) c := by
    have here : Carries t s (Parse.expectWord x >>= fun _ => Pure.pure ())
        (Parse.expectWord x >>= fun _ => Pure.pure ()) c :=
      .expectWord fun c' => .pure ()
    rwa [bind_pure_unit] at here
  exact bind taken fun _ => h

theorem identifier {k k' : Token → Parse α}
    (h : ∀ tok s c', Closes t s (k tok) (k' tok) c') :
    Closes t s (Parse.identifier >>= k) (Parse.identifier >>= k') c := by
  have taken : Carries t s Parse.identifier Parse.identifier c := by
    have here : Carries t s (Parse.identifier >>= fun tok => Pure.pure tok)
        (Parse.identifier >>= fun tok => Pure.pure tok) c :=
      .identifier fun tok c' => .pure tok
    rwa [bind_pure] at here
  exact bind taken h

end Closes

/-! ## Parentheses -/

/-- From `(` the parser takes something in parentheses first. -/
def Opens (p : Parse α) (c : Cursor) : Prop :=
  ∀ a c', p.run c = .ok (a, c') → ∃ inner close more,
    c.rest = c.peek :: (inner ++ close :: (more ++ c'.rest)) ∧ inner ≠ [] ∧
      close.isPunct ")" = true

namespace Opens

variable {p q : Parse α}

theorem congr (h : p.run c = q.run c) (hq : Opens q c) : Opens p c :=
  fun a c' hr => hq a c' (h ▸ hr)

theorem bind {k k' : α → Parse β} (h : Opens p c)
    (hk : ∀ a c', Carries t false (k a) (k' a) c') : Opens (p >>= k) c := by
  intro b c' hr
  obtain ⟨a, mid, hp, hb⟩ := run_bind_ok hr
  obtain ⟨inner, close, more, here, some, closes⟩ := h a mid hp
  obtain ⟨⟨taken, htaken, -⟩, -⟩ := hk a mid b c' hb
  exact ⟨inner, close, more ++ taken, by rw [here, htaken, List.append_assoc], some, closes⟩

theorem parentheses {k k' : α → Parse β} (hc : c.atPunct "(" = true)
    (h : ∀ s c, Carries t s p q c) (hk : ∀ a c', Carries t false (k a) (k' a) c') :
    Opens (do let _ ← Parse.bump; let a ← p; Parse.expectPunct ")"; k a) c := by
  intro b c' hr
  have first : c.rest ≠ [] := by
    refine Cursor.rest_ne_nil ?_
    simp only [Cursor.atPunct, Lexeme.isPunct, Bool.and_eq_true, beq_iff_eq] at hc
    simp [hc]
  obtain ⟨l, mid, hl, hr⟩ := run_bind_ok hr
  cases hl
  obtain ⟨a, mid, ha, hr⟩ := run_bind_ok hr
  obtain ⟨⟨inner, hinner, calm⟩, -⟩ := h true _ a mid ha
  rw [run_expectPunct] at hr
  split at hr
  · next hp =>
    obtain ⟨⟨more, hmore, -⟩, -⟩ := hk a _ b c' hr
    have last : mid.rest ≠ [] := by
      refine Cursor.rest_ne_nil ?_
      simp only [Cursor.atPunct, Lexeme.isPunct, Bool.and_eq_true, beq_iff_eq] at hp
      simp [hp]
    refine ⟨inner, mid.peek, more, ?_, ?_, hp⟩
    · rw [← hmore, ← Cursor.rest_eq last, ← hinner]
      exact Cursor.rest_eq first
    · rintro rfl
      cases calm
  · cases hr

end Opens

theorem run_start {k : Nat → Parse α} : (Parse.start >>= k).run c = (k c.start).run c := rfl

theorem run_eatWord_of_not {x : String} {k : Bool → Parse α} (h : c.atWord x = false) :
    (Parse.eatWord x >>= k).run c = (k false).run c := by
  unfold Parse.eatWord
  simp only [StateT.run_bind, StateT.run_get, pure_bind, h]
  rfl

theorem run_operator?_of_not {texts : List String} {k : Option Token → Parse α}
    (h : texts.contains c.peek.text = false) :
    (Parse.operator? texts >>= k).run c = (k none).run c := by
  unfold Parse.operator?
  simp only [StateT.run_bind, StateT.run_get, pure_bind, h, Bool.and_false]
  rfl

end Stencil.Source
