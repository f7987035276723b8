import Stencil.Proofs.Source.Reading

/-!
# What the grammar sees ahead

Two productions are chosen by more than the next word: a lambda by the names before its arrow, a
cast by the type in its parentheses. Both tests read words only, and both can be told from the first
words of what is printed.

Results:

* `atLambda_eq`, `atCast_eq` – the tests as functions on words;
* `IsFront` – the first two words of an expression never look like a list of names;
* `Firm` – words that are no lambda unless an arrow follows them; `firm_inParens`, `Firm.append`.
-/
namespace Stencil.Source

/-- Names and commas up to `)` and `=>`. -/
def namesAhead (ws : List Word) : Bool :=
  match ws.dropWhile fun w => w.isName || w == punct "," with
  | close :: arrow :: _ => close == punct ")" && arrow == punct "=>"
  | _ => false

/-- Whether the words start a lambda. -/
def lambdaAhead (ws : List Word) : Bool :=
  match ws with
  | w :: rest =>
    w.isName && rest.head? == some (punct "=>") || w == punct "(" && namesAhead rest
  | [] => false

/-- Whether the words start a cast. -/
def castAhead (ws : List Word) : Bool :=
  match ws with
  | opening :: type :: closing :: _ =>
    opening == punct "(" && type.1 == .ident && Grammar.predefinedTypes.contains type.2
      && closing == punct ")"
  | _ => false

theorem isPunct_eq (l : Lexeme) (s : String) : l.isPunct s = (l.word == punct s) := by
  rw [Bool.eq_iff_iff]
  simp [Lexeme.isPunct, Lexeme.word, punct]

theorem dropWhile_names (ls : List Lexeme) :
    (ls.dropWhile fun l => l.isName || l.isPunct ",").map Lexeme.word =
      (ls.map Lexeme.word).dropWhile fun w => w.isName || w == punct "," := by
  rw [List.dropWhile_map]
  refine congrArg (fun p => (ls.dropWhile p).map Lexeme.word) (funext fun l => ?_)
  rw [Function.comp_apply, isPunct_eq]
  rfl

theorem atLambda_eq (c : Cursor) : Grammar.atLambda c = lambdaAhead c.words := by
  obtain ⟨rest, length, lastEnd⟩ := c
  cases rest with
  | nil => rfl
  | cons l ls =>
    have arrow : (Cursor.ahead ⟨l :: ls, length, lastEnd⟩ 1).isPunct "=>" =
        ((ls.map Lexeme.word).head? == some (punct "=>")) := by
      rw [Bool.eq_iff_iff, Cursor.isPunct_ahead]
      simp [Cursor.words, ← List.head?_eq_getElem?]
    have choice (a b d : Bool) : (if a then true else if b then d else false) = (a || b && d) := by
      cases a <;> cases b <;> rfl
    refine (choice _ _ _).trans ?_
    refine congrArg₂ or (congrArg (l.isName && ·) arrow) (congrArg₂ and (isPunct_eq l "(") ?_)
    rw [namesAhead, ← dropWhile_names, List.tail_cons]
    generalize ls.dropWhile (fun l => l.isName || l.isPunct ",") = left
    rcases left with _ | ⟨close, _ | ⟨arrow, _⟩⟩
    · rfl
    · rfl
    · simp [isPunct_eq]

theorem atCast_eq (c : Cursor) : Grammar.atCast c = castAhead c.words := by
  obtain ⟨rest, length, lastEnd⟩ := c
  match rest with
  | [] => rfl
  | [a] => simp [Grammar.atCast, castAhead, Cursor.words, Cursor.ahead, Lexeme.endAt]
  | [a, b] =>
    simp [Grammar.atCast, castAhead, Cursor.words, Cursor.ahead, Lexeme.endAt, Lexeme.isPunct]
  | a :: b :: d :: more =>
    show (Lexeme.isPunct a "(" && b.kind == .ident && Grammar.predefinedTypes.contains b.text
      && d.isPunct ")") = _
    rw [isPunct_eq, isPunct_eq]
    rfl

/-! ## The first words of an expression -/

/-- Words that end a list of names, other than its closing parenthesis and arrow. -/
def Word.severs (w : Word) : Bool :=
  !w.isName && w != punct "," && w != punct ")" && w != punct "=>"

/-- Words whose beginning is not that of a list of names: a first word that is no name, or a
name alone or before a word that no such list goes on with. -/
def IsFront : List Word → Bool
  | [] => false
  | [w] => w.isName || w.severs
  | w :: v :: _ => w.severs || w.isName && v.severs

@[simp] theorem severs_punct (s : String) :
    Word.severs (punct s) = (s != "," && s != ")" && s != "=>") := by
  rw [Bool.eq_iff_iff]
  simp [Word.severs, Word.isName, punct]

@[simp] theorem isName_name (s : String) : Word.isName (name s) = !isKeyword s := by
  simp [Word.isName]

@[simp] theorem severs_name (s : String) : Word.severs (name s) = isKeyword s := by
  rw [Bool.eq_iff_iff]
  simp [Word.severs, Word.isName, name, punct]

theorem isFront_cons {w : Word} (h : w.severs = true) (ws : List Word) :
    IsFront (w :: ws) = true := by
  cases ws <;> simp [IsFront, h]

theorem isFront_append {ws : List Word} {v : Word} (h : IsFront ws = true) (hv : v.severs = true)
    (ws' : List Word) : IsFront (ws ++ v :: ws') = true := by
  match ws with
  | [] => contradiction
  | [w] =>
    simp only [IsFront, Bool.or_eq_true] at h
    simp [IsFront, hv, h.symm]
  | w :: u :: _ => exact h

theorem isFront_head {w : Word} {ws : List Word} (h : IsFront (w :: ws) = true) :
    w ≠ punct "=>" := by
  rintro rfl
  cases ws <;> simp [IsFront, Word.isName] at h

theorem namesAhead_cons_of_severs {w : Word} (h : w.severs = true) (ws : List Word) :
    namesAhead (w :: ws) = false := by
  simp only [Word.severs, Bool.and_eq_true, Bool.not_eq_true', bne_iff_ne] at h
  obtain ⟨⟨⟨hn, hc⟩, hp⟩, _⟩ := h
  have : (w.isName || w == punct ",") = false := by simpa [hn] using hc
  rw [namesAhead, List.dropWhile_cons_of_neg (by simp [this])]
  cases ws <;> simp [hp]

theorem namesAhead_cons_of_isName {w : Word} (h : w.isName = true) (ws : List Word) :
    namesAhead (w :: ws) = namesAhead ws := by
  rw [namesAhead, List.dropWhile_cons_of_pos (by simp [h])]
  rfl

theorem namesAhead_closing {ws : List Word} (h : ws.head? ≠ some (punct "=>")) :
    namesAhead (punct ")" :: ws) = false := by
  rw [namesAhead, List.dropWhile_cons_of_neg (by simp [Word.isName, punct])]
  cases ws with
  | nil => rfl
  | cons w ws =>
    have : w ≠ punct "=>" := by simpa using h
    simp [this]

/-- Printed in parentheses, an expression is not the parameter list of a lambda. -/
theorem namesAhead_of_isFront {ws rest : List Word} (h : IsFront ws = true)
    (hr : rest.head? ≠ some (punct "=>")) : namesAhead (ws ++ punct ")" :: rest) = false := by
  match ws with
  | [] => contradiction
  | [w] =>
    simp only [IsFront, Bool.or_eq_true] at h
    rcases h with h | h
    · rw [List.singleton_append, namesAhead_cons_of_isName h]
      exact namesAhead_closing hr
    · exact namesAhead_cons_of_severs h _
  | w :: v :: ws =>
    simp only [IsFront, Bool.or_eq_true, Bool.and_eq_true] at h
    rcases h with h | ⟨h, hv⟩
    · exact namesAhead_cons_of_severs h _
    · rw [List.cons_append, namesAhead_cons_of_isName h]
      exact namesAhead_cons_of_severs hv _

/-! ## Words that are no lambda -/

/-- No lambda starts with these words unless an arrow follows them. -/
def Firm (ws : List Word) : Prop :=
  ∀ rest : List Word, rest.head? ≠ some (punct "=>") → lambdaAhead (ws ++ rest) = false

theorem Firm.append {ws : List Word} {v : Word} (h : Firm ws) (hv : v ≠ punct "=>")
    (ws' : List Word) : Firm (ws ++ v :: ws') := by
  intro rest _
  rw [List.append_assoc]
  exact h _ (by simpa using hv)

theorem firm_cons {w : Word} (hn : w.isName = false) (hp : w ≠ punct "(") (ws : List Word) :
    Firm (w :: ws) := by
  intro rest _
  simp [lambdaAhead, hn, hp]

theorem firm_single {w : Word} (hp : w ≠ punct "(") : Firm [w] := by
  intro rest hr
  simp [lambdaAhead, hr, hp]

theorem firm_inParens {ws : List Word} (h : IsFront ws = true) : Firm (inParens ws) := by
  intro rest hr
  have inside := namesAhead_of_isFront h hr
  simp [lambdaAhead, inParens, Word.isName, inside]

/-- A parenthesis before an expression is a cast only if the expression is the name of a type. -/
theorem castAhead_inParens {ws : List Word} (h : IsFront ws = true)
    (hs : ∀ w, ws = [w] → ¬ (w.1 = .ident ∧ w.2 ∈ Grammar.predefinedTypes)) (rest : List Word) :
    castAhead (inParens ws ++ rest) = false := by
  match ws with
  | [] => contradiction
  | [w] =>
    have := hs w rfl
    simp only [not_and] at this
    simp [inParens, castAhead]
    simpa using this
  | w :: v :: ws =>
    -- a type's name is a name, and no name is before a closing parenthesis
    have types : ∀ s ∈ Grammar.predefinedTypes, isKeyword s = false := by decide
    rw [Bool.eq_false_iff]
    intro hc
    simp only [castAhead, inParens, List.cons_append, Bool.and_eq_true, beq_iff_eq,
      List.contains_iff_mem] at hc
    obtain ⟨⟨⟨_, hk⟩, ht⟩, rfl⟩ := hc
    obtain ⟨kind, text⟩ := w
    simp only at hk ht
    subst hk
    simp [IsFront, types _ ht] at h

theorem eq_of_castAhead {ws : List Word} (h : castAhead ws = true) :
    ∃ type rest, ws = punct "(" :: name type :: punct ")" :: rest ∧
      type ∈ Grammar.predefinedTypes := by
  unfold castAhead at h
  split at h
  · next opening type closing rest =>
    simp only [Bool.and_eq_true, beq_iff_eq, List.contains_iff_mem] at h
    obtain ⟨⟨⟨rfl, hk⟩, hm⟩, rfl⟩ := h
    obtain ⟨kind, text⟩ := type
    cases hk
    exact ⟨text, rest, rfl, hm⟩
  · contradiction

theorem castAhead_type {type : String} (h : type ∈ Grammar.predefinedTypes) (rest : List Word) :
    castAhead (punct "(" :: name type :: punct ")" :: rest) = true := by
  simp [castAhead, h]

theorem isFront_type {type : String} (h : type ∈ Grammar.predefinedTypes) :
    IsFront [name type] = true := by
  have types : ∀ s ∈ Grammar.predefinedTypes, IsFront [name s] = true := by decide
  exact types type h

theorem castAhead_cons {w : Word} (hp : w ≠ punct "(") (ws : List Word) :
    castAhead (w :: ws) = false := by
  match ws with
  | [] | [_] => rfl
  | _ :: _ :: _ => simp [castAhead, hp]

end Stencil.Source
