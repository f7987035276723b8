import Stencil.Proofs.Source.Spelling

/-!
# Texts that go on after a line

The words of a text stay what they are, and where they are, when further lines follow it. The one
exception is a comment that the text opens and a later line closes. Where it was not closed it was
read as a division and a multiplication, one right after the other, so a text without these two
words in a row has no such comment.

Results:

* `word?_line`, `trivia?_line` – what begins before a line break ends before it or with it;
* `scan_line` – the lexemes of a text and of what follows its last line.
-/
namespace Stencil.Source

/-! ## Runs of characters -/

section

variable {p : Char → Bool} {x : Char}

theorem takeWhile_line (hx : p x = false) (cs more : List Char) :
    (cs ++ x :: more).takeWhile p = cs.takeWhile p := by
  induction cs with
  | nil => simp [hx]
  | cons c cs ih => simp [List.takeWhile_cons, ih]

theorem dropWhile_line (hx : p x = false) (cs more : List Char) :
    (cs ++ x :: more).dropWhile p = cs.dropWhile p ++ x :: more := by
  induction cs with
  | nil => simp [hx]
  | cons c cs ih =>
    cases hc : p c <;> simp [hc, ih]

end

theorem byteLength_cons (c : Char) (cs : List Char) :
    byteLength (c :: cs) = c.utf8Size + byteLength cs := by
  have shift (n : Nat) : cs.foldl (fun total c => total + c.utf8Size) n =
      n + cs.foldl (fun total c => total + c.utf8Size) 0 := by
    induction cs generalizing n with
    | nil => simp
    | cons d cs ih =>
      rw [List.foldl_cons, List.foldl_cons, ih (n + _), ih (0 + _)]
      omega
  rw [byteLength, List.foldl_cons, shift, byteLength]
  omega

theorem byteLength_append (cs ds : List Char) :
    byteLength (cs ++ ds) = byteLength cs + byteLength ds := by
  induction cs with
  | nil => simp [byteLength]
  | cons c cs ih =>
    rw [List.cons_append, byteLength_cons, ih, byteLength_cons]
    omega

/-! ## Words before a line break -/

theorem numberRest_line (cs more : List Char) :
    numberRest (cs ++ '\n' :: more) = numberRest cs := by
  have stop : '\n'.isDigit = false := by decide
  unfold numberRest
  rw [takeWhile_line stop, dropWhile_line stop]
  cases cs.dropWhile Char.isDigit with
  | nil => rfl
  | cons c after =>
    by_cases hc : c = '.'
    · subst hc
      simp only [List.cons_append, takeWhile_line stop]
    · simp [hc]

theorem length_numberRest_le (cs : List Char) : (numberRest cs).2.length ≤ cs.length := by
  have whole := congrArg List.length (cs.takeWhile_append_dropWhile (p := Char.isDigit))
  rw [List.length_append] at whole
  unfold numberRest
  split
  · next after hd =>
    have fits := (List.takeWhile_prefix Char.isDigit (l := after)).length_le
    rw [hd, List.length_cons] at whole
    dsimp only
    split
    · dsimp only
      omega
    · simp only [List.length_append, List.length_cons]
      omega
  · dsimp only
    omega

/-- No operator goes over a line break. -/
theorem find?_punctuation_line (c : Char) (cs more : List Char) :
    punctuation.find? (·.isPrefixOf (c :: (cs ++ '\n' :: more))) =
      punctuation.find? (·.isPrefixOf (c :: cs)) := by
  have short : ∀ p ∈ punctuation, p.length ≤ 2 ∧ '\n' ∉ p := by decide
  refine List.find?_congr fun p hp => ?_
  obtain ⟨hlen, hline⟩ := short p hp
  rcases p with _ | ⟨a, _ | ⟨b, _ | ⟨d, p⟩⟩⟩
  · rfl
  · simp [List.isPrefixOf]
  · cases cs with
    | nil =>
      have hb : (b == '\n') = false := by
        rw [beq_eq_false_iff_ne]
        rintro rfl
        simp at hline
      simp [List.isPrefixOf, hb]
    | cons d cs => simp [List.isPrefixOf]
  · simp at hlen

/-- A word that begins before a line break ends before it. -/
theorem word?_line {c : Char} {rest : List Char} {kind : LexemeKind} {text : String} {n : Nat}
    (h : word? c rest = some (kind, text, n)) (more : List Char) :
    word? c (rest ++ '\n' :: more) = some (kind, text, n) ∧ n ≤ rest.length := by
  have stop : isNameRest '\n' = false := by decide
  unfold word? at h ⊢
  rw [takeWhile_line stop, numberRest_line, find?_punctuation_line]
  split at h
  · next hc =>
    cases h
    simpa [hc] using (List.takeWhile_prefix isNameRest (l := rest)).length_le
  next hc =>
  split at h
  · next hd =>
    have fits := length_numberRest_le rest
    generalize numberRest rest = r at h fits
    obtain ⟨fraction, digits⟩ := r
    cases h
    simpa [hc, hd] using fits
  next hd =>
  split at h
  · next hq =>
    obtain ⟨⟨value, m⟩, hm, hv⟩ := Option.map_eq_some_iff.1 h
    cases hv
    subst hq
    simp [hc, hd, decode_append hm ('\n' :: more)]
  next hq =>
  split at h
  · next hs =>
    split at h
    · next value m hm =>
      cases h
      subst hs
      simp [hc, hd, decode_append hm ('\n' :: more)]
    · cases h
  · next hs =>
    obtain ⟨p, hp, hv⟩ := Option.map_eq_some_iff.1 h
    cases hv
    have fits := List.find?_some hp
    simp only [List.isPrefixOf_iff_prefix] at fits
    have fits := fits.length_le
    simp only [List.length_cons] at fits
    simp only [hc, hd, hq, hs, hp]
    simp
    omega

theorem commentEnd_append {cs : List Char} {n : Nat} (h : commentEnd cs = some n)
    (more : List Char) : commentEnd (cs ++ more) = some n ∧ n ≤ cs.length := by
  fun_induction commentEnd cs generalizing n with
  | case1 rest =>
    cases h
    simp [commentEnd]
  | case2 c rest hne ih =>
    obtain ⟨m, hm, rfl⟩ := Option.map_eq_some_iff.1 h
    obtain ⟨hmore, hle⟩ := ih hm
    refine ⟨?_, by simpa using hle⟩
    cases rest with
    | nil => cases hm
    | cons d rest =>
      rw [List.cons_append, commentEnd, hmore, Option.map_some]
      rintro rest' rfl hr
      rw [List.cons_append, List.cons.injEq] at hr
      exact hne rest rfl (by rw [hr.1])
  | case3 => cases h

/-- What is skipped before a line break, if it is a comment, ends before it. -/
theorem trivia?_line {c : Char} {rest : List Char} (hb : Text.isBlank c = false) {n : Nat}
    (h : trivia? c rest = some n) (more : List Char) :
    trivia? c (rest ++ '\n' :: more) = some n ∧ n ≤ rest.length := by
  unfold trivia? at h ⊢
  rw [if_neg (by simp [hb])] at h ⊢
  split at h
  · next after =>
    cases h
    have fits := (List.takeWhile_prefix (· != '\n') (l := after)).length_le
    simp only [List.cons_append, takeWhile_line (p := (· != '\n')) (bne_self_eq_false _),
      List.length_cons, true_and]
    omega
  · next after =>
    obtain ⟨m, hm, rfl⟩ := Option.map_eq_some_iff.1 h
    obtain ⟨hmore, hle⟩ := commentEnd_append hm ('\n' :: more)
    simp only [List.cons_append, hmore, Option.map_some, List.length_cons, true_and]
    omega
  · cases h

/-- Where nothing is skipped before a line break, and no comment is left open, nothing is skipped
when the text goes on. -/
theorem trivia?_none_line {c : Char} {rest : List Char} (h : trivia? c rest = none)
    (hopen : c = '/' → rest.head? ≠ some '*') (more : List Char) :
    trivia? c (rest ++ '\n' :: more) = none := by
  have hb : Text.isBlank c = false := by
    by_contra hb
    rw [trivia?_blank (by simpa using hb)] at h
    cases h
  by_cases hs : c = '/'
  · subst hs
    cases rest with
    | nil => rfl
    | cons d rest =>
      have slash : d ≠ '/' := by
        rintro rfl
        simp [trivia?, hb] at h
      have star : d ≠ '*' := by
        rintro rfl
        exact hopen rfl rfl
      simp [trivia?, hb, slash, star]
  · exact trivia?_none hb hs _

/-! ## Lexemes before a line break -/

/-- No `*` comes right after a `/`, also not at the front if a `/` stands before it, and the last
lexeme is no `/`. -/
def calm (slash : Bool) : List Lexeme → Bool
  | [] => !slash
  | l :: ls => !(slash && l.isPunct "*") && calm (l.isPunct "/") ls

theorem calm_append {slash : Bool} {ls ls' : List Lexeme} (h : calm slash ls = true)
    (h' : calm false ls' = true) : calm slash (ls ++ ls') = true := by
  induction ls generalizing slash with
  | nil =>
    obtain rfl : slash = false := by simpa [calm] using h
    exact h'
  | cons l ls ih =>
    simp only [calm, Bool.and_eq_true] at h
    simp only [List.cons_append, calm, Bool.and_eq_true]
    exact ⟨h.1, ih h.2⟩

theorem scan_trivia {c : Char} {rest : List Char} {n : Nat} (h : trivia? c rest = some n)
    (offset : Nat) :
    scan offset (c :: rest) = scan (offset + byteLength (c :: rest.take n)) (rest.drop n) := by
  rw [scan, h]

theorem scan_word {c : Char} {rest : List Char} {kind : LexemeKind} {text : String} {n : Nat}
    (h : trivia? c rest = none) (hw : word? c rest = some (kind, text, n)) (offset : Nat) :
    scan offset (c :: rest) =
      (scan (offset + byteLength (c :: rest.take n)) (rest.drop n)).map
        (⟨kind, text, ⟨offset, offset + byteLength (c :: rest.take n)⟩⟩ :: ·) := by
  rw [scan, h, hw]
  dsimp only
  cases scan (offset + byteLength (c :: rest.take n)) (rest.drop n) <;> rfl

/-- Blanks are skipped one by one. -/
theorem scan_blank {c : Char} (h : Text.isBlank c = true) (offset : Nat) (rest : List Char) :
    scan offset (c :: rest) = scan (offset + c.utf8Size) rest := by
  have run {c : Char} (h : Text.isBlank c = true) (offset : Nat) (rest : List Char) :
      scan offset (c :: rest) = scan (offset + byteLength (c :: rest.takeWhile Text.isBlank))
        (rest.dropWhile Text.isBlank) := by
    have taken := List.prefix_iff_eq_take.1 (List.takeWhile_prefix Text.isBlank (l := rest))
    have left := congrArg (List.drop (rest.takeWhile Text.isBlank).length)
      (rest.takeWhile_append_dropWhile (p := Text.isBlank))
    rw [List.drop_left] at left
    rw [scan_trivia (trivia?_blank h rest), ← taken, left]
  rw [run h]
  cases rest with
  | nil => simp [byteLength]
  | cons d rest =>
    cases hd : Text.isBlank d with
    | false => simp [hd, byteLength]
    | true =>
      rw [run hd, List.takeWhile_cons_of_pos hd, List.dropWhile_cons_of_pos hd, byteLength_cons,
        Nat.add_assoc]

theorem word?_slash (rest : List Char) :
    word? '/' ('*' :: rest) = some (.punct, "/", 0) := by
  have name : isNameStart '/' = false := by decide
  have digit : '/'.isDigit = false := by decide
  simp [word?, name, digit, punctuation, List.isPrefixOf]

/-- An open comment begins with a `*`, which is a word. -/
theorem exists_star {offset : Nat} {rest : List Char} {ls : List Lexeme}
    (h : scan offset ('*' :: rest) = .ok ls) : ∃ l ls', ls = l :: ls' ∧ l.isPunct "*" = true := by
  have name : isNameStart '*' = false := by decide
  have digit : '*'.isDigit = false := by decide
  have word : word? '*' rest = some (.punct, "*", 0) := by
    simp [word?, name, digit, punctuation, List.isPrefixOf]
  rw [scan_word (trivia?_none (by decide) (by decide) rest) word] at h
  cases hs : scan (offset + byteLength ('*' :: rest.take 0)) (rest.drop 0) with
  | error e =>
    rw [hs] at h
    cases h
  | ok ls' =>
    rw [hs] at h
    cases h
    exact ⟨_, ls', rfl, rfl⟩

/-- A text without an open comment keeps its lexemes when it goes on after a line break. -/
theorem scan_line {offset : Nat} {cs : List Char} {ls : List Lexeme} (h : scan offset cs = .ok ls)
    {slash : Bool} (hc : calm slash ls = true) (more : List Char) :
    scan offset (cs ++ '\n' :: more) =
      (scan (offset + byteLength cs) ('\n' :: more)).map (ls ++ ·) := by
  induction hn : cs.length using Nat.strongRecOn generalizing offset cs ls slash with
  | ind n ih =>
    subst hn
    cases cs with
    | nil =>
      rw [scan] at h
      cases h
      cases hm : scan offset ('\n' :: more) <;> simp [hm, byteLength, Except.map]
    | cons c rest =>
      cases hb : Text.isBlank c with
      | true =>
        rw [scan_blank hb] at h
        rw [List.cons_append, scan_blank hb, ih rest.length (by simp) h hc rfl, byteLength_cons,
          Nat.add_assoc]
      | false =>
        have whole {n : Nat} (hn : n ≤ rest.length) (offset : Nat) :
            offset + byteLength (c :: rest.take n) + byteLength (rest.drop n) =
              offset + byteLength (c :: rest) := by
          rw [Nat.add_assoc, ← byteLength_append, List.cons_append, List.take_append_drop]
        have shorter (n : Nat) : (rest.drop n).length < (c :: rest).length := by
          rw [List.length_drop, List.length_cons]
          omega
        cases ht : trivia? c rest with
        | some n =>
          obtain ⟨ht', hle⟩ := trivia?_line hb ht more
          rw [scan_trivia ht] at h
          rw [List.cons_append, scan_trivia ht', List.take_append_of_le_length hle,
            List.drop_append_of_le_length hle, ih _ (shorter n) h hc rfl, whole hle]
        | none =>
          cases hw : word? c rest with
          | none =>
            rw [scan, ht, hw] at h
            cases h
          | some r =>
            obtain ⟨kind, text, n⟩ := r
            obtain ⟨hw', hle⟩ := word?_line hw more
            rw [scan_word ht hw] at h
            cases hs : scan (offset + byteLength (c :: rest.take n)) (rest.drop n) with
            | error e =>
              rw [hs] at h
              cases h
            | ok ls' =>
              rw [hs] at h
              cases h
              simp only [calm, Bool.and_eq_true] at hc
              have ht' : trivia? c (rest ++ '\n' :: more) = none := by
                refine trivia?_none_line ht ?_ more
                rintro rfl hstar
                obtain ⟨after, rfl⟩ := List.head?_eq_some_iff.1 hstar
                cases (word?_slash after).symm.trans hw
                obtain ⟨l, ls'', rfl, hl⟩ := exists_star hs
                have bad : calm true (l :: ls'') = true := hc.2
                simp [calm, hl] at bad
              rw [List.cons_append, scan_word ht' hw', List.take_append_of_le_length hle,
                List.drop_append_of_le_length hle, ih _ (shorter n) hs hc.2 rfl, whole hle]
              cases scan (offset + byteLength (c :: rest)) ('\n' :: more) <;> rfl

end Stencil.Source
