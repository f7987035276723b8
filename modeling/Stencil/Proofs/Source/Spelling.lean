import Mathlib.Data.List.Find
import Stencil.Source.Scanner

/-!
# Words and how they are spelled

A word is a lexeme without its place, and `words?` the words of a text. A printed text is put
together from pieces, so the question here is what may follow a piece without being drawn into its
last word: `Spells cs ws` says that `cs` reads as `ws` whenever a break follows, `Closed cs ws` that
it does whatever follows.

Results:

* `words?_trivia`, `words?_word` – a text is read one step at a time, wherever it starts;
* `genuine_of_scan` – what the scanner can return as a word;
* `spells_spelling` – a word of varying text reads back from its spelling before a break;
* `closed_of_guarded` – a text that ends in a blank or a delimiter keeps its words whatever
  follows, so the fixed parts of a layout are decided by running the scanner on them alone.
-/
namespace Stencil.Source

/-- A lexeme without its place. -/
abbrev Word := LexemeKind × String

def Lexeme.word (l : Lexeme) : Word := (l.kind, l.text)

/-- The words of a text. -/
def words? (cs : List Char) : Option (List Word) :=
  (scan 0 cs).toOption.map (·.map Lexeme.word)

/-- Where a text starts makes no difference to its words. -/
theorem words_scan (offset : Nat) (cs : List Char) :
    (scan offset cs).toOption.map (·.map Lexeme.word) = words? cs := by
  unfold words?
  generalize 0 = other
  fun_induction scan offset cs generalizing other with
  | case1 => rw [scan.eq_def other]
  | case2 offset c rest n ht ih =>
    rw [scan.eq_def other]
    simpa [ht] using ih _
  | case3 offset c rest ht kind text n hw stop more hm ih =>
    rw [scan.eq_def other]
    specialize ih (other + byteLength (c :: rest.take n))
    rw [hm] at ih
    cases hs : scan (other + byteLength (c :: rest.take n)) (rest.drop n) with
    | error e => simp [hs, Except.toOption] at ih
    | ok more' =>
      simp only [hs, Except.toOption, Option.map_some, Option.some.injEq] at ih
      simp [ht, hw, hs, Except.toOption, ih, Lexeme.word]
  | case4 offset c rest ht kind text n hw stop e hm ih =>
    rw [scan.eq_def other]
    specialize ih (other + byteLength (c :: rest.take n))
    rw [hm] at ih
    cases hs : scan (other + byteLength (c :: rest.take n)) (rest.drop n) with
    | error e => simp [ht, hw, hs, Except.toOption]
    | ok more' => simp [hs, Except.toOption] at ih
  | case5 offset c rest ht hw =>
    rw [scan.eq_def other]
    simp [ht, hw, Except.toOption]

@[simp] theorem words?_nil : words? [] = some [] := by
  simp [words?, scan, Except.toOption]

theorem words?_trivia {c : Char} {rest : List Char} {n : Nat} (h : trivia? c rest = some n) :
    words? (c :: rest) = words? (rest.drop n) := by
  rw [words?, scan]
  simpa [h] using words_scan _ (rest.drop n)

theorem words?_word {c : Char} {rest : List Char} {kind : LexemeKind} {text : String} {n : Nat}
    (ht : trivia? c rest = none) (hw : word? c rest = some (kind, text, n)) :
    words? (c :: rest) = (words? (rest.drop n)).map ((kind, text) :: ·) := by
  rw [words?, scan, ← words_scan (0 + byteLength (c :: rest.take n)) (rest.drop n)]
  simp only [ht, hw]
  cases scan (0 + byteLength (c :: rest.take n)) (rest.drop n) <;>
    simp [Except.toOption, Lexeme.word]

theorem words?_none {c : Char} {rest : List Char} (ht : trivia? c rest = none)
    (hw : word? c rest = none) : words? (c :: rest) = none := by
  rw [words?, scan]
  simp [ht, hw, Except.toOption]

/-! ## Characters -/

theorem mem_codes_of_inRanges {ranges : List (Nat × Nat)} {c : Char}
    (h : Text.inRanges ranges c = true) :
    c.toNat ∈ ranges.flatMap fun r => List.range' r.1 (r.2 + 1 - r.1) := by
  obtain ⟨r, hr, hl, hu⟩ := Text.inRanges_iff.1 h
  exact List.mem_flatMap.2 ⟨r, hr, List.mem_range'_1.2 ⟨hl, by omega⟩⟩

/-- A blank is none of the characters that words are made of. -/
theorem not_isNameRest_of_isBlank {c : Char} (h : Text.isBlank c = true) : isNameRest c = false := by
  have codes : ∀ n ∈ Text.blankRanges.flatMap fun r => List.range' r.1 (r.2 + 1 - r.1),
      isNameRest (Char.ofNat n) = false := by decide +kernel
  simpa using codes _ (mem_codes_of_inRanges h)

/-- The characters that words and layouts are made of beside blanks, names and numbers. -/
def marks : List Char :=
  ['.', '+', '-', '!', '=', '<', '>', '/', '"', '\'', '(', ')', '\x7b', '\x7d', '[', ']', ';', ',',
    ':', '?']

theorem outside_of_mem_marks {c : Char} (h : c ∈ marks) :
    Text.isBlank c = false ∧ isNameRest c = false := by
  have each : marks.all (fun c => !Text.isBlank c && !isNameRest c) = true := by decide +kernel
  simpa using List.all_eq_true.1 each c h

theorem isNameRest_of_isNameStart {c : Char} (h : isNameStart c = true) : isNameRest c = true := by
  simp only [isNameStart, Bool.or_eq_true] at h
  rcases h with h | h <;> simp [isNameRest, Text.isAlphanumeric, h]

theorem isNameRest_of_isDigit {c : Char} (h : c.isDigit = true) : isNameRest c = true := by
  simp [isNameRest, Text.isAlphanumeric, Text.isNumeric_of_isDigit h]

theorem not_isNameStart_of_isDigit {c : Char} (h : c.isDigit = true) : isNameStart c = false := by
  have digits : ∀ n ∈ List.range' 48 10, isNameStart (Char.ofNat n) = false := by decide
  simp only [Char.isDigit, Bool.and_eq_true, decide_eq_true_eq] at h
  have bounds : 48 ≤ c.toNat ∧ c.toNat ≤ 57 := ⟨h.1, h.2⟩
  simpa using digits c.toNat (List.mem_range'_1.2 (by omega))

theorem trivia?_blank {c : Char} (h : Text.isBlank c = true) (rest : List Char) :
    trivia? c rest = some (rest.takeWhile Text.isBlank).length := by
  simp [trivia?, h]

theorem trivia?_none {c : Char} (h : Text.isBlank c = false) (hc : c ≠ '/') (rest : List Char) :
    trivia? c rest = none := by
  unfold trivia?
  simp [h, hc]

/-- Blanks are skipped one by one. -/
theorem words?_blank {c : Char} (h : Text.isBlank c = true) (rest : List Char) :
    words? (c :: rest) = words? rest := by
  have run {c : Char} (h : Text.isBlank c = true) (rest : List Char) :
      words? (c :: rest) = words? (rest.dropWhile Text.isBlank) := by
    rw [words?_trivia (trivia?_blank h rest)]
    conv => lhs; arg 1; arg 2; rw [← List.takeWhile_append_dropWhile (p := Text.isBlank) (l := rest)]
    rw [List.drop_left]
  rw [run h]
  cases rest with
  | nil => rfl
  | cons d rest =>
    cases hd : Text.isBlank d with
    | true => rw [List.dropWhile_cons_of_pos hd, run hd]
    | false => rw [List.dropWhile_cons_of_neg (by simp [hd])]

/-! ## Breaks -/

/-- Whether a word that stands before these characters ends there. -/
def breaks : List Char → Bool
  | [] => true
  | '.' :: c :: _ => isNameStart c
  | '+' :: '+' :: _ | '-' :: '-' :: _ => true
  | c :: _ => Text.isBlank c || [')', ']', ',', ';', ':', '(', '[', '<', '>'].contains c

/-- `cs` reads as `ws` whenever a break follows. -/
def Spells (cs : List Char) (ws : List Word) : Prop :=
  ∀ rest, breaks rest = true → words? (cs ++ rest) = (words? rest).map (ws ++ ·)

/-- `cs` reads as `ws` whatever follows. -/
def Closed (cs : List Char) (ws : List Word) : Prop :=
  ∀ rest, words? (cs ++ rest) = (words? rest).map (ws ++ ·)

theorem not_isNameRest_of_breaks {c : Char} {rest : List Char} (h : breaks (c :: rest) = true) :
    isNameRest c = false := by
  unfold breaks at h
  split at h
  · contradiction
  · next heq => cases heq; exact (outside_of_mem_marks (by simp [marks])).2
  · next heq => cases heq; exact (outside_of_mem_marks (by simp [marks])).2
  · next heq => cases heq; exact (outside_of_mem_marks (by simp [marks])).2
  · next heq =>
    cases heq
    simp only [Bool.or_eq_true, List.contains_iff_mem] at h
    cases h with
    | inl h => exact not_isNameRest_of_isBlank h
    | inr h =>
      have inside : [')', ']', ',', ';', ':', '(', '[', '<', '>'] ⊆ marks := by simp [marks]
      exact (outside_of_mem_marks (inside h)).2

/-- A run of characters that a break ends. -/
theorem takeWhile_append_of_breaks {p : Char → Bool} {more rest : List Char}
    (hm : more.all p = true) (hp : ∀ c, p c = true → isNameRest c = true)
    (hr : breaks rest = true) :
    (more ++ rest).takeWhile p = more ∧ (more ++ rest).dropWhile p = rest := by
  have hm : ∀ c ∈ more, p c = true := List.all_eq_true.1 hm
  rw [List.takeWhile_append_of_pos hm, List.dropWhile_append_of_pos hm]
  cases rest with
  | nil => simp
  | cons c rest =>
    have : ¬ p c = true := fun h => by simpa [hp c h] using not_isNameRest_of_breaks hr
    simp [this]

/-! ## Words of varying text -/

/-- What the scanner can return as a word. -/
def Genuine : Word → Prop
  | (.ident, text) =>
    ∃ c more, text = String.ofList (c :: more) ∧ isNameStart c = true ∧ more.all isNameRest = true
  | (.int, text) => ∃ c more, text = String.ofList (c :: more) ∧ (c :: more).all Char.isDigit = true
  | (.float, text) =>
    ∃ c whole d fraction, text = String.ofList (c :: whole ++ '.' :: d :: fraction) ∧
      (c :: whole).all Char.isDigit = true ∧ (d :: fraction).all Char.isDigit = true
  | (.string, _) => True
  | (.char, text) => ∃ c : Char, text = c.toString
  | (.punct, text) => text.toList ∈ punctuation
  | (.eof, _) => False

theorem genuine_of_word? {c : Char} {rest : List Char} {kind : LexemeKind} {text : String} {n : Nat}
    (h : word? c rest = some (kind, text, n)) : Genuine (kind, text) := by
  unfold word? at h
  split at h
  · next hs =>
    cases h
    exact ⟨c, _, rfl, hs, List.all_takeWhile⟩
  · split at h
    · next hd =>
      unfold numberRest at h
      dsimp only at h
      split at h
      · next after ha =>
        split at h
        · cases h
          exact ⟨c, _, rfl, by simp only [List.all_cons, hd, List.all_takeWhile, Bool.and_self]⟩
        · next hf =>
          cases h
          cases hw : after.takeWhile Char.isDigit with
          | nil => simp [hw] at hf
          | cons d fraction =>
            refine ⟨c, _, d, fraction, rfl, ?_, ?_⟩
            · simp only [List.all_cons, hd, List.all_takeWhile, Bool.and_self]
            rw [← hw]
            exact List.all_takeWhile
      · cases h
        exact ⟨c, _, rfl, by simp only [List.all_cons, hd, List.all_takeWhile, Bool.and_self]⟩
    · split at h
      · obtain ⟨⟨value, m⟩, _, hv⟩ := Option.map_eq_some_iff.1 h
        cases hv
        trivial
      · split at h
        · split at h
          · cases h
            exact ⟨_, rfl⟩
          · contradiction
        · obtain ⟨p, hp, hv⟩ := Option.map_eq_some_iff.1 h
          cases hv
          simpa [Genuine] using List.mem_of_find?_eq_some hp

theorem genuine_of_scan {offset : Nat} {cs : List Char} {ls : List Lexeme}
    (h : scan offset cs = .ok ls) : ∀ l ∈ ls, Genuine l.word := by
  fun_induction scan offset cs generalizing ls with
  | case1 => cases h; simp
  | case2 offset c rest n ht ih => exact ih h
  | case3 offset c rest ht kind text n hw stop more hm =>
    rename_i ih
    cases h
    intro l hl
    cases hl with
    | head => exact genuine_of_word? hw
    | tail _ hl => exact ih hm l hl
  | case4 => cases h
  | case5 => cases h

/-- The characters a word is written with. -/
def spelling : Word → List Char
  | (.string, text) => (Quoted.write '"' text).toList
  | (.char, text) => (Quoted.write '\'' text).toList
  | (_, text) => text.toList

theorem spells_of_word? {c : Char} {more : List Char} {kind : LexemeKind} {text : String}
    (hc : Text.isBlank c = false) (hs : c ≠ '/')
    (hw : ∀ rest, breaks rest = true → word? c (more ++ rest) = some (kind, text, more.length)) :
    Spells (c :: more) [(kind, text)] := by
  intro rest hr
  rw [List.cons_append, words?_word (trivia?_none hc hs _) (hw rest hr), List.drop_left]
  rfl

theorem not_isBlank_of_isNameRest {c : Char} (h : isNameRest c = true) :
    Text.isBlank c = false := by
  cases hb : Text.isBlank c with
  | false => rfl
  | true => exact absurd (not_isNameRest_of_isBlank hb) (by simp [h])

theorem not_isNameStart_of_mem_marks {c : Char} (h : c ∈ marks) : isNameStart c = false := by
  cases hc : isNameStart c with
  | false => rfl
  | true => simpa [(outside_of_mem_marks h).2] using isNameRest_of_isNameStart hc

theorem ne_slash_of_isNameRest {c : Char} (h : isNameRest c = true) : c ≠ '/' := by
  rintro rfl
  simp [(outside_of_mem_marks (c := '/') (by simp [marks])).2] at h

theorem spells_name {c : Char} {more : List Char} (hc : isNameStart c = true)
    (hm : more.all isNameRest = true) :
    Spells (c :: more) [(.ident, String.ofList (c :: more))] := by
  have hn := isNameRest_of_isNameStart hc
  refine spells_of_word? (not_isBlank_of_isNameRest hn) (ne_slash_of_isNameRest hn)
    fun rest hr => ?_
  simp [word?, hc, (takeWhile_append_of_breaks hm (fun _ h => h) hr).1]

theorem numberRest_whole {whole rest : List Char} (hw : whole.all Char.isDigit = true)
    (hr : breaks rest = true) : numberRest (whole ++ rest) = (false, whole) := by
  have cut := takeWhile_append_of_breaks hw (fun _ => isNameRest_of_isDigit) hr
  unfold numberRest
  rw [cut.1, cut.2]
  split
  · next after =>
    cases after with
    | nil => simp
    | cons d after =>
      have : d.isDigit = false := by
        cases hd : d.isDigit with
        | false => rfl
        | true => exact absurd hr (by simp [breaks, not_isNameStart_of_isDigit hd])
      simp [this]
  · rfl

theorem numberRest_fraction {whole fraction rest : List Char} {d : Char}
    (hw : whole.all Char.isDigit = true) (hf : (d :: fraction).all Char.isDigit = true)
    (hr : breaks rest = true) :
    numberRest (whole ++ '.' :: d :: fraction ++ rest) = (true, whole ++ '.' :: d :: fraction) := by
  have hw : ∀ c ∈ whole, c.isDigit = true := List.all_eq_true.1 hw
  have cut := (takeWhile_append_of_breaks hf (fun _ => isNameRest_of_isDigit) hr).1
  rw [List.cons_append] at cut
  have point : ('.' :: (d :: fraction ++ rest)).takeWhile Char.isDigit = [] := rfl
  unfold numberRest
  rw [List.append_assoc, List.cons_append, List.takeWhile_append_of_pos hw,
    List.dropWhile_append_of_pos hw, point]
  show (match '.' :: (d :: fraction ++ rest) with | _ => _) = _
  simp [cut]

theorem not_isNameStart_doubleQuote : isNameStart '"' = false :=
  not_isNameStart_of_mem_marks (by simp [marks])

theorem not_isNameStart_quote : isNameStart '\'' = false :=
  not_isNameStart_of_mem_marks (by simp [marks])

/-- A string literal ends at its closing quote, whatever follows. -/
theorem word?_string (text : String) (rest : List Char) :
    word? '"' (Quoted.encode '"' text.toList ++ '"' :: rest) =
      some (.string, text, (Quoted.encode '"' text.toList).length + 1) := by
  simp [word?, not_isNameStart_doubleQuote, Quoted.decode_encode]

theorem word?_char (c : Char) (rest : List Char) :
    word? '\'' (Quoted.encode '\'' [c] ++ '\'' :: rest) =
      some (.char, c.toString, (Quoted.encode '\'' [c]).length + 1) := by
  simp [word?, not_isNameStart_quote, Quoted.decode_encode]

/-- A word of varying text reads back from its spelling before a break. -/
theorem spells_spelling {w : Word} (hw : Genuine w) (hp : w.1 ≠ .punct) :
    Spells (spelling w) [w] := by
  obtain ⟨kind, text⟩ := w
  cases kind with
  | ident =>
    obtain ⟨c, more, rfl, hc, hm⟩ := hw
    simpa [spelling] using spells_name hc hm
  | int =>
    obtain ⟨c, more, rfl, hm⟩ := hw
    simp only [List.all_cons, Bool.and_eq_true] at hm
    have hn := isNameRest_of_isDigit hm.1
    have : Spells (c :: more) [(.int, String.ofList (c :: more))] := by
      refine spells_of_word? (not_isBlank_of_isNameRest hn)
        (ne_slash_of_isNameRest hn) fun rest hr => ?_
      simp [word?, not_isNameStart_of_isDigit hm.1, hm.1, numberRest_whole hm.2 hr]
    simpa [spelling] using this
  | float =>
    obtain ⟨c, whole, d, fraction, rfl, hm, hf⟩ := hw
    simp only [List.all_cons, Bool.and_eq_true] at hm
    have hn := isNameRest_of_isDigit hm.1
    have : Spells (c :: (whole ++ '.' :: d :: fraction))
        [(.float, String.ofList (c :: (whole ++ '.' :: d :: fraction)))] := by
      refine spells_of_word? (not_isBlank_of_isNameRest hn)
        (ne_slash_of_isNameRest hn) fun rest hr => ?_
      simp only [word?, not_isNameStart_of_isDigit hm.1, hm.1, numberRest_fraction hm.2 hf hr]
      simp
    simpa [spelling] using this
  | string =>
    have : Spells ('"' :: (Quoted.encode '"' text.toList ++ ['"'])) [(.string, text)] := by
      have inside : '"' ∈ marks := by simp [marks]
      refine spells_of_word? (outside_of_mem_marks inside).1 (by decide) fun rest hr => ?_
      simpa using word?_string text rest
    simpa [spelling, Quoted.write] using this
  | char =>
    obtain ⟨c, rfl⟩ := hw
    have : Spells ('\'' :: (Quoted.encode '\'' [c] ++ ['\''])) [(.char, c.toString)] := by
      have inside : '\'' ∈ marks := by simp [marks]
      refine spells_of_word? (outside_of_mem_marks inside).1 (by decide) fun rest hr => ?_
      simpa using word?_char c rest
    simpa [spelling, Quoted.write] using this
  | punct => contradiction
  | eof => exact hw.elim

/-! ## Fixed texts -/

/-- The marks that are a word of their own, whatever follows. -/
def delimiters : List Char := ['(', ')', '\x7b', '\x7d', '[', ']', ';', ',', ':', '?']

/-- Blanks and delimiters. -/
def isGuard (c : Char) : Bool := Text.isBlank c || delimiters.contains c

/-- Whether the last character, if there is one, is a guard. -/
def guarded (cs : List Char) : Bool := cs.getLast?.all isGuard

/-- Whether a comment begins somewhere. -/
def hasComment : List Char → Bool
  | '/' :: '/' :: _ | '/' :: '*' :: _ => true
  | _ :: rest => hasComment rest
  | [] => false

theorem not_isNameRest_of_isGuard {c : Char} (h : isGuard c = true) : isNameRest c = false := by
  simp only [isGuard, Bool.or_eq_true, List.contains_iff_mem] at h
  cases h with
  | inl h => exact not_isNameRest_of_isBlank h
  | inr h =>
    have inside : delimiters ⊆ marks := by simp [delimiters, marks]
    exact (outside_of_mem_marks (inside h)).2

/-- A guarded text is one guard or goes on after its first character. -/
theorem guarded_cons {c : Char} {rest : List Char} (h : guarded (c :: rest) = true) :
    guarded rest = true ∧ (rest = [] → isGuard c = true) := by
  cases rest with
  | nil => simpa [guarded] using h
  | cons d rest =>
    rw [guarded, List.getLast?_cons_cons] at h
    exact ⟨h, nofun⟩

theorem guarded_drop {cs : List Char} (h : guarded cs = true) (n : Nat) :
    guarded (cs.drop n) = true := by
  induction n generalizing cs with
  | zero => exact h
  | succ n ih =>
    cases cs with
    | nil => exact h
    | cons c cs => exact ih (guarded_cons h).1

theorem hasComment_drop {cs : List Char} (h : hasComment cs = false) (n : Nat) :
    hasComment (cs.drop n) = false := by
  induction n generalizing cs with
  | zero => exact h
  | succ n ih =>
    cases cs with
    | nil => exact h
    | cons c cs =>
      refine ih ?_
      unfold hasComment at h
      split at h <;> simp_all

/-- What follows a guarded text does not lengthen a run inside it. -/
theorem takeWhile_append_of_guarded {p : Char → Bool} (hp : ∀ c, p c = true → isNameRest c = true)
    {cs : List Char} (h : guarded cs = true) (hne : cs ≠ []) (more : List Char) :
    (cs ++ more).takeWhile p = cs.takeWhile p ∧
      (cs ++ more).dropWhile p = cs.dropWhile p ++ more ∧ cs.dropWhile p ≠ [] ∧
      guarded (cs.dropWhile p) = true := by
  induction cs with
  | nil => contradiction
  | cons c cs ih =>
    cases hc : p c with
    | false => simp [hc, h]
    | true =>
      have inner : cs ≠ [] := fun he => by
        have := not_isNameRest_of_isGuard ((guarded_cons h).2 he)
        simp [hp c hc] at this
      simpa [hc] using ih (guarded_cons h).1 inner

theorem decode_append {quote : Char} {cs value : List Char} {n : Nat}
    (h : Quoted.decode quote cs = some (value, n)) (more : List Char) :
    Quoted.decode quote (cs ++ more) = some (value, n) ∧ n ≤ cs.length := by
  fun_induction Quoted.decode quote cs generalizing value n with
  | case1 => contradiction
  | case2 rest =>
    cases h
    rw [List.cons_append, Quoted.decode.eq_def]
    simp
  | case3 => contradiction
  | case4 hq e rest ih =>
    obtain ⟨⟨value', m⟩, hm, hv⟩ := Option.map_eq_some_iff.1 h
    cases hv
    have := ih hm
    rw [List.cons_append, Quoted.decode.eq_def]
    simp_all
  | case5 c rest hq hs ih =>
    obtain ⟨⟨value', m⟩, hm, hv⟩ := Option.map_eq_some_iff.1 h
    cases hv
    have := ih hm
    rw [List.cons_append, Quoted.decode.eq_def]
    simp_all

theorem numberRest_append {cs : List Char} (h : guarded cs = true) (hne : cs ≠ [])
    (more : List Char) :
    numberRest (cs ++ more) = numberRest cs ∧ (numberRest cs).2.length ≤ cs.length := by
  have digits : ∀ c : Char, c.isDigit = true → isNameRest c = true := fun _ => isNameRest_of_isDigit
  obtain ⟨ht, hd, hdne, hg⟩ := takeWhile_append_of_guarded digits h hne more
  have whole := cs.takeWhile_append_dropWhile (p := Char.isDigit)
  have bound := congrArg List.length whole
  simp only [List.length_append] at bound
  unfold numberRest
  rw [ht, hd]
  cases hcs : cs.dropWhile Char.isDigit with
  | nil => exact absurd hcs hdne
  | cons c after =>
    rw [hcs] at hg bound
    by_cases hc : c = '.'
    · subst hc
      have inner : after ≠ [] := fun he => absurd ((guarded_cons hg).2 he) (by decide)
      have stop := (takeWhile_append_of_guarded digits (guarded_cons hg).1 inner more).1
      have fits := (List.takeWhile_prefix Char.isDigit (l := after)).length_le
      simp only [List.length_cons] at bound
      simp only [List.cons_append, stop]
      refine ⟨trivial, ?_⟩
      split
      · dsimp only; omega
      · simp only [List.length_append, List.length_cons]; omega
    · simp [hc]
      omega

theorem find?_punctuation_append {c : Char} {rest : List Char} (h : guarded (c :: rest) = true)
    (hb : Text.isBlank c = false) (more : List Char) :
    punctuation.find? (·.isPrefixOf (c :: (rest ++ more))) =
      punctuation.find? (·.isPrefixOf (c :: rest)) := by
  have agree : ∀ p ∈ punctuation,
      p.isPrefixOf (c :: (rest ++ more)) = p.isPrefixOf (c :: rest) := by
    intro p hp
    cases rest with
    | nil =>
      -- a guard begins no operator of two characters
      have hc := (guarded_cons h).2 rfl
      simp only [isGuard, hb, Bool.false_or, List.contains_iff_mem] at hc
      have alone : punctuation.all (fun p => p.tail.isEmpty || !delimiters.contains (p.headD ' ')) =
          true := by decide
      cases p with
      | nil => rfl
      | cons a p =>
        by_cases ha : a = c
        · subst ha
          have := List.all_eq_true.1 alone _ hp
          simp_all
        · have ha : (a == c) = false := by simpa using ha
          simp [List.isPrefixOf, ha]
    | cons d rest =>
      have short : ∀ p ∈ punctuation, p.length ≤ 2 := by decide
      have := short p hp
      match p, this with
      | [], _ | [_], _ | [_, _], _ => simp [List.isPrefixOf]
  exact List.find?_congr agree

/-- The first word of a guarded text stays what it is when the text goes on. -/
theorem word?_append {c : Char} {rest : List Char} {kind : LexemeKind} {text : String} {n : Nat}
    (h : guarded (c :: rest) = true) (hb : Text.isBlank c = false)
    (hw : word? c rest = some (kind, text, n)) (more : List Char) :
    word? c (rest ++ more) = some (kind, text, n) ∧ n ≤ rest.length := by
  have inner (hc : isNameRest c = true) : rest ≠ [] := fun he => by
    simp [not_isNameRest_of_isGuard ((guarded_cons h).2 he)] at hc
  unfold word? at hw ⊢
  split at hw
  · next hc =>
    have run := takeWhile_append_of_guarded (p := isNameRest) (fun _ h => h) (guarded_cons h).1
      (inner (isNameRest_of_isNameStart hc)) more
    cases hw
    simp [hc, run.1, (List.takeWhile_prefix isNameRest (l := rest)).length_le]
  · next hc =>
    split at hw
    · next hd =>
      have run := numberRest_append (guarded_cons h).1 (inner (isNameRest_of_isDigit hd)) more
      generalize numberRest rest = r at hw run
      obtain ⟨fraction, digits⟩ := r
      cases hw
      simp [hc, hd, run.1]
      exact run.2
    · next hd =>
      split at hw
      · next hq =>
        obtain ⟨⟨value, m⟩, hm, hv⟩ := Option.map_eq_some_iff.1 hw
        cases hv
        subst hq
        simp [hc, hd, decode_append hm more]
      · next hq =>
        split at hw
        · next hs =>
          split at hw
          · next value m hm =>
            cases hw
            subst hs
            simp [hc, hd, decode_append hm more]
          · contradiction
        · next hs =>
          obtain ⟨p, hp, hv⟩ := Option.map_eq_some_iff.1 hw
          cases hv
          have fits := List.find?_some hp
          simp only [List.isPrefixOf_iff_prefix] at fits
          have fits := fits.length_le
          simp only [List.length_cons] at fits
          simp only [hc, hd, hq, hs, find?_punctuation_append h hb, hp]
          simp
          omega

theorem trivia?_append {c : Char} {rest : List Char} (h : guarded (c :: rest) = true)
    (hc : hasComment (c :: rest) = false) (hb : Text.isBlank c = false) (more : List Char) :
    trivia? c (rest ++ more) = none := by
  by_cases hs : c = '/'
  · subst hs
    cases rest with
    | nil => exact absurd ((guarded_cons h).2 rfl) (by decide)
    | cons d rest =>
      have h1 : d ≠ '/' := by rintro rfl; simp [hasComment] at hc
      have h2 : d ≠ '*' := by rintro rfl; simp [hasComment] at hc
      simp [trivia?, hb, h1, h2]
  · exact trivia?_none hb hs _

/-- A text that ends in a guard and holds no comment keeps its words whatever follows. -/
theorem closed_of_guarded {cs : List Char} {ws : List Word} (h : guarded cs = true)
    (hc : hasComment cs = false) (hw : words? cs = some ws) : Closed cs ws := by
  intro more
  induction hn : cs.length using Nat.strongRecOn generalizing cs ws with
  | ind n ih =>
    subst hn
    cases cs with
    | nil =>
      cases words?_nil.symm.trans hw
      simp
    | cons c rest =>
      cases hb : Text.isBlank c with
      | true =>
        rw [words?_blank hb] at hw
        rw [List.cons_append, words?_blank hb]
        exact ih rest.length (by simp) (guarded_cons h).1 (hasComment_drop hc 1) hw rfl
      | false =>
        have here : trivia? c rest = none := by simpa using trivia?_append h hc hb []
        cases hr : word? c rest with
        | none => simp [words?_none here hr] at hw
        | some r =>
          obtain ⟨kind, text, n⟩ := r
          obtain ⟨hr', hn⟩ := word?_append h hb hr more
          rw [words?_word here hr] at hw
          obtain ⟨ws', hw', rfl⟩ := Option.map_eq_some_iff.1 hw
          rw [List.cons_append, words?_word (trivia?_append h hc hb more) hr',
            List.drop_append_of_le_length hn,
            ih (rest.drop n).length (by rw [List.length_drop, List.length_cons]; omega)
              (guarded_drop (guarded_cons h).1 n) (hasComment_drop hc (n + 1)) hw' rfl]
          cases words? more <;> rfl

end Stencil.Source
