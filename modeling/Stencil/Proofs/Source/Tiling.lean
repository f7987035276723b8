import Mathlib.Data.List.TakeWhile
import Stencil.Proofs.Source.Appending
import Stencil.Text.Slice

/-!
# The lexemes of a text tile it

What the scanner returns is compared here with a description that does not scan. A text is a row of
words with gaps between them. `Filler` says what a gap may hold, `Spelled` how a word of each kind
is written, and `Tiled` puts the two in a row, with the bytes counted along it. Words that stand
without quotes are moreover as long as they can be.

Results:

* `filler_trivia` – what is skipped is a blank run, a line comment or a closed comment;
* `spelled_of_word?` – a word is spelled by the characters it takes;
* `tiled_scan`, `tokenize_tiles` – so the lexemes of a text tile it.
-/
namespace Stencil.Source

/-! ## Gaps -/

/-- What may stand between two words, before the text that follows. A line comment lasts to the end
of its line, and a block comment to the first mark that closes it. -/
inductive Filler : List Char → List Char → Prop
  | nil (after : List Char) : Filler [] after
  | blank {c : Char} {gap after : List Char} (hc : Text.isBlank c = true)
    (more : Filler gap after) : Filler (c :: gap) after
  | line {body gap after : List Char} (inside : '\n' ∉ body)
    (stop : ∀ c ∈ (gap ++ after).head?, c = '\n') (more : Filler gap after) :
    Filler ('/' :: '/' :: body ++ gap) after
  | block {body gap after : List Char} (inside : ¬['*', '/'] <:+: body ++ ['*'])
    (more : Filler gap after) : Filler ('/' :: '*' :: body ++ '*' :: '/' :: gap) after

theorem filler_blanks {cs gap after : List Char} (h : cs.all Text.isBlank = true)
    (more : Filler gap after) : Filler (cs ++ gap) after := by
  induction cs with
  | nil => exact more
  | cons c cs ih =>
    simp only [List.all_cons, Bool.and_eq_true] at h
    exact .blank h.1 (ih h.2)

/-- A comment ends at the first mark that closes it. -/
theorem commentEnd_eq_some {cs : List Char} {n : Nat} (h : commentEnd cs = some n) :
    ∃ body after, cs = body ++ '*' :: '/' :: after ∧ n = body.length + 2 ∧
      ¬['*', '/'] <:+: body ++ ['*'] := by
  fun_induction commentEnd cs generalizing n with
  | case1 after =>
    cases h
    exact ⟨[], after, rfl, rfl, by decide⟩
  | case2 c rest hne ih =>
    obtain ⟨m, hm, rfl⟩ := Option.map_eq_some_iff.1 h
    obtain ⟨body, after, rfl, rfl, inside⟩ := ih hm
    refine ⟨c :: body, after, rfl, by simp, fun hin => ?_⟩
    rcases List.infix_cons_iff.1 hin with hpre | hin
    · obtain ⟨rfl, hslash⟩ := List.cons_prefix_cons.1 hpre
      cases body with
      | nil => simp at hslash
      | cons d body =>
        obtain ⟨rfl, -⟩ := List.cons_prefix_cons.1 hslash
        exact hne (body ++ '*' :: '/' :: after) rfl rfl
    · exact inside hin
  | case3 => cases h

theorem take_takeWhile (p : Char → Bool) (cs : List Char) :
    cs.take (cs.takeWhile p).length = cs.takeWhile p :=
  (List.prefix_iff_eq_take.1 (List.takeWhile_prefix p)).symm

theorem drop_takeWhile (p : Char → Bool) (cs : List Char) :
    cs.drop (cs.takeWhile p).length = cs.dropWhile p := by
  have whole := congrArg (List.drop (cs.takeWhile p).length)
    (cs.takeWhile_append_dropWhile (p := p))
  rwa [List.drop_left, eq_comm] at whole

/-- What the scanner skips fills a gap, together with what it skips after that. -/
theorem filler_trivia {c : Char} {rest : List Char} {n : Nat} (h : trivia? c rest = some n)
    {gap after : List Char} (hsplit : rest.drop n = gap ++ after) (more : Filler gap after) :
    Filler (c :: rest.take n ++ gap) after := by
  unfold trivia? at h
  split at h
  -- a blank run
  · next hb =>
    cases h
    rw [take_takeWhile]
    exact .blank hb (filler_blanks List.all_takeWhile more)
  split at h
  -- a line comment stops right before a line break or the end
  · next body _ =>
    cases h
    rw [Nat.add_comm, List.drop_succ_cons, drop_takeWhile] at hsplit
    rw [Nat.add_comm, List.take_succ_cons, take_takeWhile]
    refine .line (fun hin => ?_) (fun d hd => ?_) more
    · simpa using List.mem_takeWhile_imp hin
    · have first := List.head?_dropWhile_not (· != '\n') body
      rw [hsplit, hd] at first
      simpa using first
  · next body _ =>
    obtain ⟨m, hm, rfl⟩ := Option.map_eq_some_iff.1 h
    obtain ⟨inner, rest, rfl, rfl, inside⟩ := commentEnd_eq_some hm
    have closed : inner ++ '*' :: '/' :: rest = inner ++ ['*', '/'] ++ rest := by simp
    rw [List.take_succ_cons, closed, List.take_left' (by simp)]
    rw [List.drop_succ_cons, closed, List.drop_left' (by simp)] at hsplit
    simpa using Filler.block inside more
  · cases h

/-! ## Words -/

/-- The kinds of words that stand without quotes. -/
def LexemeKind.isBare : LexemeKind → Bool
  | .ident | .int | .float | .punct => true
  | .string | .char | .eof => false

/-- Whether `cs` is a word of the class of that kind. Whole numbers and fractions are one class. -/
def InClass : LexemeKind → List Char → Prop
  | .int, cs | .float, cs =>
    Genuine (.int, String.ofList cs) ∨ Genuine (.float, String.ofList cs)
  | kind, cs => Genuine (kind, String.ofList cs)

/-- No longer beginning of the text is a word of that class. -/
def Longest (kind : LexemeKind) (cs after : List Char) : Prop :=
  ∀ ds, ds <+: cs ++ after → InClass kind ds → ds.length ≤ cs.length

/-- What stands between quotes, and the value it stands for. -/
inductive Unescapes (quote : Char) : List Char → List Char → Prop
  | nil : Unescapes quote [] []
  | plain {c : Char} {body value : List Char} (hq : c ≠ quote) (hb : c ≠ '\\')
    (more : Unescapes quote body value) : Unescapes quote (c :: body) (c :: value)
  | escaped {c : Char} {body value : List Char} (more : Unescapes quote body value) :
    Unescapes quote ('\\' :: c :: body) (Quoted.unescape c :: value)

/-- How a word of a kind and a text is written, before the text that follows. -/
inductive Spelled : LexemeKind → String → List Char → List Char → Prop
  | bare {kind : LexemeKind} {cs after : List Char} (hk : kind.isBare = true)
    (genuine : Genuine (kind, String.ofList cs)) (longest : Longest kind cs after) :
    Spelled kind (String.ofList cs) cs after
  | string {body value after : List Char} (inside : Unescapes '"' body value) :
    Spelled .string (String.ofList value) ('"' :: body ++ ['"']) after
  | char {body after : List Char} {c : Char} (inside : Unescapes '\'' body [c]) :
    Spelled .char c.toString ('\'' :: body ++ ['\'']) after

theorem ne_nil_of_mem_punctuation {p : List Char} (h : p ∈ punctuation) : p ≠ [] := by
  rintro rfl
  revert h
  decide

theorem Spelled.ne_nil {kind : LexemeKind} {text : String} {cs after : List Char}
    (h : Spelled kind text cs after) : cs ≠ [] := by
  cases h with
  | bare hk genuine _ =>
    rintro rfl
    cases kind with
    | ident =>
      obtain ⟨c, more, he, -⟩ := genuine
      simp at he
    | int =>
      obtain ⟨c, more, he, -⟩ := genuine
      simp at he
    | float =>
      obtain ⟨c, more, d, fraction, he, -⟩ := genuine
      simp at he
    | punct => exact ne_nil_of_mem_punctuation (by simpa [Genuine] using genuine) rfl
    | string | char | eof => simp [LexemeKind.isBare] at hk
  | string => simp
  | char => simp

/-- A bare word is its own text. -/
theorem Spelled.text_eq {kind : LexemeKind} {text : String} {cs after : List Char}
    (h : Spelled kind text cs after) (hk : kind.isBare = true) : text = String.ofList cs := by
  cases h with
  | bare => rfl
  | string | char => simp [LexemeKind.isBare] at hk

/-! ### Names -/

theorem prefix_takeWhile {p : Char → Bool} {ds cs : List Char} (h : ds <+: cs)
    (hp : ds.all p = true) : ds <+: cs.takeWhile p := by
  obtain ⟨more, rfl⟩ := h
  rw [List.takeWhile_append_of_pos (List.all_eq_true.1 hp)]
  exact List.prefix_append ..

theorem longest_name {c : Char} {rest ds : List Char} (h : ds <+: c :: rest)
    (hin : InClass .ident ds) : ds.length ≤ (rest.takeWhile isNameRest).length + 1 := by
  obtain ⟨d, more, he, -, hmore⟩ := hin
  obtain rfl := String.ofList_injective he
  obtain ⟨-, h⟩ := List.cons_prefix_cons.1 h
  simpa using (prefix_takeWhile h hmore).length_le

/-! ### Numbers -/

theorem numberRest_prefix (rest : List Char) : (numberRest rest).2 <+: rest := by
  have whole := rest.takeWhile_append_dropWhile (p := Char.isDigit)
  unfold numberRest
  split
  · next after hd =>
    dsimp only
    split
    · exact List.takeWhile_prefix _
    · rw [hd] at whole
      conv_rhs => rw [← whole]
      rw [List.prefix_append_right_inj, List.cons_prefix_cons]
      exact ⟨rfl, List.takeWhile_prefix _⟩
  · exact List.takeWhile_prefix _

theorem whole_le_numberRest {rest ds : List Char} (h : ds <+: rest)
    (hd : ds.all Char.isDigit = true) : ds.length ≤ (numberRest rest).2.length := by
  have fits := (prefix_takeWhile h hd).length_le
  unfold numberRest
  split
  · dsimp only
    split
    · exact fits
    · rw [List.length_append]
      exact Nat.le_add_right_of_le fits
  · exact fits

theorem fraction_le_numberRest {rest whole fraction : List Char} {d : Char}
    (h : whole ++ '.' :: d :: fraction <+: rest) (hw : whole.all Char.isDigit = true)
    (hf : (d :: fraction).all Char.isDigit = true) :
    (whole ++ '.' :: d :: fraction).length ≤ (numberRest rest).2.length := by
  obtain ⟨more, rfl⟩ := h
  have hw : ∀ c ∈ whole, c.isDigit = true := List.all_eq_true.1 hw
  have fits := prefix_takeWhile (List.prefix_append (d :: fraction) more) hf
  have point : ('.' :: (d :: fraction ++ more)).takeWhile Char.isDigit = [] := rfl
  have taken : numberRest (whole ++ '.' :: d :: fraction ++ more) =
      (true, whole ++ '.' :: (d :: fraction ++ more).takeWhile Char.isDigit) := by
    unfold numberRest
    rw [List.append_assoc, List.cons_append, List.takeWhile_append_of_pos hw,
      List.dropWhile_append_of_pos hw, point]
    show (match '.' :: (d :: fraction ++ more) with | _ => _) = _
    simp only [List.all_cons, Bool.and_eq_true] at hf
    simp [hf.1]
  rw [taken]
  simpa using fits.length_le

theorem longest_number {c : Char} {rest ds : List Char} (h : ds <+: c :: rest)
    (hin : InClass .int ds) : ds.length ≤ (numberRest rest).2.length + 1 := by
  rcases hin with ⟨d, more, he, hd⟩ | ⟨d, whole, e, fraction, he, hw, hf⟩
  · obtain rfl := String.ofList_injective he
    obtain ⟨-, h⟩ := List.cons_prefix_cons.1 h
    simp only [List.all_cons, Bool.and_eq_true] at hd
    exact Nat.succ_le_succ (whole_le_numberRest h hd.2)
  · obtain rfl := String.ofList_injective he
    rw [List.cons_append] at h
    obtain ⟨-, h⟩ := List.cons_prefix_cons.1 h
    rw [List.all_cons, Bool.and_eq_true] at hw
    exact Nat.succ_le_succ (fraction_le_numberRest h hw.2 hf)

/-! ### Operators -/

/-- The first operator of the table that begins a text is the longest one that does, since each
stands before its own beginnings. -/
theorem longest_operator {cs p : List Char}
    (h : punctuation.find? (·.isPrefixOf cs) = some p) {ds : List Char} (hds : ds <+: cs)
    (hin : ds ∈ punctuation) : ds.length ≤ p.length := by
  have order : punctuation.Pairwise (fun p q => ¬p <+: q) := by decide
  obtain ⟨hp, before, after, htable, hbefore⟩ := List.find?_eq_some_iff_append.1 h
  rw [List.isPrefixOf_iff_prefix] at hp
  rw [htable, List.mem_append, List.mem_cons] at hin
  rcases hin with hin | hin | hin
  · simpa [List.isPrefixOf_iff_prefix.2 hds] using hbefore ds hin
  · rw [hin]
  · by_contra hlt
    rw [htable, List.pairwise_append, List.pairwise_cons] at order
    exact order.2.1.1 ds hin (List.prefix_of_prefix_length_le hp hds (by omega))

/-! ### Literals -/

theorem unescapes_of_decode {quote : Char} {cs value : List Char} {n : Nat}
    (h : Quoted.decode quote cs = some (value, n)) :
    ∃ body after, cs = body ++ quote :: after ∧ n = body.length + 1 ∧
      Unescapes quote body value := by
  fun_induction Quoted.decode quote cs generalizing value n with
  | case1 => cases h
  | case2 after =>
    cases h
    exact ⟨[], after, rfl, rfl, .nil⟩
  | case3 => cases h
  | case4 c rest hq ih =>
    obtain ⟨⟨more, m⟩, hm, hv⟩ := Option.map_eq_some_iff.1 h
    cases hv
    obtain ⟨body, after, rfl, rfl, inside⟩ := ih hm
    exact ⟨'\\' :: c :: body, after, rfl, rfl, .escaped inside⟩
  | case5 c rest hq hb ih =>
    obtain ⟨⟨more, m⟩, hm, hv⟩ := Option.map_eq_some_iff.1 h
    cases hv
    obtain ⟨body, after, rfl, rfl, inside⟩ := ih hm
    exact ⟨c :: body, after, rfl, rfl, .plain hq hb inside⟩

/-- A word is spelled by the characters it takes, and a bare word could not take more. -/
theorem spelled_of_word? {c : Char} {rest : List Char} {kind : LexemeKind} {text : String} {n : Nat}
    (h : word? c rest = some (kind, text, n)) :
    Spelled kind text (c :: rest.take n) (rest.drop n) := by
  have genuine := genuine_of_word? h
  have bare {more : List Char} (hk : kind.isBare = true) (hpre : more <+: rest)
      (hn : n = more.length) (ht : text = String.ofList (c :: more))
      (hmost : ∀ ds, ds <+: c :: rest → InClass kind ds → ds.length ≤ more.length + 1) :
      Spelled kind text (c :: rest.take n) (rest.drop n) := by
    obtain ⟨after, rfl⟩ := hpre
    subst hn ht
    rw [List.take_left, List.drop_left]
    exact .bare hk genuine hmost
  unfold word? at h
  split at h
  -- a name
  · cases h
    exact bare rfl (List.takeWhile_prefix _) rfl rfl fun ds => longest_name
  split at h
  -- a number
  · have fits := numberRest_prefix rest
    have most (ds : List Char) (hds : ds <+: c :: rest) := longest_number hds
    generalize numberRest rest = r at h fits most
    obtain ⟨fraction, more⟩ := r
    cases h
    cases fraction with
    | false => exact bare rfl fits rfl rfl most
    | true => exact bare rfl fits rfl rfl most
  split at h
  -- a literal of either kind
  · next hq =>
    obtain ⟨⟨value, m⟩, hm, hv⟩ := Option.map_eq_some_iff.1 h
    cases hv
    obtain ⟨body, after, rfl, rfl, inside⟩ := unescapes_of_decode hm
    subst hq
    rw [List.append_cons, List.take_left' (by simp), List.drop_left' (by simp)]
    exact .string inside
  split at h
  · next hq =>
    split at h
    · next value m hm =>
      cases h
      obtain ⟨body, after, rfl, rfl, inside⟩ := unescapes_of_decode hm
      subst hq
      rw [List.append_cons, List.take_left' (by simp), List.drop_left' (by simp)]
      exact .char inside
    · cases h
  -- an operator
  · obtain ⟨p, hp, hv⟩ := Option.map_eq_some_iff.1 h
    cases hv
    have hpre := List.find?_some hp
    simp only [List.isPrefixOf_iff_prefix] at hpre
    obtain ⟨d, more, rfl⟩ := List.exists_cons_of_ne_nil
      (ne_nil_of_mem_punctuation (List.mem_of_find?_eq_some hp))
    obtain ⟨rfl, hmore⟩ := List.cons_prefix_cons.1 hpre
    refine bare rfl hmore rfl rfl fun ds hds hin => longest_operator hp hds ?_
    simpa [InClass, Genuine] using hin

/-! ## Tilings -/

/-- The lexemes `ls` are the words of `cs`, which starts at byte `offset` of a text and lasts to its
end. -/
inductive Tiled : Nat → List Char → List Lexeme → Prop
  | done {offset : Nat} {gap : List Char} (skipped : Filler gap []) :
    Tiled offset gap [.endAt (offset + byteLength gap)]
  | word {offset : Nat} {gap cs after : List Char} {l : Lexeme} {ls : List Lexeme}
    (skipped : Filler gap (cs ++ after)) (spelled : Spelled l.kind l.text cs after)
    (start : l.span.start = offset + byteLength gap)
    (stop : l.span.stop = l.span.start + byteLength cs) (more : Tiled l.span.stop after ls) :
    Tiled offset (gap ++ (cs ++ after)) (l :: ls)

theorem Tiled.skip {offset : Nat} {chunk cs : List Char} {ls : List Lexeme}
    (h : Tiled (offset + byteLength chunk) cs ls)
    (fills : ∀ {gap after}, cs = gap ++ after → Filler gap after → Filler (chunk ++ gap) after) :
    Tiled offset (chunk ++ cs) ls := by
  cases h with
  | done skipped =>
    rw [Nat.add_assoc, ← byteLength_append]
    exact .done (fills (List.append_nil _).symm skipped)
  | word skipped spelled start stop more =>
    rw [← List.append_assoc]
    refine .word (fills rfl skipped) spelled ?_ stop more
    rw [start, byteLength_append, Nat.add_assoc]

/-- Wherever a text starts, its lexemes tile it. -/
theorem tiled_scan {offset : Nat} {cs : List Char} {ls : List Lexeme}
    (h : scan offset cs = .ok ls) :
    Tiled offset cs (ls ++ [.endAt (offset + byteLength cs)]) := by
  have whole (offset n : Nat) (c : Char) (rest : List Char) :
      offset + byteLength (c :: rest.take n) + byteLength (rest.drop n) =
        offset + byteLength (c :: rest) := by
    rw [Nat.add_assoc, ← byteLength_append, List.cons_append, List.take_append_drop]
  fun_induction scan offset cs generalizing ls with
  | case1 offset =>
    cases h
    exact .done (.nil [])
  | case2 offset c rest n ht ih =>
    have more := ih h
    rw [whole] at more
    have tiled := more.skip (filler_trivia ht)
    rwa [List.cons_append, List.take_append_drop] at tiled
  | case3 offset c rest ht kind text n hw stop more hm =>
    rename_i ih
    cases h
    have tiled := ih hm
    rw [whole] at tiled
    have spelled := spelled_of_word? hw
    have word := Tiled.word (l := ⟨kind, text, ⟨offset, stop⟩⟩) (.nil _) spelled rfl rfl tiled
    rwa [List.nil_append, List.cons_append, List.take_append_drop] at word
  | case4 => cases h
  | case5 => cases h

/-- Each word of a tiling stands where its span says, spelled by the characters there. -/
theorem Tiled.exists_split {offset : Nat} {cs : List Char} {ls : List Lexeme}
    (h : Tiled offset cs ls) {l : Lexeme} (hl : l ∈ ls) (hk : l.kind ≠ .eof) :
    ∃ before inner after, cs = before ++ (inner ++ after) ∧
      l.span.start = offset + byteLength before ∧
      l.span.stop = l.span.start + byteLength inner ∧ Spelled l.kind l.text inner after := by
  induction h with
  | done =>
    obtain rfl := List.mem_singleton.1 hl
    exact absurd rfl hk
  | @word offset gap inner after m ls _ spelled start stop _ ih =>
    rcases List.mem_cons.1 hl with rfl | hl
    · exact ⟨gap, inner, after, rfl, start, stop, spelled⟩
    · obtain ⟨before, inner', after', rfl, start', stop', spelled'⟩ := ih hl
      refine ⟨gap ++ (inner ++ before), inner', after', by simp, ?_, stop', spelled'⟩
      rw [start', stop, start, byteLength_append, byteLength_append]
      omega

theorem byteLength_pos {cs : List Char} (h : cs ≠ []) : 0 < byteLength cs := by
  obtain ⟨c, rest, rfl⟩ := List.exists_cons_of_ne_nil h
  rw [byteLength_cons]
  exact Nat.add_pos_left c.utf8Size_pos _

theorem Tiled.start_le {offset : Nat} {cs : List Char} {ls : List Lexeme} (h : Tiled offset cs ls)
    {l : Lexeme} (hl : l ∈ ls) : offset ≤ l.span.start := by
  induction h with
  | done =>
    obtain rfl := List.mem_singleton.1 hl
    exact Nat.le_add_right ..
  | word _ _ start stop _ ih =>
    rcases List.mem_cons.1 hl with rfl | hl
    · omega
    · have := ih hl
      omega

/-- The lexemes of a tiling stand one after the other. -/
theorem Tiled.pairwise {offset : Nat} {cs : List Char} {ls : List Lexeme} (h : Tiled offset cs ls) :
    ls.Pairwise fun l m => l.span.start < m.span.start ∧ l.span.stop ≤ m.span.start := by
  induction h with
  | done => exact List.pairwise_singleton ..
  | word _ spelled _ stop more ih =>
    refine List.pairwise_cons.2 ⟨fun m hm => ?_, ih⟩
    have longer := byteLength_pos spelled.ne_nil
    have next := more.start_le hm
    omega

/-! ## Whole texts -/

theorem utf8ByteSize_ofList (cs : List Char) : (String.ofList cs).utf8ByteSize = byteLength cs := by
  induction cs with
  | nil => rfl
  | cons c cs ih =>
    rw [String.ofList_cons, String.utf8ByteSize_append, String.utf8ByteSize_singleton, ih,
      byteLength_cons]

theorem utf8ByteSize_eq (s : String) : s.utf8ByteSize = byteLength s.toList := by
  rw [← utf8ByteSize_ofList, String.ofList_toList]

theorem sliceFrom_after {stop start : Nat} {cs : List Char} {offset : Nat} (h : stop ≤ offset) :
    Text.sliceFrom offset start stop cs = [] := by
  induction cs generalizing offset with
  | nil => rfl
  | cons c cs ih =>
    have outside : ¬offset < stop := by omega
    simp [Text.sliceFrom, outside, ih (Nat.le_add_right_of_le h)]

theorem sliceFrom_inside {offset start : Nat} (h : start ≤ offset) (inner after : List Char) :
    Text.sliceFrom offset start (offset + byteLength inner) (inner ++ after) = inner := by
  induction inner generalizing offset with
  | nil => exact sliceFrom_after (Nat.le_refl _)
  | cons c inner ih =>
    have pos := c.utf8Size_pos
    have more := ih (Nat.le_trans h (Nat.le_add_right offset c.utf8Size))
    rw [Nat.add_assoc, ← byteLength_cons] at more
    rw [List.cons_append, Text.sliceFrom, more]
    have inside : offset < offset + byteLength (c :: inner) := by
      rw [byteLength_cons]
      omega
    simp [h, inside]

theorem sliceFrom_append (offset : Nat) (before inner after : List Char) :
    Text.sliceFrom offset (offset + byteLength before)
      (offset + byteLength before + byteLength inner) (before ++ (inner ++ after)) = inner := by
  induction before generalizing offset with
  | nil => exact sliceFrom_inside (Nat.le_refl _) inner after
  | cons c before ih =>
    have pos := c.utf8Size_pos
    have more := ih (offset + c.utf8Size)
    rw [Nat.add_assoc offset, ← byteLength_cons] at more
    rw [List.cons_append, Text.sliceFrom, more]
    have outside : ¬offset + byteLength (c :: before) ≤ offset := by
      rw [byteLength_cons]
      omega
    simp [outside]

/-- The lexemes of a text tile it, up to the one that marks its end. Their spans are not empty and
grow along the text, each is spelled by the characters its span cuts out, and a bare one is these
characters. -/
theorem tokenize_tiles {source : String} {ls : List Lexeme} (h : tokenize source = .ok ls) :
    Tiled 0 source.toList ls ∧
    (∃ words, ls = words ++ [⟨.eof, "", ⟨source.utf8ByteSize, source.utf8ByteSize⟩⟩] ∧
      ∀ l ∈ words, l.kind ≠ .eof ∧ l.span.start < l.span.stop) ∧
    ls.Pairwise (fun l m => l.span.start < m.span.start ∧ l.span.stop ≤ m.span.start) ∧
    ∀ l ∈ ls, l.kind ≠ .eof → ∃ before after,
      source.toList = before ++ ((Text.slice source l.span.start l.span.stop).toList ++ after) ∧
      byteLength before = l.span.start ∧
      Spelled l.kind l.text (Text.slice source l.span.start l.span.stop).toList after ∧
      (l.kind.isBare = true → l.text = Text.slice source l.span.start l.span.stop) := by
  obtain ⟨words, hw, rfl⟩ : ∃ words, scan 0 source.toList = .ok words ∧
      ls = words ++ [.endAt source.utf8ByteSize] := by
    unfold tokenize lexemes at h
    cases hw : scan 0 source.toList with
    | error e => simp [hw, Except.map] at h
    | ok words => exact ⟨words, rfl, by simpa [hw, Except.map, eq_comm] using h⟩
  have tiled := tiled_scan hw
  rw [Nat.zero_add, ← utf8ByteSize_eq] at tiled
  refine ⟨tiled, ⟨words, rfl, fun l hl => ?_⟩, tiled.pairwise, fun l hl hk => ?_⟩
  · have genuine := genuine_of_scan hw l hl
    have hk : l.kind ≠ .eof := by
      intro he
      simp [Lexeme.word, he, Genuine] at genuine
    obtain ⟨_, _, _, _, _, stop, spelled⟩ :=
      tiled.exists_split (List.mem_append_left _ hl) hk
    have longer := byteLength_pos spelled.ne_nil
    exact ⟨hk, by omega⟩
  · obtain ⟨before, inner, after, split, start, stop, spelled⟩ := tiled.exists_split hl hk
    have cut : Text.slice source l.span.start l.span.stop = String.ofList inner := by
      rw [Text.slice, stop, start, split, sliceFrom_append]
    rw [Nat.zero_add] at start
    rw [cut, String.toList_ofList]
    exact ⟨before, after, split, start.symm, spelled, spelled.text_eq⟩

/-- A text with both kinds of comments, one more that is not closed, a number before a point and
characters of several bytes. -/
theorem tokenize_tiles_listing :
    let source := "é/*b*/ += 'ß' // c\n1.5.d \"\\n\" /* x"
    let ls : List Lexeme :=
      [⟨.ident, "é", ⟨0, 2⟩⟩, ⟨.punct, "+=", ⟨8, 10⟩⟩, ⟨.char, "ß", ⟨11, 15⟩⟩,
        ⟨.float, "1.5", ⟨21, 24⟩⟩, ⟨.punct, ".", ⟨24, 25⟩⟩, ⟨.ident, "d", ⟨25, 26⟩⟩,
        ⟨.string, "\n", ⟨27, 31⟩⟩, ⟨.punct, "/", ⟨32, 33⟩⟩, ⟨.punct, "*", ⟨33, 34⟩⟩,
        ⟨.ident, "x", ⟨35, 36⟩⟩, ⟨.eof, "", ⟨36, 36⟩⟩]
    tokenize source = .ok ls ∧ Tiled 0 source.toList ls := by
  intro source ls
  have read : tokenize source = .ok ls := by decide +kernel
  exact ⟨read, (tokenize_tiles read).1⟩

end Stencil.Source
