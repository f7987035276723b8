import Stencil.Proofs.Source.Statements

/-!
# Printed trees parse to the same trees

Whatever one of the three entry points parses, prints in both styles, and its print parses at the
same entry point. The tree that comes back is the one that was printed, up to numbers, places and
parenthesized nodes; printed again in one line it gives the same line.

Results:

* `parse_render` – the tree that a print parses to;
* `parse_compact_pretty` – the round trip of both styles.
-/
namespace Stencil.Source

/-- Where parsing may start. -/
inductive Entry where
  | unit
  | statement
  | expression
deriving DecidableEq, Repr

def Entry.parse : Entry → String → Except SourceError Node
  | unit => parseUnit
  | statement => parseStatement
  | expression => parseExpression

/-! ## Whole texts -/

/-- A text that was parsed, and the run of the parser over its lexemes. -/
theorem run_of_parseWith {α : Type} (parser : Nat → Parse α) {text : String} {a : α}
    (h : parseWith parser text = .ok a) :
    ∃ c c' : Cursor, c.IsGenuine ∧ (parser (2 * c.words.length + 4)).run c = .ok (a, c') := by
  unfold parseWith at h
  cases hl : lexemes text with
  | error e => rw [hl] at h; cases h
  | ok ls =>
    rw [hl] at h
    cases hp : (parser (2 * ls.length + 4)).run ⟨ls, text.utf8ByteSize, 0⟩ with
    | error e => simp only [bind, Except.bind, hp] at h; cases h
    | ok r =>
      simp only [bind, Except.bind, hp] at h
      cases h
      refine ⟨⟨ls, text.utf8ByteSize, 0⟩, r.2, fun w hw => ?_, ?_⟩
      · obtain ⟨l, hl', rfl⟩ := List.mem_map.1 hw
        exact genuine_of_scan hl l hl'
      · rw [Cursor.words, List.length_map, hp]

/-- A file that was parsed has the templates that were read as its parts. -/
theorem exists_of_parseUnit {text : String} {n : Node} (h : parseUnit text = .ok n) :
    ∃ ns, parseWith (fun fuel => templates fuel fuel) text = .ok ns ∧
      n = ⟨0, .compilationUnit, ⟨0, text.utf8ByteSize⟩, [], Grammar.asNodes ns⟩ := by
  unfold parseUnit at h
  cases hp : parseWith (fun fuel => templates fuel fuel) text with
  | error e => rw [hp] at h; cases h
  | ok ns =>
    rw [hp] at h
    exact ⟨ns, rfl, (Except.ok.inj h).symm⟩

/-- A text whose words a parser accepts up to the end parses. -/
theorem parseWith_of_accepts {α : Type} (parser : Nat → Parse α) {text : String} {ws : List Word}
    {Q : α → Prop} (hw : words? text.toList = some ws)
    (h : Accepts (parser (2 * ws.length + 4)) ws (· = none) Q) :
    ∃ a, parseWith parser text = .ok a ∧ Q a := by
  cases hl : lexemes text with
  | error e =>
    rw [words?, show scan 0 text.toList = .error e from hl] at hw
    contradiction
  | ok ls =>
    rw [words?, show scan 0 text.toList = .ok ls from hl] at hw
    have hws : ls.map Lexeme.word = ws := Option.some.inj hw
    obtain ⟨a, d', hr, _, ha⟩ := h ⟨ls, text.utf8ByteSize, 0⟩ []
      (by rw [List.append_nil]; exact hws) rfl
    refine ⟨a, ?_, ha⟩
    rw [← hws, List.length_map] at hr
    unfold parseWith
    simp only [hl, bind, Except.bind, hr]
    rfl

/-- Code and nothing after it. -/
abbrev whole (p : Parse Node) : Parse Node := do
  let n ← p
  Parse.expectEnd
  return n

theorem after_whole {p : Parse Node} {c : Cursor} {Φ : Node → Cursor → Prop} (h : After p c Φ) :
    After (whole p) c fun n c' => Φ n c' ∧ c'.words = [] := by
  refine .bind (h.mono fun n c1 hn => ?_)
  intro hg
  refine After.bind (After.get ?_) hg
  split
  · next hend =>
    refine .pure (.pure ⟨hn, ?_⟩)
    cases hw : c1.words with
    | nil => rfl
    | cons w ws =>
      have genuine := hg w (by simp [hw])
      have hk : w.1 ≠ .eof := by
        intro he
        obtain ⟨kind, text⟩ := w
        cases he
        exact genuine
      rw [Cursor.atEnd_of_words hw hk] at hend
      contradiction
  · exact .fail _

theorem accepts_whole {q : Parse Node} {ws : List Word} {N : Option Word → Prop} {Q : Node → Prop}
    (hN : N none) (h : Accepts q ws N Q) :
    Accepts (whole q) ws (· = none) Q := by
  rw [← List.append_nil ws]
  refine h.bind (fun n hn => .bind (u := []) (N := (· = none)) (Q := fun _ => True)
    (.get fun d rest hd ho => ?_) (fun _ _ => .pure hn) fun o ho => ho) fun o ho => ?_
  · rw [if_pos (Cursor.atEnd_of_nil (by rw [hd]; exact List.head?_eq_none_iff.1 ho))]
    exact .pure trivial
  · rw [ho]
    exact hN

/-- What was parsed prints, and its words are parsed back. -/
theorem parse_words (entry : Entry) {text : String} {t : Node} (h : entry.parse text = .ok t) :
    ∃ ws, Prints t ws ∧ ∀ s : String, words? s.toList = some ws →
      ∃ t', entry.parse s = .ok t' ∧ Alike t t' := by
  cases entry with
  | expression =>
    obtain ⟨c, c', hg, hr⟩ := run_of_parseWith (fun fuel => whole (expression fuel)) h
    obtain ⟨_, ⟨ws, hread, hq⟩, hend⟩ := after_whole ((couples_code _).1 c) hg t c' hr
    refine ⟨ws, hread.prints, fun s hs => parseWith_of_accepts (fun fuel => whole (expression fuel))
      hs (accepts_whole ?_ (hq (2 * ws.length + 4) (by omega)))⟩
    exact ⟨.inl (by rw [hend]; rfl), nofun⟩
  | statement =>
    obtain ⟨c, c', hg, hr⟩ := run_of_parseWith (fun fuel => whole (statement fuel)) h
    obtain ⟨_, ⟨ws, hread, _, hq⟩, hend⟩ := after_whole ((couples_code _).2 c) hg t c' hr
    exact ⟨ws, hread.2, fun s hs => parseWith_of_accepts (fun fuel => whole (statement fuel))
      hs (accepts_whole nofun (hq (2 * ws.length + 4) (by omega)))⟩
  | unit =>
    have h : (parseWith (fun fuel => templates fuel fuel) text >>= fun ns =>
        pure (⟨0, .compilationUnit, ⟨0, text.utf8ByteSize⟩, [], Grammar.asNodes ns⟩ : Node)) =
          .ok t := h
    cases hp : parseWith (fun fuel => templates fuel fuel) text with
    | error e => rw [hp] at h; cases h
    | ok ns =>
      rw [hp] at h
      cases h
      obtain ⟨c, c', hg, hr⟩ := run_of_parseWith _ hp
      obtain ⟨_, wss, hns, hq⟩ := after_templates _ _ c hg ns c' hr
      refine ⟨wss.flatten, .compilationUnit hns, fun s hs => ?_⟩
      obtain ⟨ns', hs', halike⟩ := parseWith_of_accepts (fun fuel => templates fuel fuel) hs
        (hq (2 * wss.flatten.length + 4) (2 * wss.flatten.length + 4) (by omega) (by omega))
      refine ⟨⟨0, .compilationUnit, ⟨0, s.utf8ByteSize⟩, [], Grammar.asNodes ns'⟩, ?_,
        alike_node rfl (alike_asNodes halike)⟩
      show parseUnit s = _
      rw [parseUnit, hs']
      rfl

/-- A print parses to the tree that was printed, with the parentheses of its layout. -/
theorem parse_render (entry : Entry) (style : Style) {text : String} {t : Node}
    (h : entry.parse text = .ok t) :
    ∃ s t', t.render style = .ok s ∧ entry.parse s = .ok t' ∧ Alike t t' := by
  obtain ⟨ws, hp, hq⟩ := parse_words entry h
  obtain ⟨s, hs, hspells⟩ := hp style 0
  obtain ⟨t', ht', halike⟩ := hq s (by simpa using hspells [] rfl)
  exact ⟨s, t', (renderAt_eq style 0 t).trans hs, ht', halike⟩

/-! ## The tree that comes back -/

theorem isRead_parse (entry : Entry) {text : String} {t : Node} (h : entry.parse text = .ok t) :
    IsRead t := by
  cases entry with
  | unit => exact (isRead_parseUnit h).1
  | statement =>
    obtain ⟨c, c', _, hr⟩ := run_of_parseWith (fun fuel => whole (statement fuel)) h
    have read : Yields IsRead (whole (statement (2 * c.words.length + 4))) :=
      .bind (reads_code _).2 fun n hn => .skip fun _ => .pure hn.1
    exact read c t c' hr
  | expression =>
    obtain ⟨c, c', _, hr⟩ := run_of_parseWith (fun fuel => whole (expression fuel)) h
    have read : Yields IsRead (whole (expression (2 * c.words.length + 4))) :=
      .bind (reads_code _).1 fun n hn => .skip fun _ => .pure hn.1
    exact read c t c' hr

theorem erased_of_alike {t t' : Node} (h : Alike t t') : t'.erased = t.erased := by
  rw [← Node.erased_tidy false t', ← Node.erased_tidy true t]
  exact congrArg Node.erased h

theorem render_of_alike {t t' : Node} (h : Alike t t') (ht : IsRead t) (ht' : IsRead t')
    (style : Style) : t'.render style = t.render style := by
  unfold Node.render
  rw [← renderAt_tidy false ht', ← renderAt_tidy true ht]
  exact congrArg (Node.renderAt style 0) h

/-- Both prints of a tree that was parsed parse, at the same entry point, to that tree up to numbers,
places and parenthesized nodes; the tree parsed from the one-line print prints as that line. -/
theorem parse_compact_pretty (entry : Entry) {text : String} {t : Node}
    (h : entry.parse text = .ok t) :
    (∃ s t', t.compact = .ok s ∧ entry.parse s = .ok t' ∧ t'.erased = t.erased ∧
      t'.compact = .ok s) ∧
    ∃ s t', t.pretty = .ok s ∧ entry.parse s = .ok t' ∧ t'.erased = t.erased := by
  constructor
  · obtain ⟨s, t', hs, ht', halike⟩ := parse_render entry .compact h
    have again := render_of_alike halike (isRead_parse entry h) (isRead_parse entry ht') .compact
    exact ⟨s, t', hs, ht', erased_of_alike halike, again.trans hs⟩
  · obtain ⟨s, t', hs, ht', halike⟩ := parse_render entry .pretty h
    exact ⟨s, t', hs, ht', erased_of_alike halike⟩

theorem exists_of_isOk {ε α : Type} {r : Except ε α} (h : r.isOk = true) : ∃ a, r = .ok a := by
  cases r with
  | error e => cases h
  | ok a => exact ⟨a, rfl⟩

/-- A query in front of an access, a nested minus and a lambda with a comma too many. -/
theorem parse_compact_pretty_query :
    ∃ t, Entry.expression.parse "- - (from x in xs select y => { }).Count((a, b,) => a ? b : !b)" =
        .ok t ∧
      (∃ s t', t.compact = .ok s ∧ Entry.expression.parse s = .ok t' ∧ t'.erased = t.erased ∧
        t'.compact = .ok s) ∧
      ∃ s t', t.pretty = .ok s ∧ Entry.expression.parse s = .ok t' ∧ t'.erased = t.erased := by
  obtain ⟨t, ht⟩ := exists_of_isOk (r := Entry.expression.parse
    "- - (from x in xs select y => { }).Count((a, b,) => a ? b : !b)") (by decide +kernel)
  exact ⟨t, ht, parse_compact_pretty .expression ht⟩

end Stencil.Source
