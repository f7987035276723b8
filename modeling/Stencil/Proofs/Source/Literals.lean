import Stencil.Proofs.Source.Tiling
import Stencil.Proofs.Tree.Relayout
import Stencil.Tree.Build

/-!
# Literals read back

A literal is printed between quotes, with escapes inside, and read up to the quote that is not
escaped, with the escapes undone. The two never meet anywhere but in the text between them, so
reading is shown to invert printing at any place of a text, whatever follows the closing quote.

Results:

* `scan_write` – a written literal is one lexeme, and the scanner goes on right after it;
* `render_literal` – a literal node is printed as the text of its token;
* `literals_read_back` – so what is printed for a literal is read as this literal and nothing else.
-/
namespace Stencil.Source

/-- The texts that literals can have, with the kind of their lexeme and the quotes around them. -/
inductive Writable : LexemeKind → Char → String → Prop
  | string (text : String) : Writable .string '"' text
  | char (c : Char) : Writable .char '\'' c.toString

variable {kind : LexemeKind} {quote : Char} {text : String}

theorem Writable.quote_eq (h : Writable kind quote text) : quote = '"' ∨ quote = '\'' := by
  cases h with
  | string => exact .inl rfl
  | char => exact .inr rfl

/-- A quote begins a word. -/
theorem Writable.not_trivia (h : Writable kind quote text) (rest : List Char) :
    trivia? quote rest = none := by
  have inside : quote ∈ marks := by rcases h.quote_eq with rfl | rfl <;> simp [marks]
  refine trivia?_none (outside_of_mem_marks inside).1 ?_ rest
  rcases h.quote_eq with rfl | rfl <;> decide

/-- The word is the whole literal. -/
theorem Writable.word (h : Writable kind quote text) (rest : List Char) :
    word? quote (Quoted.encode quote text.toList ++ quote :: rest) =
      some (kind, text, (Quoted.encode quote text.toList).length + 1) := by
  cases h with
  | string => exact word?_string text rest
  | char c => simpa using word?_char c rest

theorem toList_write (quote : Char) (text : String) :
    (Quoted.write quote text).toList = quote :: (Quoted.encode quote text.toList ++ [quote]) := by
  rw [Quoted.write, String.toList_ofList, List.cons_append]

/-- A written literal is one lexeme over all of its bytes. Reading goes on after its last quote. -/
theorem scan_write (h : Writable kind quote text) (offset : Nat) (rest : List Char) :
    scan offset ((Quoted.write quote text).toList ++ rest) =
      (scan (offset + (Quoted.write quote text).utf8ByteSize) rest).map
        (⟨kind, text, ⟨offset, offset + (Quoted.write quote text).utf8ByteSize⟩⟩ :: ·) := by
  have split : Quoted.encode quote text.toList ++ quote :: rest =
      (Quoted.encode quote text.toList ++ [quote]) ++ rest := by simp
  have cut : (Quoted.encode quote text.toList).length + 1 =
      (Quoted.encode quote text.toList ++ [quote]).length := by simp
  rw [utf8ByteSize_eq, toList_write, List.cons_append, ← split, scan, h.not_trivia, h.word]
  dsimp only
  rw [cut, split, List.take_left, List.drop_left]
  cases scan (offset + byteLength (quote :: (Quoted.encode quote text.toList ++ [quote]))) rest with
  | error e => rfl
  | ok more => rfl

/-- The text is one lexeme, from its first to its last byte. -/
def IsSole (kind : LexemeKind) (text : String) (source : String) : Prop :=
  tokenize source =
    .ok [⟨kind, text, ⟨0, source.utf8ByteSize⟩⟩, ⟨.eof, "", ⟨source.utf8ByteSize, source.utf8ByteSize⟩⟩]

theorem isSole_write (h : Writable kind quote text) : IsSole kind text (Quoted.write quote text) := by
  have read := scan_write h 0 []
  rw [List.append_nil, Nat.zero_add, scan] at read
  rw [IsSole, tokenize, lexemes, read]
  rfl

/-- A literal is printed as its token is written. -/
theorem render_literal {n : Node} {t : Token} (hn : n.kind = .literal) (ht : n.token? = some t)
    (style : Style) : n.render style = .ok (Layout.literalText t) := by
  have pieces : layout style n = [.text (Layout.literalText t)] := by
    unfold layout
    rw [hn]
    simp [Layout.literal, ht]
  rw [Node.render, renderAt_eq, pieces]
  show Except.ok (Layout.literalText t ++ "") = _
  rw [String.append_empty]

/-- What is printed for a literal of strings is read as one lexeme with the same text that takes
all of it, and so is what is printed for a literal of any one character. -/
theorem literals_read_back {n : Node} {t : Token} (hn : n.kind = .literal) (ht : n.token? = some t)
    (style : Style) :
    (t.kind = .stringLiteral → ∃ out, n.render style = .ok out ∧ IsSole .string t.text out) ∧
    (t.kind = .charLiteral → ∀ c : Char, t.text = c.toString →
      ∃ out, n.render style = .ok out ∧ IsSole .char t.text out) := by
  have printed := render_literal hn ht style
  refine ⟨fun hk => ⟨_, printed, ?_⟩, fun hk c hc => ⟨_, printed, ?_⟩⟩
  · have spelled : Layout.literalText t = Quoted.write '"' t.text := by rw [Layout.literalText, hk]
    exact spelled ▸ isSole_write (.string t.text)
  · have spelled : Layout.literalText t = Quoted.write '\'' t.text := by rw [Layout.literalText, hk]
    exact spelled ▸ isSole_write (hc ▸ .char c)

/-- A text of quotes, escapes, controls and characters of several bytes, and a quote alone. -/
theorem literals_read_back_quotes :
    let text : Token := .detached .stringLiteral "\"'\\n\n\t\r\x00ß\u2028"
    let mark : Token := .detached .charLiteral "'"
    (∃ out, (Node.literal text).render .compact = .ok out ∧ IsSole .string text.text out) ∧
      ∃ out, (Node.literal mark).render .pretty = .ok out ∧ IsSole .char mark.text out := by
  intro text mark
  have string := literals_read_back (n := .literal text) rfl rfl .compact
  have char := literals_read_back (n := .literal mark) rfl rfl .pretty
  exact ⟨string.1 rfl, char.2 rfl '\'' rfl⟩

end Stencil.Source
