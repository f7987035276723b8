import Mathlib.Data.List.Forall2
import Stencil.Proofs.Source.Spelling
import Stencil.Proofs.Tree.Tidy

/-!
# What printed trees spell

`Prints n ws`: in either style and at any depth the node prints, and its text spells the words
`ws` before any break. The lemmas of this module follow the layouts: one for each shape of node
that the grammar builds, from what its children print.

Results:

* `Laid.text`, `Laid.line`, `Laid.append` – pieces spell the words of their parts, as long as each
  part breaks from the next;
* `Prints.binary`, `Prints.ifStatement` and so on – the words of a node, construct by construct.
-/
namespace Stencil.Source

/-- An operator or delimiter as a word. -/
abbrev punct (text : String) : Word := (.punct, text)

/-- A name or keyword as a word. -/
abbrev name (text : String) : Word := (.ident, text)

/-- Words in parentheses. -/
def inParens (ws : List Word) : List Word := punct "(" :: (ws ++ [punct ")"])

/-- The words of an operand, in parentheses if `fence` asks for them. -/
def fencedWords (fence : Bool) (ws : List Word) : List Word := if fence then inParens ws else ws

/-- Words of several items with commas between them. -/
def listed : List (List Word) → List Word
  | [] => []
  | [ws] => ws
  | ws :: rest => ws ++ punct "," :: listed rest

/-- A text that keeps its words whatever follows. -/
def isFixed (s : String) (ws : List Word) : Bool :=
  guarded s.toList && !hasComment s.toList && words? s.toList == some ws

/-- The fixed texts of the layouts that end in a blank or a delimiter. -/
inductive Fixed where
  | blank | opening | closing | closingBlank | openSquare | closeSquare | openBrace | closeBrace
  | braces | comma | semicolon | semicolonBlank | colon | otherwise | question | initial | arrow
  | await | origin | inside | filter | select | var | template | function | condition | forEach
  | loop | loopEnd | counter | lock | resource | switch | sections | defaultLabel | caseLabel
  | jumpOut | jumpOn | goto | yieldReturn | yieldBreak
deriving DecidableEq

namespace Fixed

def all : List Fixed :=
  [blank, opening, closing, closingBlank, openSquare, closeSquare, openBrace, closeBrace,
   braces, comma, semicolon, semicolonBlank, colon, otherwise, question, initial, arrow, await,
   origin, inside, filter, select, var, template, function, condition, forEach, loop, loopEnd,
   counter, lock, resource, switch, sections, defaultLabel, caseLabel, jumpOut, jumpOn, goto,
   yieldReturn, yieldBreak]

/-- A text and its words. -/
def entry : Fixed → String × List Word
  | blank => (" ", [])
  | opening => ("(", [punct "("])
  | closing => (")", [punct ")"])
  | closingBlank => (") ", [punct ")"])
  | openSquare => ("[", [punct "["])
  | closeSquare => ("]", [punct "]"])
  | openBrace => ("\x7b", [punct "\x7b"])
  | closeBrace => ("\x7d", [punct "\x7d"])
  | braces => ("\x7b \x7d", [punct "\x7b", punct "\x7d"])
  | comma => (", ", [punct ","])
  | semicolon => (";", [punct ";"])
  | semicolonBlank => ("; ", [punct ";"])
  | colon => (":", [punct ":"])
  | otherwise => (" : ", [punct ":"])
  | question => (" ? ", [punct "?"])
  | initial => (" = ", [punct "="])
  | arrow => (") => ", [punct ")", punct "=>"])
  | await => ("await ", [name "await"])
  | origin => ("from ", [name "from"])
  | inside => (" in ", [name "in"])
  | filter => (" where ", [name "where"])
  | select => (" select ", [name "select"])
  | var => ("var ", [name "var"])
  | template => ("template ", [name "template"])
  | function => ("function ", [name "function"])
  | condition => ("if (", [name "if", punct "("])
  | forEach => ("foreach (var ", [name "foreach", punct "(", name "var"])
  | loop => ("while (", [name "while", punct "("])
  | loopEnd => (");", [punct ")", punct ";"])
  | counter => ("for (", [name "for", punct "("])
  | lock => ("lock (", [name "lock", punct "("])
  | resource => ("using (", [name "using", punct "("])
  | switch => ("switch (", [name "switch", punct "("])
  | sections => (") \x7b", [punct ")", punct "\x7b"])
  | defaultLabel => ("default:", [name "default", punct ":"])
  | caseLabel => ("case ", [name "case"])
  | jumpOut => ("break;", [name "break", punct ";"])
  | jumpOn => ("continue;", [name "continue", punct ";"])
  | goto => ("goto ", [name "goto"])
  | yieldReturn => ("yield return ", [name "yield", name "return"])
  | yieldBreak => ("yield break;", [name "yield", name "break", punct ";"])

def text (f : Fixed) : String := f.entry.1

def words (f : Fixed) : List Word := f.entry.2

theorem mem_all (f : Fixed) : f ∈ all := by
  cases f <;> decide

end Fixed

theorem isFixed_text (f : Fixed) : isFixed f.text f.words = true := by
  have each : ∀ f ∈ Fixed.all, isFixed f.text f.words = true := by decide +kernel
  exact each f f.mem_all

/-! ## Pieces -/

/-- The pieces print, and their text spells `ws`. -/
def Laid (style : Style) (depth : Nat) (ps : List Piece) (ws : List Word) : Prop :=
  ∃ s, renderPieces style depth ps = .ok s ∧ Spells s.toList ws

/-- The node prints, and its text spells `ws`. -/
def Prints (n : Node) (ws : List Word) : Prop :=
  ∀ style depth, Laid style depth (layout style n) ws

/-- A node prints one list of words. -/
theorem Prints.unique {n : Node} {ws ws' : List Word} (h : Prints n ws) (h' : Prints n ws') :
    ws = ws' := by
  obtain ⟨s, hs, hw⟩ := h .compact 0
  obtain ⟨s', hs', hw'⟩ := h' .compact 0
  obtain rfl : s = s' := Except.ok.inj (hs.symm.trans hs')
  simpa using (hw [] rfl).symm.trans (hw' [] rfl)

/-- A word before these pieces ends there. -/
def Leading (style : Style) (depth : Nat) (ps : List Piece) : Prop :=
  ∀ s, renderPieces style depth ps = .ok s → ∀ rest, breaks rest = true →
    breaks (s.toList ++ rest) = true

theorem Closed.spells {cs : List Char} {ws : List Word} (h : Closed cs ws) : Spells cs ws :=
  fun rest _ => h rest

section

variable {style : Style} {depth : Nat} {ps qs : List Piece} {ws ws' : List Word}

theorem Leading.text {s : String} (h : ∀ rest, breaks (s.toList ++ rest) = true) :
    Leading style depth (.text s :: ps) := by
  intro t ht rest _
  cases hp : renderPieces style depth ps with
  | error e =>
    simp only [renderPieces, Piece.render, hp] at ht
    cases ht
  | ok u =>
    simp only [renderPieces, Piece.render, hp] at ht
    cases ht
    rw [String.toList_append, List.append_assoc]
    exact h _

theorem isBlank_line (style : Style) (d : Nat) :
    ∃ c cs, (style.line d).toList = c :: cs ∧ Text.isBlank c = true := by
  cases style with
  | compact => exact ⟨' ', [], by simp [Style.line], rfl⟩
  | pretty =>
    refine ⟨'\n', List.replicate (4 * d) ' ', ?_, rfl⟩
    simp [Style.line]

theorem breaks_of_isBlank {c : Char} (h : Text.isBlank c = true) (cs : List Char) :
    breaks (c :: cs) = true := by
  unfold breaks
  split
  · rfl
  · next heq => cases heq; exact absurd h (by decide)
  · rfl
  · rfl
  · next heq => cases heq; simp [h]

theorem Leading.line {d : Nat} : Leading style depth (.line d :: ps) := by
  intro t ht rest _
  obtain ⟨c, cs, hc, hb⟩ := isBlank_line style (depth + d)
  cases hp : renderPieces style depth ps with
  | error e =>
    simp only [renderPieces, Piece.render, hp] at ht
    cases ht
  | ok u =>
    simp only [renderPieces, Piece.render, hp] at ht
    cases ht
    rw [String.toList_append, hc]
    exact breaks_of_isBlank hb _

theorem Laid.nil : Laid style depth [] [] := ⟨"", rfl, fun rest _ => by simp⟩

theorem Laid.append (h : Laid style depth ps ws) (h' : Laid style depth qs ws')
    (hl : Leading style depth qs) : Laid style depth (ps ++ qs) (ws ++ ws') := by
  obtain ⟨s, hs, hw⟩ := h
  obtain ⟨t, ht, hw'⟩ := h'
  refine ⟨s ++ t, by rw [renderPieces_append, hs, ht]; rfl, fun rest hr => ?_⟩
  rw [String.toList_append, List.append_assoc, hw _ (hl t ht rest hr), hw' rest hr]
  cases words? rest <;> simp

/-- A fixed text before pieces. -/
theorem Laid.text {s : String} {fixed : List Word} (h : Laid style depth ps ws)
    (hs : Closed s.toList fixed) : Laid style depth (.text s :: ps) (fixed ++ ws) := by
  obtain ⟨t, ht, hw⟩ := h
  refine ⟨s ++ t, by rw [renderPieces, ht]; rfl, fun rest hr => ?_⟩
  rw [String.toList_append, List.append_assoc, hs, hw rest hr]
  cases words? rest <;> simp

theorem closed_of_isFixed {s : String} (h : isFixed s ws = true) : Closed s.toList ws := by
  simp only [isFixed, Bool.and_eq_true, Bool.not_eq_true', beq_iff_eq] at h
  exact closed_of_guarded h.1.1 h.1.2 h.2

/-- A fixed text before pieces. -/
theorem Laid.fixed (f : Fixed) (h : Laid style depth ps ws) :
    Laid style depth (.text f.text :: ps) (f.words ++ ws) :=
  h.text (closed_of_isFixed (isFixed_text f))

theorem closed_blanks {cs : List Char} (h : cs.all Text.isBlank = true) : Closed cs [] := by
  intro rest
  induction cs with
  | nil => simp
  | cons c cs ih =>
    simp only [List.all_cons, Bool.and_eq_true] at h
    rw [List.cons_append, words?_blank h.1, ih h.2]

theorem closed_line (d : Nat) : Closed (style.line d).toList [] := by
  refine closed_blanks ?_
  have space : Text.isBlank ' ' = true := rfl
  have feed : Text.isBlank '\n' = true := rfl
  cases style <;> simp [Style.line, space, feed]

theorem Laid.line {d : Nat} (h : Laid style depth ps ws) :
    Laid style depth (.line d :: ps) ws := by
  obtain ⟨t, ht, hw⟩ := h
  refine ⟨style.line (depth + d) ++ t, by rw [renderPieces, ht]; rfl, fun rest hr => ?_⟩
  rw [String.toList_append, List.append_assoc, closed_line, hw rest hr]
  cases words? rest <;> rfl

theorem Laid.node {n : Node} (d : Nat) (h : Prints n ws) : Laid style depth [.node d n] ws := by
  obtain ⟨s, hs, hw⟩ := h style (depth + d)
  refine ⟨s, ?_, hw⟩
  rw [renderPieces, Piece.render, renderAt_eq, hs]
  show Except.ok (s ++ "") = _
  simp

theorem Laid.word {s : String} (h : Spells s.toList ws) : Laid style depth [.text s] ws :=
  ⟨s, by show Except.ok (s ++ "") = _; simp, h⟩

/-- A node and a break after it. -/
theorem Laid.node_cons {n : Node} {d : Nat} (h : Prints n ws) (h' : Laid style depth qs ws')
    (hl : Leading style depth qs) : Laid style depth (.node d n :: qs) (ws ++ ws') :=
  (Laid.node d h).append h' hl

/-- A word and a break after it. -/
theorem Laid.word_cons {s : String} (h : Spells s.toList ws) (h' : Laid style depth qs ws')
    (hl : Leading style depth qs) : Laid style depth (.text s :: qs) (ws ++ ws') :=
  (Laid.word h).append h' hl

/-- An operator between blanks. -/
theorem Laid.spaced {s : String} {w : Word} (hs : Closed (" " ++ s ++ " ").toList [w])
    (h : Laid style depth ps ws) :
    Laid style depth (.text " " :: .text s :: .text " " :: ps) (w :: ws) := by
  obtain ⟨t, ht, hw⟩ := h.text hs
  refine ⟨t, ?_, hw⟩
  rw [← ht]
  simp only [renderPieces, Piece.render]
  cases renderPieces style depth ps with
  | error e => rfl
  | ok u =>
    show Except.ok (" " ++ (s ++ (" " ++ u))) = Except.ok (" " ++ s ++ " " ++ u)
    simp [String.append_assoc]

theorem Laid.separated {pss : List (List Piece)} {wss : List (List Word)}
    (h : List.Forall₂ (Laid style depth) pss wss) :
    Laid style depth (Layout.separated ", " pss) (listed wss) := by
  induction h with
  | nil => exact .nil
  | @cons ps ws pss wss hp hps ih =>
    cases hps with
    | nil => exact hp
    | cons hq hqs =>
      exact hp.append (ih.fixed .comma) (.text fun _ => rfl)

theorem Laid.lines {d : Nat} {ns : List Node} {wss : List (List Word)}
    (h : List.Forall₂ Prints ns wss) (hq : Laid style depth qs ws')
    (hl : Leading style depth qs) :
    Laid style depth (Layout.lines d ns ++ qs) (wss.flatten ++ ws') ∧
      Leading style depth (Layout.lines d ns ++ qs) := by
  induction h with
  | nil => exact ⟨hq, hl⟩
  | cons hp hps ih =>
    rw [List.flatten_cons, List.append_assoc]
    exact ⟨.line (Laid.node_cons hp ih.1 ih.2), .line⟩

end

/-! ## Words -/

theorem spells_text {s : String} (h : Genuine (name s)) : Spells s.toList [name s] :=
  spells_spelling h nofun

/-- Whether a text is made of one name. -/
def isNameText (s : String) : Bool :=
  match s.toList with
  | c :: more => isNameStart c && more.all isNameRest
  | [] => false

/-- Keywords of the layouts that a blank or a semicolon follows. -/
theorem spells_keyword {s : String} (h : s ∈ ["this", "else", "do", "return"]) :
    Spells s.toList [name s] := by
  have each : ∀ s ∈ ["this", "else", "do", "return"], isNameText s = true := by decide
  have hs := each s h
  unfold isNameText at hs
  split at hs
  · next c more hc =>
    rw [Bool.and_eq_true] at hs
    have := spells_name hs.1 hs.2
    rwa [← hc, String.ofList_toList] at this
  · contradiction

/-- Characters that begin nothing but operators. -/
def isMark (c : Char) : Bool := ['.', '+', '-', '!', '=', '<', '>'].contains c

theorem mem_marks_of_isMark {c : Char} (h : isMark c = true) : c ∈ marks := by
  have inside : ['.', '+', '-', '!', '=', '<', '>'] ⊆ marks := by simp [marks]
  exact inside (List.contains_iff_mem.1 h)

theorem trivia?_mark {c : Char} (h : isMark c = true) (rest : List Char) : trivia? c rest = none := by
  have hs : c ≠ '/' := by rintro rfl; contradiction
  exact trivia?_none (outside_of_mem_marks (mem_marks_of_isMark h)).1 hs rest

theorem word?_mark {c : Char} (h : isMark c = true) (rest : List Char) :
    word? c rest = (punctuation.find? (·.isPrefixOf (c :: rest))).map fun p =>
      (.punct, String.ofList p, p.length - 1) := by
  have hm := mem_marks_of_isMark h
  have hn := not_isNameStart_of_mem_marks hm
  have hd : c.isDigit = false := by
    cases hd : c.isDigit with
    | false => rfl
    | true => simpa [(outside_of_mem_marks hm).2] using isNameRest_of_isDigit hd
  have hq : c ≠ '"' := by rintro rfl; contradiction
  have ha : c ≠ '\'' := by rintro rfl; contradiction
  simp [word?, hn, hd, hq, ha]

theorem words?_mark (c : Char) (more : List Char) {rest : List Char} {s : String}
    (hs : s.toList = c :: more) (h : isMark c = true)
    (hp : punctuation.find? (·.isPrefixOf (c :: (more ++ rest))) = some (c :: more)) :
    words? (s.toList ++ rest) = (words? rest).map (punct s :: ·) := by
  have hw : word? c (more ++ rest) = some (.punct, s, more.length) := by
    rw [word?_mark h, hp, ← hs, Option.map_some, String.ofList_toList, hs]
    rfl
  rw [hs, List.cons_append, words?_word (trivia?_mark h _) hw, List.drop_left]

theorem closed_dot : Closed ".".toList [punct "."] :=
  fun _ => words?_mark '.' [] rfl (by decide) (by simp [punctuation])

/-- The operators after an operand are two characters long, so nothing can lengthen them. -/
theorem closed_step {s : String} (h : s ∈ ["++", "--"]) : Closed s.toList [punct s] := by
  simp only [List.mem_cons, List.not_mem_nil, or_false] at h
  intro rest
  rcases h with rfl | rfl
  · exact words?_mark '+' ['+'] rfl (by decide) (by simp [punctuation])
  · exact words?_mark '-' ['-'] rfl (by decide) (by simp [punctuation])

/-- Characters that would lengthen a prefix operator. -/
def lengthens (c : Char) : Bool := c == '=' || c == '-'

/-- A prefix operator reads as itself unless what follows lengthens it. -/
theorem words?_prefix {s : String} (h : s ∈ ["!", "-"]) {rest : List Char}
    (hr : rest.head?.all (!lengthens ·) = true) :
    words? (s.toList ++ rest) = (words? rest).map (punct s :: ·) := by
  simp only [List.mem_cons, List.not_mem_nil, or_false] at h
  have next {c : Char} {more : List Char} (hc : rest = c :: more) : c ≠ '=' ∧ c ≠ '-' := by
    simpa [hc, lengthens] using hr
  have alone : ∀ c ∈ ['!', '-'], punctuation.find? (·.isPrefixOf (c :: rest)) = some [c] := by
    intro c hc
    simp only [List.mem_cons, List.not_mem_nil, or_false] at hc
    cases rest with
    | nil => rcases hc with rfl | rfl <;> simp [punctuation]
    | cons d more =>
      rcases hc with rfl | rfl <;> simp [punctuation, (next rfl).1.symm, (next rfl).2.symm]
  rcases h with rfl | rfl
  · exact words?_mark '!' [] rfl (by decide) (alone '!' (by simp))
  · exact words?_mark '-' [] rfl (by decide) (alone '-' (by simp))

/-- A text that begins with a character that lengthens has an operator for its first word. -/
theorem lengthens_of_words? {c : Char} {cs : List Char} {w : Word} {ws : List Word}
    (h : words? (c :: cs) = some (w :: ws)) (hc : lengthens c = true) :
    w.1 = .punct ∧ w.2.toList.head? = some c := by
  have hm : isMark c = true := by
    simp only [lengthens, Bool.or_eq_true, beq_iff_eq] at hc
    rcases hc with rfl | rfl <;> decide
  have ht := trivia?_mark hm cs
  cases hf : punctuation.find? (·.isPrefixOf (c :: cs)) with
  | none =>
    have hw : word? c cs = none := by rw [word?_mark hm, hf]; rfl
    simp [words?_none ht hw] at h
  | some p =>
    rw [words?_word ht (by rw [word?_mark hm, hf]; rfl)] at h
    obtain ⟨more, _, he⟩ := Option.map_eq_some_iff.1 h
    cases he
    have first := List.find?_some hf
    have member := List.mem_of_find?_eq_some hf
    cases p with
    | nil => exact absurd member (by decide)
    | cons a p =>
      simp only [List.isPrefixOf_iff_prefix, List.cons_prefix_cons] at first
      simp [first.1]

/-- A prefix operator before pieces whose first word does not lengthen it. -/
theorem Laid.prefixed {style : Style} {depth : Nat} {ps : List Piece} {s : String} {w : Word}
    {ws : List Word} (hs : s ∈ ["!", "-"]) (h : Laid style depth ps (w :: ws))
    (hw : w.1 = .punct → w.2 = "(" ∨ w.2 = "[") :
    Laid style depth (.text s :: ps) (punct s :: w :: ws) := by
  obtain ⟨t, ht, hspells⟩ := h
  have alone : words? t.toList = some (w :: ws) := by simpa using hspells [] rfl
  have clear : ∀ rest, (t.toList ++ rest).head?.all (!lengthens ·) = true := by
    intro rest
    cases hc : t.toList with
    | nil => simp [hc] at alone
    | cons c cs =>
      rw [hc] at alone
      cases hl : lengthens c with
      | false => simp [hl]
      | true =>
        obtain ⟨hp, hh⟩ := lengthens_of_words? alone hl
        rcases hw hp with he | he <;> rw [he] at hh <;> cases hh <;> exact absurd hl (by decide)
  refine ⟨s ++ t, by rw [renderPieces, ht]; rfl, fun rest hr => ?_⟩
  rw [String.toList_append, List.append_assoc, words?_prefix hs (clear rest), hspells rest hr]
  cases words? rest <;> rfl

/-! ## Expressions -/

open Layout

namespace Prints

variable {id : Nat} {span : Span} {marks : List Mark}

theorem typeName {t : Token} {ws : List Word} (h : Spells t.text.toList ws) :
    Prints ⟨id, .typeName, span, marks, [.token t]⟩ ws := by
  intro style depth
  have pieces : layout style ⟨id, .typeName, span, marks, [.token t]⟩ = [.text t.text] := by
    simp [layout, Node.tokenText, Node.token?, Node.tokens]
  rw [pieces]
  exact .word h

theorem this : Prints ⟨id, .this, span, marks, []⟩ [name "this"] :=
  fun _ _ => .word (spells_keyword (by simp))

theorem identifier {t : Token} (hk : t.kind = .identifier) (hg : Genuine (name t.text)) :
    Prints ⟨id, .identifier, span, marks, [.token t]⟩ [name t.text] := by
  intro style depth
  have pieces : layout style ⟨id, .identifier, span, marks, [.token t]⟩ = [.text t.text] := by
    simp [layout, Node.nameOrEmpty, Node.name?, Node.tokenOfKind?, Node.tokens, hk]
  rw [pieces]
  exact .word (spells_text hg)

theorem literal {t : Token} {w : Word} (hg : Genuine w) (hp : w.1 ≠ .punct)
    (ht : (literalText t).toList = spelling w) :
    Prints ⟨id, .literal, span, marks, [.token t]⟩ [w] := by
  intro style depth
  refine .word ?_
  show Spells (literalText t).toList [w]
  rw [ht]
  exact spells_spelling hg hp

theorem parenthesized {e : Node} {ws : List Word} (h : Prints e ws) :
    Prints ⟨id, .parenthesized, span, marks, [.node e]⟩ (inParens ws) :=
  fun _ _ => .fixed .opening (.node_cons h (.fixed .closing .nil) (.text fun _ => rfl))

theorem nodes_asNodes (kind : NodeKind) (ns : List Node) :
    Node.nodes ⟨id, kind, span, marks, Grammar.asNodes ns⟩ = ns := by
  simp [Node.nodes, Grammar.asNodes, List.filterMap_map]

theorem filterMap_asNodes (ns : List Node) :
    (Grammar.asNodes ns).filterMap Child.node? = ns ∧
      (Grammar.asNodes ns).filterMap Child.token? = [] := by
  constructor <;> simp [Grammar.asNodes, List.filterMap_map, Function.comp_def]

theorem each {style : Style} {depth : Nat} {ns : List Node} {wss : List (List Word)}
    (h : List.Forall₂ Prints ns wss) :
    List.Forall₂ (Laid style depth) (ns.map plain) wss :=
  List.forall₂_map_left_iff.2 (h.imp fun _ _ hn => .node 0 hn)

theorem list {ns : List Node} {wss : List (List Word)} (h : List.Forall₂ Prints ns wss) :
    Prints ⟨id, .list, span, marks, Grammar.asNodes ns⟩
      (punct "[" :: (listed wss ++ [punct "]"])) := by
  intro style depth
  simp only [layout, nodes_asNodes, List.cons_append]
  exact .fixed .openSquare
    (.append (.separated (each h)) (.fixed .closeSquare .nil) (.text fun _ => rfl))

end Prints

/-- An operand, in parentheses where the layout writes them. -/
theorem Laid.wrapped {style : Style} {depth : Nat} {n : Node} {ws : List Word} (h : Prints n ws)
    (fence : Bool) : Laid style depth (Layout.wrapped fence n) (fencedWords fence ws) := by
  cases fence with
  | false => exact .node 0 h
  | true =>
    exact .fixed .opening (.node_cons h (.fixed .closing .nil) (.text fun _ => rfl))

theorem Laid.operand {style : Style} {depth : Nat} {n : Node} {ws : List Word} (h : Prints n ws) :
    Laid style depth (Layout.operand n) (fencedWords n.kind.fencedOperand ws) := by
  rw [operand_eq]
  exact .wrapped h _

theorem Laid.binaryOperand {style : Style} {depth : Nat} {n : Node} {ws : List Word}
    (h : Prints n ws) :
    Laid style depth (Layout.binaryOperand n) (fencedWords n.kind.fencedBinaryOperand ws) := by
  rw [binaryOperand_eq]
  exact .wrapped h _

/-- Operators that stand between two operands. -/
def infixOperators : List String :=
  ["||", "&&", "==", "!=", "<", ">", "<=", ">=", "+", "-", "*", "/", "%", "=", "+=", "-="]

theorem closed_operator {s : String} (h : s ∈ infixOperators) :
    Closed (" " ++ s ++ " ").toList [punct s] := by
  have fixed : ∀ s ∈ infixOperators, isFixed (" " ++ s ++ " ") [punct s] = true := by
    decide +kernel
  exact closed_of_isFixed (fixed s h)

namespace Prints

variable {id : Nat} {span : Span} {marks : List Mark}

theorem binary {l r : Node} {t : Token} {ws ws' : List Word} (hl : Prints l ws)
    (hr : Prints r ws') (ht : t.text ∈ infixOperators) :
    Prints ⟨id, .binary, span, marks, [.node l, .token t, .node r]⟩
      (fencedWords l.kind.fencedBinaryOperand ws ++
        punct t.text :: fencedWords r.kind.fencedBinaryOperand ws') := by
  intro style depth
  rw [layout_binary]
  exact .append (.binaryOperand hl) (.spaced (closed_operator ht) (.binaryOperand hr))
    (.text fun _ => rfl)

theorem assignment {l r : Node} {t : Token} {ws ws' : List Word} (hl : Prints l ws)
    (hr : Prints r ws') (ht : t.text ∈ infixOperators) :
    Prints ⟨id, .assignment, span, marks, [.node l, .token t, .node r]⟩
      (ws ++ punct t.text :: ws') := by
  intro style depth
  have pieces : layout style ⟨id, .assignment, span, marks, [.node l, .token t, .node r]⟩ =
      .node 0 l :: [.text " ", .text t.text, .text " ", .node 0 r] := by
    simp [layout, child, plain, Node.node?, Node.nodes, Node.tokenText, Node.token?, Node.tokens,
      List.filterMap_cons]
  rw [pieces]
  exact .node_cons hl (.spaced (closed_operator ht) (.node 0 hr)) (.text fun _ => rfl)

theorem unary {n : Node} {t : Token} {w : Word} {ws : List Word} {ws' : List Word}
    (h : Prints n ws) (ht : t.text ∈ ["!", "-"])
    (hf : fencedWords n.kind.fencedOperand ws = w :: ws')
    (hw : w.1 = .punct → w.2 = "(" ∨ w.2 = "[") :
    Prints ⟨id, .unary, span, marks, [.token t, .node n]⟩
      (punct t.text :: fencedWords n.kind.fencedOperand ws) := by
  intro style depth
  rw [layout_unary, hf]
  exact .prefixed ht (hf ▸ .operand h) hw

theorem step {n : Node} {t : Token} {ws : List Word} (h : Prints n ws)
    (ht : t.text ∈ ["++", "--"]) :
    Prints ⟨id, .step, span, marks, [.node n, .token t]⟩
      (fencedWords n.kind.fencedOperand ws ++ [punct t.text]) := by
  intro style depth
  rw [layout_step]
  have breaksFirst : ∀ s ∈ ["++", "--"], ∀ rest, breaks (s.toList ++ rest) = true := by
    intro s hs rest
    simp only [List.mem_cons, List.not_mem_nil, or_false] at hs
    rcases hs with rfl | rfl <;> rfl
  exact .append (.operand h) (.word (closed_step ht).spells) (.text (breaksFirst _ ht))

theorem conditional {c t f : Node} {ws ws' ws'' : List Word} (hc : Prints c ws)
    (ht : Prints t ws') (hf : Prints f ws'') :
    Prints ⟨id, .conditional, span, marks, Grammar.asNodes [c, t, f]⟩
      (fencedWords c.kind.fencedBinaryOperand ws ++
        punct "?" :: (ws' ++ punct ":" :: ws'')) := by
  intro style depth
  rw [show Grammar.asNodes [c, t, f] = [.node c, .node t, .node f] from rfl, layout_conditional]
  exact .append (.binaryOperand hc)
    (.fixed .question (.node_cons ht (.fixed .otherwise (.node 0 hf)) (.text fun _ => rfl)))
    (.text fun _ => rfl)

theorem invocation {n : Node} {ns : List Node} {ws : List Word} {wss : List (List Word)}
    (h : Prints n ws) (hs : List.Forall₂ Prints ns wss) :
    Prints ⟨id, .invocation, span, marks, Grammar.asNodes (n :: ns)⟩
      (fencedWords n.kind.fencedOperand ws ++ inParens (listed wss)) := by
  intro style depth
  rw [show Grammar.asNodes (n :: ns) = .node n :: Grammar.asNodes ns from rfl, layout_invocation,
    (filterMap_asNodes ns).1]
  exact .append (.operand h)
    (.fixed .opening
      (.append (.separated (each hs)) (.fixed .closing .nil) (.text fun _ => rfl)))
    (.text fun _ => rfl)

theorem memberAccess {n : Node} {t : Token} {ws : List Word} (h : Prints n ws)
    (hk : t.kind = .identifier) (hg : Genuine (name t.text)) :
    Prints ⟨id, .memberAccess, span, marks, [.node n, .token t]⟩
      (fencedWords n.kind.fencedOperand ws ++ [punct ".", name t.text]) := by
  intro style depth
  rw [layout_memberAccess n hk]
  refine .append (.operand h) (.text (.word (spells_text hg)) closed_dot) ?_
  obtain ⟨c, more, ht, hc, _⟩ := hg
  intro s hs rest _
  cases hs
  simp [ht, breaks, hc]

theorem elementAccess {n i : Node} {ws ws' : List Word} (h : Prints n ws) (hi : Prints i ws') :
    Prints ⟨id, .elementAccess, span, marks, [.node n, .node i]⟩
      (fencedWords n.kind.fencedOperand ws ++ punct "[" :: (ws' ++ [punct "]"])) := by
  intro style depth
  rw [layout_elementAccess]
  exact .append (.operand h)
    (.fixed .openSquare (.node_cons hi (.fixed .closeSquare .nil) (.text fun _ => rfl)))
    (.text fun _ => rfl)

theorem cast {t n : Node} {ws ws' : List Word} (ht : Prints t ws) (h : Prints n ws') :
    Prints ⟨id, .cast, span, marks, [.node t, .node n]⟩
      (punct "(" :: (ws ++ punct ")" :: fencedWords n.kind.fencedOperand ws')) := by
  intro style depth
  rw [layout_cast]
  exact .fixed .opening (.node_cons ht (.fixed .closing (.operand h)) (.text fun _ => rfl))

theorem await {n : Node} {ws : List Word} (h : Prints n ws) :
    Prints ⟨id, .await, span, marks, [.node n]⟩
      (name "await" :: fencedWords n.kind.fencedOperand ws) := by
  intro style depth
  rw [layout_await]
  exact .fixed .await (.operand h)

theorem parameter {t : Token} (hk : t.kind = .identifier) (hg : Genuine (name t.text)) :
    Prints ⟨id, .parameter, span, marks, [.token t]⟩ [name t.text] := by
  intro style depth
  have pieces : layout style ⟨id, .parameter, span, marks, [.token t]⟩ = [.text t.text] := by
    simp [layout, Layout.parameter, Node.nodeOfKind?, Node.nodes, Node.nameOrEmpty, Node.name?,
      Node.tokenOfKind?, Node.tokens, hk]
  rw [pieces]
  exact .word (spells_text hg)

theorem typedParameter {type : Node} {t : Token} {ws : List Word} (hk : t.kind = .identifier)
    (hg : Genuine (name t.text)) (ht : type.kind = .typeName)
    (hs : Spells type.tokenText.toList ws) :
    Prints ⟨id, .parameter, span, marks, [.node type, .token t]⟩ (ws ++ [name t.text]) := by
  intro style depth
  have pieces : layout style ⟨id, .parameter, span, marks, [.node type, .token t]⟩ =
      [.text type.tokenText, .text " ", .text t.text] := by
    simp [layout, Layout.parameter, Node.nodeOfKind?, Node.nodes, Node.nameOrEmpty, Node.name?,
      Node.tokenOfKind?, Node.tokens, hk, ht, List.filterMap_cons]
  rw [pieces]
  exact .word_cons hs (.fixed .blank (.word (spells_text hg))) (.text fun _ => rfl)

/-- Nodes of one kind whose layouts are put in place of them. -/
theorem inPlace {style : Style} {depth : Nat} {kind : NodeKind} {f : Node → List Piece}
    {ns : List Node} {wss : List (List Word)} (hf : ∀ n, n.kind = kind → layout style n = f n)
    (hk : ∀ n ∈ ns, n.kind = kind) (h : List.Forall₂ Prints ns wss) :
    List.Forall₂ (Laid style depth) (ns.map f) wss := by
  induction h with
  | nil => exact .nil
  | @cons n ws ns wss hn hns ih =>
    refine .cons ?_ (ih fun m hm => hk m (by simp [hm]))
    rw [← hf n (hk n (by simp))]
    exact hn style depth

/-- Parameters of a node whose other children are of other kinds. -/
theorem parameters {style : Style} {depth : Nat} {n : Node} {ps rest : List Node}
    {wss : List (List Word)} (hn : n.nodes = ps ++ rest) (hp : ∀ p ∈ ps, p.kind = .parameter)
    (hr : ∀ p ∈ rest, p.kind ≠ .parameter) (h : List.Forall₂ Prints ps wss) :
    Laid style depth (Layout.parameters n) (listed wss) := by
  have kept : n.nodes.filter (·.kind == .parameter) = ps := by
    rw [hn, List.filter_append, List.filter_eq_self.2 (by simpa using hp),
      List.filter_eq_nil_iff.2 (by simpa using hr), List.append_nil]
  rw [Layout.parameters, kept]
  exact .separated (inPlace (fun p hp => by simp only [layout, hp]) hp h)

theorem lambda {ps : List Node} {body : Node} {wss : List (List Word)} {ws : List Word}
    (hp : ∀ p ∈ ps, p.kind = .parameter) (hb : body.kind ≠ .parameter)
    (h : List.Forall₂ Prints ps wss) (h' : Prints body ws) :
    Prints ⟨id, .lambda, span, marks, Grammar.asNodes (ps ++ [body])⟩
      (punct "(" :: (listed wss ++ punct ")" :: punct "=>" :: ws)) := by
  intro style depth
  have inside : lambdaBody ⟨id, .lambda, span, marks, Grammar.asNodes (ps ++ [body])⟩ =
      [.node 0 body] := by
    simp [lambdaBody, nodes_asNodes, hb, plain]
  simp only [layout, inside, List.cons_append]
  exact .fixed .opening (.append (parameters (nodes_asNodes ..) hp (by simpa using hb) h)
    (.fixed .arrow (.node 0 h')) (.text fun _ => rfl))

theorem query {t : Token} {source selection : Node} {sid : Nat} {sspan : Span}
    {smarks : List Mark} {ws ws' : List Word} (hk : t.kind = .identifier)
    (hg : Genuine (name t.text)) (hs : source.kind.isExpression = true) (h : Prints source ws)
    (h' : Prints selection ws') :
    Prints ⟨id, .query, span, marks, .token t :: Grammar.asNodes
        [source, ⟨sid, .selectClause, sspan, smarks, [.node selection]⟩]⟩
      (name "from" :: name t.text :: name "in" :: (ws ++ name "select" :: ws')) := by
  intro style depth
  have h1 : source.kind ≠ .whereClause := fun he => by simp [he, NodeKind.isExpression] at hs
  have h2 : source.kind ≠ .selectClause := fun he => by simp [he, NodeKind.isExpression] at hs
  have pieces : layout style ⟨id, .query, span, marks, .token t :: Grammar.asNodes
        [source, ⟨sid, .selectClause, sspan, smarks, [.node selection]⟩]⟩ =
      [.text "from ", .text t.text, .text " in ", .node 0 source, .text " select ",
        .node 0 selection] := by
    simp [layout, clause, child, plain, Node.nodeOfKind?, Node.node?, Node.nodes, Node.nameOrEmpty,
      Node.name?, Node.tokenOfKind?, Node.tokens, Grammar.asNodes, hk, h1, h2, List.filterMap_cons]
  rw [pieces]
  exact .fixed .origin (.word_cons (spells_text hg) (.fixed .inside (.node_cons h
    (.fixed .select (.node 0 h')) (.text fun _ => rfl))) (.text fun _ => rfl))

theorem filteredQuery {t : Token} {source condition selection : Node} {wid sid : Nat}
    {wspan sspan : Span} {wmarks smarks : List Mark} {ws ws' ws'' : List Word}
    (hk : t.kind = .identifier) (hg : Genuine (name t.text))
    (hs : source.kind.isExpression = true) (h : Prints source ws) (h' : Prints condition ws')
    (h'' : Prints selection ws'') :
    Prints ⟨id, .query, span, marks, .token t :: Grammar.asNodes
        [source, ⟨wid, .whereClause, wspan, wmarks, [.node condition]⟩,
          ⟨sid, .selectClause, sspan, smarks, [.node selection]⟩]⟩
      (name "from" :: name t.text :: name "in" ::
        (ws ++ name "where" :: (ws' ++ name "select" :: ws''))) := by
  intro style depth
  have h1 : source.kind ≠ .whereClause := fun he => by simp [he, NodeKind.isExpression] at hs
  have h2 : source.kind ≠ .selectClause := fun he => by simp [he, NodeKind.isExpression] at hs
  have pieces : layout style ⟨id, .query, span, marks, .token t :: Grammar.asNodes
        [source, ⟨wid, .whereClause, wspan, wmarks, [.node condition]⟩,
          ⟨sid, .selectClause, sspan, smarks, [.node selection]⟩]⟩ =
      [.text "from ", .text t.text, .text " in ", .node 0 source, .text " where ",
        .node 0 condition, .text " select ", .node 0 selection] := by
    simp [layout, clause, child, plain, Node.nodeOfKind?, Node.node?, Node.nodes, Node.nameOrEmpty,
      Node.name?, Node.tokenOfKind?, Node.tokens, Grammar.asNodes, hk, h1, h2, List.filterMap_cons]
  rw [pieces]
  exact .fixed .origin (.word_cons (spells_text hg) (.fixed .inside (.node_cons h
    (.fixed .filter (.node_cons h' (.fixed .select (.node 0 h'')) (.text fun _ => rfl)))
    (.text fun _ => rfl))) (.text fun _ => rfl))

/-! ## Statements -/

theorem declarator {t : Token} (hk : t.kind = .identifier) (hg : Genuine (name t.text)) :
    Prints ⟨id, .declarator, span, marks, [.token t]⟩ [name t.text] := by
  intro style depth
  have pieces : layout style ⟨id, .declarator, span, marks, [.token t]⟩ = [.text t.text] := by
    simp [layout, Layout.declarator, Node.node?, Node.nodes, Node.nameOrEmpty, Node.name?,
      Node.tokenOfKind?, Node.tokens, hk]
  rw [pieces]
  exact .word (spells_text hg)

theorem initialized {t : Token} {value : Node} {ws : List Word} (hk : t.kind = .identifier)
    (hg : Genuine (name t.text)) (h : Prints value ws) :
    Prints ⟨id, .declarator, span, marks, [.token t, .node value]⟩
      (name t.text :: punct "=" :: ws) := by
  intro style depth
  have pieces : layout style ⟨id, .declarator, span, marks, [.token t, .node value]⟩ =
      [.text t.text, .text " = ", .node 0 value] := by
    simp [layout, Layout.declarator, Node.node?, Node.nodes, Node.nameOrEmpty, Node.name?,
      Node.tokenOfKind?, Node.tokens, hk, List.filterMap_cons]
  rw [pieces]
  exact .word_cons (spells_text hg) (.fixed .initial (.node 0 h)) (.text fun _ => rfl)

/-- A declaration without its semicolon. -/
theorem declaration {style : Style} {depth : Nat} {n : Node} {wss : List (List Word)}
    (hk : ∀ d ∈ n.nodes, d.kind = .declarator) (h : List.Forall₂ Prints n.nodes wss) :
    Laid style depth (Layout.declaration n) (name "var" :: listed wss) :=
  .fixed .var (.separated (inPlace (fun d hd => by simp only [layout, hd]) hk h))

theorem localDeclaration {ns : List Node} {wss : List (List Word)}
    (hk : ∀ d ∈ ns, d.kind = .declarator) (h : List.Forall₂ Prints ns wss) :
    Prints ⟨id, .localDeclaration, span, marks, Grammar.asNodes ns⟩
      (name "var" :: (listed wss ++ [punct ";"])) := by
  intro style depth
  refine .append (declaration ?_ ?_) (.fixed .semicolon .nil) (.text fun _ => rfl)
  · rwa [nodes_asNodes]
  · rwa [nodes_asNodes]

theorem block {ns : List Node} {wss : List (List Word)} (h : List.Forall₂ Prints ns wss) :
    Prints ⟨id, .block, span, marks, Grammar.asNodes ns⟩
      (punct "\x7b" :: (wss.flatten ++ [punct "\x7d"])) := by
  intro style depth
  cases h with
  | nil => exact .fixed .braces .nil
  | @cons n ws ns wss hn hns =>
    have pieces : layout style ⟨id, .block, span, marks, Grammar.asNodes (n :: ns)⟩ =
        .text "\x7b" :: (lines 1 (n :: ns) ++ [Piece.line 0, .text "\x7d"]) := by
      simp only [layout, Layout.block, nodes_asNodes]
      rfl
    rw [pieces]
    exact .fixed .openBrace (Laid.lines (.cons hn hns) (.line (.fixed .closeBrace .nil)) .line).1

theorem expressionStatement {n : Node} {ws : List Word} (h : Prints n ws) :
    Prints ⟨id, .expressionStatement, span, marks, [.node n]⟩ (ws ++ [punct ";"]) :=
  fun _ _ => .node_cons h (.fixed .semicolon .nil) (.text fun _ => rfl)

theorem emptyStatement : Prints ⟨id, .emptyStatement, span, marks, []⟩ [punct ";"] :=
  fun _ _ => .fixed .semicolon .nil

theorem breakStatement :
    Prints ⟨id, .breakStatement, span, marks, []⟩ [name "break", punct ";"] :=
  fun _ _ => .fixed .jumpOut .nil

theorem continueStatement :
    Prints ⟨id, .continueStatement, span, marks, []⟩ [name "continue", punct ";"] :=
  fun _ _ => .fixed .jumpOn .nil

theorem yieldBreak :
    Prints ⟨id, .yieldBreak, span, marks, []⟩ [name "yield", name "break", punct ";"] :=
  fun _ _ => .fixed .yieldBreak .nil

theorem yieldReturn {n : Node} {ws : List Word} (h : Prints n ws) :
    Prints ⟨id, .yieldReturn, span, marks, [.node n]⟩
      (name "yield" :: name "return" :: (ws ++ [punct ";"])) :=
  fun _ _ => .fixed .yieldReturn (.node_cons h (.fixed .semicolon .nil) (.text fun _ => rfl))

theorem gotoStatement {t : Token} (hk : t.kind = .identifier) (hg : Genuine (name t.text)) :
    Prints ⟨id, .gotoStatement, span, marks, [.token t]⟩
      [name "goto", name t.text, punct ";"] := by
  intro style depth
  have pieces : layout style ⟨id, .gotoStatement, span, marks, [.token t]⟩ =
      [.text "goto ", .text t.text, .text ";"] := by
    simp [layout, Node.nameOrEmpty, Node.name?, Node.tokenOfKind?, Node.tokens, hk]
  rw [pieces]
  exact .fixed .goto (.word_cons (spells_text hg) (.fixed .semicolon .nil)
    (.text fun _ => rfl))

theorem returnNothing :
    Prints ⟨id, .returnStatement, span, marks, []⟩ [name "return", punct ";"] :=
  fun _ _ => .word_cons (spells_keyword (by simp)) (.fixed .semicolon .nil) (.text fun _ => rfl)

theorem returning {n : Node} {ws : List Word} (h : Prints n ws) :
    Prints ⟨id, .returnStatement, span, marks, [.node n]⟩
      (name "return" :: (ws ++ [punct ";"])) :=
  fun _ _ => .word_cons (spells_keyword (by simp)) (.fixed .blank (.node_cons h
    (.fixed .semicolon .nil) (.text fun _ => rfl))) (.text fun _ => rfl)

end Prints

/-! ### Statements with bodies -/

section

variable {style : Style} {depth : Nat} {n : Node} {qs : List Piece} {ws ws' : List Word}

/-- The body of a control statement. -/
theorem Laid.embedded (h : Prints n ws) : Laid style depth (Layout.embedded style n) ws := by
  unfold Layout.embedded
  split
  · exact .fixed .blank (.node 0 h)
  · exact .line (.node 1 h)

theorem Leading.embedded : Leading style depth (Layout.embedded style n ++ qs) := by
  unfold Layout.embedded
  split
  · exact .text fun _ => rfl
  · exact .line

theorem Laid.embedded_append (h : Prints n ws) (h' : Laid style depth qs ws')
    (hl : Leading style depth qs) :
    Laid style depth (Layout.embedded style n ++ qs) (ws ++ ws') :=
  (Laid.embedded h).append h' hl

end

namespace Prints

variable {id : Nat} {span : Span} {marks : List Mark}

theorem whileStatement {c b : Node} {wc wb : List Word} (hc : Prints c wc) (hb : Prints b wb) :
    Prints ⟨id, .whileStatement, span, marks, Grammar.asNodes [c, b]⟩
      (name "while" :: punct "(" :: (wc ++ punct ")" :: wb)) :=
  fun _ _ => .fixed .loop (.node_cons hc (.fixed .closing (.embedded hb)) (.text fun _ => rfl))

theorem lockStatement {c b : Node} {wc wb : List Word} (hc : Prints c wc) (hb : Prints b wb) :
    Prints ⟨id, .lockStatement, span, marks, Grammar.asNodes [c, b]⟩
      (name "lock" :: punct "(" :: (wc ++ punct ")" :: wb)) :=
  fun _ _ => .fixed .lock (.node_cons hc (.fixed .closing (.embedded hb)) (.text fun _ => rfl))

theorem doStatement {b c : Node} {wb wc : List Word} (hb : Prints b wb) (hc : Prints c wc) :
    Prints ⟨id, .doStatement, span, marks, Grammar.asNodes [b, c]⟩
      (name "do" :: (wb ++ name "while" :: punct "(" :: (wc ++ [punct ")", punct ";"]))) := by
  intro style depth
  have loop : Laid style depth (.text "while (" :: .node 0 c :: [.text ");"])
      (name "while" :: punct "(" :: (wc ++ [punct ")", punct ";"])) :=
    .fixed .loop (.node_cons hc (.fixed .loopEnd .nil) (.text fun _ => rfl))
  have pieces : layout style ⟨id, .doStatement, span, marks, Grammar.asNodes [b, c]⟩ =
      .text "do" :: (embedded style b ++ (if b.kind = .block then Piece.text " " else .line 0) ::
        .text "while (" :: .node 0 c :: [.text ");"]) := by
    simp [layout, child, doBody, plain, Node.node?, nodes_asNodes]
  rw [pieces]
  refine .word_cons (spells_keyword (by simp)) ?_ .embedded
  split
  · exact .embedded_append hb (.fixed .blank loop) (.text fun _ => rfl)
  · exact .embedded_append hb (.line loop) .line

theorem ifStatement {c b : Node} {wc wb : List Word} (hc : c.kind.isExpression = true)
    (hb : b.kind.isStatement = true) (h : Prints c wc) (h' : Prints b wb) :
    Prints ⟨id, .ifStatement, span, marks, Grammar.asNodes [c, b]⟩
      (name "if" :: punct "(" :: (wc ++ punct ")" :: wb)) := by
  intro style depth
  have h1 : c.kind ≠ .elseClause := fun he => by simp [he, NodeKind.isExpression] at hc
  have h2 : b.kind ≠ .elseClause := fun he => by simp [he, NodeKind.isStatement] at hb
  have pieces : layout style ⟨id, .ifStatement, span, marks, Grammar.asNodes [c, b]⟩ =
      [Piece.text "if (", .node 0 c, .text ")"] ++ embedded style b := by
    simp [layout, Layout.ifStatement, child, plain, Node.nodeOfKind?, Node.node?, nodes_asNodes,
      h1, h2]
  rw [pieces]
  exact .fixed .condition (.node_cons h (.fixed .closing (.embedded h')) (.text fun _ => rfl))

theorem ifElse {c b e : Node} {eid : Nat} {espan : Span} {emarks : List Mark}
    {wc wb we : List Word} (hc : c.kind.isExpression = true) (hb : b.kind.isStatement = true)
    (h : Prints c wc) (h' : Prints b wb) (h'' : Prints e we) :
    Prints ⟨id, .ifStatement, span, marks,
        Grammar.asNodes [c, b, ⟨eid, .elseClause, espan, emarks, [.node e]⟩]⟩
      (name "if" :: punct "(" :: (wc ++ punct ")" :: (wb ++ name "else" :: we))) := by
  intro style depth
  have h1 : c.kind ≠ .elseClause := fun he => by simp [he, NodeKind.isExpression] at hc
  have h2 : b.kind ≠ .elseClause := fun he => by simp [he, NodeKind.isStatement] at hb
  have pieces : layout style ⟨id, .ifStatement, span, marks,
        Grammar.asNodes [c, b, ⟨eid, .elseClause, espan, emarks, [.node e]⟩]⟩ =
      [Piece.text "if (", .node 0 c, .text ")"] ++ (embedded style b ++
        elseBranch style b.kind ⟨eid, .elseClause, espan, emarks, [.node e]⟩) := by
    simp [layout, Layout.ifStatement, child, plain, Node.nodeOfKind?, Node.node?, nodes_asNodes,
      h1, h2]
  have branch : Laid style depth
      (if e.kind = .ifStatement then [.text " ", .node 0 e] else embedded style e) we := by
    split
    · exact .fixed .blank (.node 0 h'')
    · exact .embedded h''
  have other : Laid style depth (.text "else" ::
      if e.kind = .ifStatement then [.text " ", .node 0 e] else embedded style e)
      (name "else" :: we) := by
    refine .word_cons (spells_keyword (by simp)) branch ?_
    split
    · exact .text fun _ => rfl
    · rw [← List.append_nil (embedded style e)]
      exact .embedded
  rw [pieces]
  refine .fixed .condition (.node_cons h (.fixed .closing ?_) (.text fun _ => rfl))
  unfold elseBranch
  split
  · exact .embedded_append h' (.fixed .blank other) (.text fun _ => rfl)
  · exact .embedded_append h' (.line other) .line

theorem forEachStatement {t : Token} {s b : Node} {ws wb : List Word} (hk : t.kind = .identifier)
    (hg : Genuine (name t.text)) (hs : Prints s ws) (hb : Prints b wb) :
    Prints ⟨id, .forEachStatement, span, marks, [.token t, .node s, .node b]⟩
      (name "foreach" :: punct "(" :: name "var" :: name t.text :: name "in" ::
        (ws ++ punct ")" :: wb)) := by
  intro style depth
  have pieces : layout style ⟨id, .forEachStatement, span, marks, [.token t, .node s, .node b]⟩ =
      [Piece.text "foreach (var ", .text t.text, .text " in ", .node 0 s, .text ")"] ++
        embedded style b := by
    simp [layout, awaitPrefix, Node.hasAwait, child, plain, Node.node?, Node.nodes,
      Node.nameOrEmpty, Node.name?, Node.tokenOfKind?, Node.tokens, hk, List.filterMap_cons]
  rw [pieces]
  exact .fixed .forEach (.word_cons (spells_text hg) (.fixed .inside
    (.node_cons hs (.fixed .closing (.embedded hb)) (.text fun _ => rfl))) (.text fun _ => rfl))

theorem awaitForEach {a t : Token} {s b : Node} {ws wb : List Word} (ha : a.kind = .awaitKeyword)
    (hk : t.kind = .identifier) (hg : Genuine (name t.text)) (hs : Prints s ws)
    (hb : Prints b wb) :
    Prints ⟨id, .forEachStatement, span, marks, [.token a, .token t, .node s, .node b]⟩
      (name "await" :: name "foreach" :: punct "(" :: name "var" :: name t.text :: name "in" ::
        (ws ++ punct ")" :: wb)) := by
  intro style depth
  have pieces : layout style
        ⟨id, .forEachStatement, span, marks, [.token a, .token t, .node s, .node b]⟩ =
      [Piece.text "await ", .text "foreach (var ", .text t.text, .text " in ", .node 0 s,
        .text ")"] ++ embedded style b := by
    simp [layout, awaitPrefix, Node.hasAwait, child, plain, Node.node?, Node.nodes,
      Node.nameOrEmpty, Node.name?, Node.tokenOfKind?, Node.tokens, ha, hk, List.filterMap_cons]
  rw [pieces]
  exact .fixed .await (.fixed .forEach (.word_cons (spells_text hg) (.fixed .inside
    (.node_cons hs (.fixed .closing (.embedded hb)) (.text fun _ => rfl))) (.text fun _ => rfl)))

theorem usingStatement {d b : Node} {wss : List (List Word)} {wb : List Word}
    (hk : ∀ m ∈ d.nodes, m.kind = .declarator) (hd : List.Forall₂ Prints d.nodes wss)
    (hb : Prints b wb) :
    Prints ⟨id, .usingStatement, span, marks, [.node d, .node b]⟩
      (name "using" :: punct "(" :: name "var" :: (listed wss ++ punct ")" :: wb)) := by
  intro style depth
  have pieces : layout style ⟨id, .usingStatement, span, marks, [.node d, .node b]⟩ =
      .text "using (" :: (Layout.declaration d ++ Piece.text ")" :: embedded style b) := by
    simp [layout, awaitPrefix, Node.hasAwait, child, Node.node?, Node.nodes, Node.tokenOfKind?,
      Node.tokens]
  rw [pieces]
  exact .fixed .resource (.append (declaration hk hd) (.fixed .closing (.embedded hb))
    (.text fun _ => rfl))

theorem awaitUsing {a : Token} {d b : Node} {wss : List (List Word)} {wb : List Word}
    (ha : a.kind = .awaitKeyword) (hk : ∀ m ∈ d.nodes, m.kind = .declarator)
    (hd : List.Forall₂ Prints d.nodes wss) (hb : Prints b wb) :
    Prints ⟨id, .usingStatement, span, marks, [.token a, .node d, .node b]⟩
      (name "await" :: name "using" :: punct "(" :: name "var" ::
        (listed wss ++ punct ")" :: wb)) := by
  intro style depth
  have pieces : layout style ⟨id, .usingStatement, span, marks, [.token a, .node d, .node b]⟩ =
      .text "await " :: .text "using (" ::
        (Layout.declaration d ++ Piece.text ")" :: embedded style b) := by
    simp [layout, awaitPrefix, Node.hasAwait, child, Node.node?, Node.nodes, Node.tokenOfKind?,
      Node.tokens, ha, List.filterMap_cons]
  rw [pieces]
  exact .fixed .await (.fixed .resource (.append (declaration hk hd)
    (.fixed .closing (.embedded hb)) (.text fun _ => rfl)))

/-- A part of a `for` header; a part left out has no words. -/
def Part (n : Node) (ws : List Word) : Prop := ∀ style depth, Laid style depth (forPart n) ws

theorem forStatement {i c s b : Node} {wi wc ws wb : List Word} (hi : Part i wi)
    (hc : Part c wc) (hs : Part s ws) (hb : Prints b wb) :
    Prints ⟨id, .forStatement, span, marks, Grammar.asNodes [i, c, s, b]⟩
      (name "for" :: punct "(" :: (wi ++ punct ";" :: (wc ++ punct ";" ::
        (ws ++ punct ")" :: wb)))) := by
  intro style depth
  have pieces : layout style ⟨id, .forStatement, span, marks, Grammar.asNodes [i, c, s, b]⟩ =
      .text "for (" :: (forPart i ++ Piece.text "; " :: (forPart c ++ Piece.text "; " ::
        (forPart s ++ Piece.text ")" :: embedded style b))) := by
    simp [layout, child, Node.node?, nodes_asNodes]
  rw [pieces]
  exact .fixed .counter (.append (hi style depth) (.fixed .semicolonBlank
    (.append (hc style depth) (.fixed .semicolonBlank (.append (hs style depth)
      (.fixed .closing (.embedded hb)) (.text fun _ => rfl))) (.text fun _ => rfl)))
    (.text fun _ => rfl))

theorem Part.empty : Part ⟨id, .emptyStatement, span, marks, []⟩ [] := fun _ _ => .nil

theorem Part.declaration {ns : List Node} {wss : List (List Word)}
    (hk : ∀ d ∈ ns, d.kind = .declarator) (h : List.Forall₂ Prints ns wss) :
    Part ⟨id, .localDeclaration, span, marks, Grammar.asNodes ns⟩ (name "var" :: listed wss) := by
  intro style depth
  refine Prints.declaration ?_ ?_
  · rwa [nodes_asNodes]
  · rwa [nodes_asNodes]

theorem Part.effect {n : Node} {ws : List Word} (h : Prints n ws) :
    Part ⟨id, .expressionStatement, span, marks, [.node n]⟩ ws :=
  fun _ _ => .node 0 h

theorem Part.expression {n : Node} {ws : List Word} (hk : n.kind.isExpression = true)
    (h : Prints n ws) : Part n ws := by
  intro style depth
  have pieces : forPart n = [.node 0 n] := by
    unfold forPart
    split
    all_goals first | rfl | simp_all [NodeKind.isExpression]
  rw [pieces]
  exact .node 0 h

/-- A section of a `switch`, at any depth in it. -/
def InSwitch (n : Node) (ws : List Word) : Prop :=
  ∀ style depth d qs ws', Laid style depth qs ws' → Leading style depth qs →
    Laid style depth (switchSection d n ++ qs) (ws ++ ws')

theorem caseSection {l : Node} {ns : List Node} {wl : List Word} {wss : List (List Word)}
    (h : Prints l wl) (hs : List.Forall₂ Prints ns wss) :
    InSwitch ⟨id, .switchSection, span, marks, .node l :: Grammar.asNodes ns⟩
      (name "case" :: (wl ++ punct ":" :: wss.flatten)) := by
  intro style depth d qs ws' hq hl
  have pieces : switchSection d ⟨id, .switchSection, span, marks, .node l :: Grammar.asNodes ns⟩ ++
      qs = .text "case " :: .node d l :: .text ":" :: (lines (d + 1) ns ++ qs) := by
    have none : Node.tokens ⟨id, .switchSection, span, marks, .node l :: Grammar.asNodes ns⟩ = [] :=
      (filterMap_asNodes ns).2
    simp [switchSection, Node.tokenOfKind?, none, Node.nodes, filterMap_asNodes]
  rw [pieces, List.cons_append, List.append_assoc]
  exact .fixed .caseLabel
    (.node_cons h (.fixed .colon (Laid.lines hs hq hl).1) (.text fun _ => rfl))

theorem defaultSection {t : Token} {ns : List Node} {wss : List (List Word)}
    (ht : t.kind = .defaultKeyword) (hs : List.Forall₂ Prints ns wss) :
    InSwitch ⟨id, .switchSection, span, marks, .token t :: Grammar.asNodes ns⟩
      (name "default" :: punct ":" :: wss.flatten) := by
  intro style depth d qs ws' hq hl
  have pieces : switchSection d ⟨id, .switchSection, span, marks, .token t :: Grammar.asNodes ns⟩ ++
      qs = .text "default:" :: (lines (d + 1) ns ++ qs) := by
    simp [switchSection, Node.tokenOfKind?, Node.tokens, Node.nodes, filterMap_asNodes, ht,
      List.filterMap_cons]
  rw [pieces]
  exact .fixed .defaultLabel (Laid.lines hs hq hl).1

theorem sections {style : Style} {depth : Nat} {ns : List Node} {wss : List (List Word)}
    {qs : List Piece} {ws : List Word} (h : List.Forall₂ InSwitch ns wss)
    (hq : Laid style depth qs ws) (hl : Leading style depth qs) :
    Laid style depth (Layout.sections ns ++ qs) (wss.flatten ++ ws) ∧
      Leading style depth (Layout.sections ns ++ qs) := by
  induction h with
  | nil => exact ⟨hq, hl⟩
  | @cons n ws' ns wss hn hns ih =>
    have pieces : Layout.sections (n :: ns) ++ qs =
        .line 1 :: (switchSection 1 n ++ (Layout.sections ns ++ qs)) := by
      simp [Layout.sections]
    rw [pieces, List.flatten_cons, List.append_assoc]
    exact ⟨.line (hn style depth 1 _ _ ih.1 ih.2), .line⟩

theorem switchStatement {s : Node} {ns : List Node} {ws : List Word} {wss : List (List Word)}
    (h : Prints s ws) (hs : List.Forall₂ InSwitch ns wss) :
    Prints ⟨id, .switchStatement, span, marks, Grammar.asNodes (s :: ns)⟩
      (name "switch" :: punct "(" :: (ws ++ punct ")" :: punct "\x7b" ::
        (wss.flatten ++ [punct "\x7d"]))) := by
  intro style depth
  have pieces : layout style ⟨id, .switchStatement, span, marks, Grammar.asNodes (s :: ns)⟩ =
      .text "switch (" :: .node 0 s :: .text ") \x7b" ::
        (Layout.sections ns ++ [Piece.line 0, .text "\x7d"]) := by
    simp [layout, child, plain, Node.node?, nodes_asNodes]
  rw [pieces]
  exact .fixed .switch (.node_cons h (.fixed .sections
    (sections hs (.line (.fixed .closeBrace .nil)) .line).1) (.text fun _ => rfl))

/-- Templates and local functions. -/
theorem routine {kind : NodeKind} {f : Fixed} {t : Token} {ps : List Node} {b : Node}
    {wss : List (List Word)} {wb : List Word}
    (hf : ∀ style (n : Node), n.kind = kind → layout style n = Layout.routine f.text n)
    (hk : t.kind = .identifier) (hg : Genuine (name t.text))
    (hp : ∀ p ∈ ps, p.kind = .parameter) (hb : b.kind = .block)
    (h : List.Forall₂ Prints ps wss) (h' : Prints b wb) :
    Prints ⟨id, kind, span, marks, .token t :: Grammar.asNodes (ps ++ [b])⟩
      (f.words ++ name t.text :: punct "(" :: (listed wss ++ punct ")" :: wb)) := by
  intro style depth
  have inside : Node.nodes ⟨id, kind, span, marks, .token t :: Grammar.asNodes (ps ++ [b])⟩ =
      ps ++ [b] := by
    simp [Node.nodes, filterMap_asNodes, List.filterMap_cons]
  have found : (ps ++ [b]).find? (·.kind == .block) = some b := by
    have none : ps.find? (·.kind == .block) = none := by
      simpa using fun p hm => by simp [hp p hm]
    simp [List.find?_append, none, hb]
  rw [hf style _ rfl]
  have pieces : Layout.routine f.text
        ⟨id, kind, span, marks, .token t :: Grammar.asNodes (ps ++ [b])⟩ =
      .text f.text :: .text t.text :: .text "(" ::
        (Layout.parameters ⟨id, kind, span, marks, .token t :: Grammar.asNodes (ps ++ [b])⟩ ++
          [Piece.text ") ", .node 0 b]) := by
    simp [Layout.routine, Node.nodeOfKind?, inside, found, plain, Node.nameOrEmpty, Node.name?,
      Node.tokenOfKind?, Node.tokens, hk]
  rw [pieces]
  exact .fixed f (.word_cons (spells_text hg) (.fixed .opening
    (.append (parameters inside hp (by simp [hb]) h) (.fixed .closingBlank (.node 0 h'))
      (.text fun _ => rfl))) (.text fun _ => rfl))

theorem compilationUnit {ns : List Node} {wss : List (List Word)}
    (h : List.Forall₂ Prints ns wss) :
    Prints ⟨id, .compilationUnit, span, marks, Grammar.asNodes ns⟩ wss.flatten := by
  intro style depth
  simp only [layout, nodes_asNodes]
  generalize hs : (if style = .compact then " " else "\n\n") = s
  have blanks : Closed s.toList [] ∧ ∀ rest, breaks (s.toList ++ rest) = true := by
    subst hs
    split
    · exact ⟨closed_blanks (by decide), fun _ => rfl⟩
    · exact ⟨closed_blanks (by decide), fun _ => rfl⟩
  induction h with
  | nil => exact .nil
  | @cons n ws ns wss hn hns ih =>
    cases hns with
    | nil => simpa [separated, plain] using Laid.node 0 hn
    | @cons m ws' ns wss hm hms =>
      have rest := Laid.text ih blanks.1
      exact .node_cons hn rest (.text blanks.2)

end Prints

end Stencil.Source
