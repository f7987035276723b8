import Stencil.Proofs.Source.Extension
import Stencil.Proofs.Source.Tiling

/-!
# Spans in a tree that was read

The children of a node stand one after the other inside its span, and every span begins and ends
between two characters. A parser keeps this up by where it starts a node and where it ends it:
`Before` says that the children read so far stand between the start of a node and the next lexeme,
`Upto` that they end with the last lexeme taken, which is what `finish` needs. `Takes f p` says that
`p` leads from the one to the other when its result adds the children `f`.

Results:

* `Row.append`, `Row.pairwise` – spans in a row;
* `takes_expression`, `takes_statement` – one lemma for each production, closed by induction on the
  fuel;
* `wellNested_parseUnit`, `spans_nested` – the trees of whole texts.
-/
namespace Stencil.Source

/-- Whether a character of the text, or its end, begins at that byte. -/
abbrev Boundary (source : String) (offset : Nat) : Prop :=
  (⟨offset⟩ : String.Pos.Raw).IsValid source

theorem boundary_byteLength {source : String} {before after : List Char}
    (h : source.toList = before ++ after) : Boundary source (byteLength before) := by
  rw [Boundary, String.Pos.Raw.isValid_iff_exists_append]
  refine ⟨String.ofList before, String.ofList after, ?_, ?_⟩
  · rw [← String.ofList_append, ← h, String.ofList_toList]
  · rw [← utf8ByteSize_ofList]
    rfl

theorem boundary_size (source : String) : Boundary source source.utf8ByteSize := by
  rw [utf8ByteSize_eq]
  exact boundary_byteLength (List.append_nil _).symm

theorem Boundary.le {source : String} {offset : Nat} (h : Boundary source offset) :
    offset ≤ source.utf8ByteSize :=
  String.Pos.Raw.IsValid.le_utf8ByteSize h

/-! ## Spans in a row -/

section

variable (source : String)

/-- The spans stand one after the other from `lo` to `hi`, each between two characters. -/
def Row (lo hi : Nat) : List Span → Prop
  | [] => lo ≤ hi
  | s :: ss =>
    lo ≤ s.start ∧ s.start ≤ s.stop ∧ Boundary source s.start ∧ Boundary source s.stop ∧
      Row s.stop hi ss

end

namespace Row

variable {source : String} {lo mid hi : Nat} {ss ts : List Span}

theorem le (h : Row source lo hi ss) : lo ≤ hi := by
  induction ss generalizing lo with
  | nil => exact h
  | cons s ss ih =>
    obtain ⟨hlo, hs, -, -, h⟩ := h
    have := ih h
    omega

theorem widen {lo' hi' : Nat} (h : Row source lo hi ss) (hlo : lo' ≤ lo) (hhi : hi ≤ hi') :
    Row source lo' hi' ss := by
  induction ss generalizing lo lo' with
  | nil => exact Nat.le_trans hlo (Nat.le_trans h hhi)
  | cons s ss ih =>
    obtain ⟨hs, hle, start, stop, h⟩ := h
    exact ⟨Nat.le_trans hlo hs, hle, start, stop, ih h (Nat.le_refl _)⟩

theorem append (h : Row source lo mid ss) (ht : Row source mid hi ts) :
    Row source lo hi (ss ++ ts) := by
  induction ss generalizing lo with
  | nil => exact ht.widen h (Nat.le_refl _)
  | cons s ss ih =>
    obtain ⟨hs, hle, start, stop, h⟩ := h
    exact ⟨hs, hle, start, stop, ih h⟩

theorem left (h : Row source lo hi (ss ++ ts)) : Row source lo hi ss := by
  induction ss generalizing lo with
  | nil => exact h.le
  | cons s ss ih =>
    obtain ⟨hs, hle, start, stop, h⟩ := h
    exact ⟨hs, hle, start, stop, ih h⟩

theorem of_mem (h : Row source lo hi ss) {s : Span} (hs : s ∈ ss) :
    lo ≤ s.start ∧ s.start ≤ s.stop ∧ s.stop ≤ hi ∧ Boundary source s.start ∧
      Boundary source s.stop := by
  induction ss generalizing lo with
  | nil => cases hs
  | cons t ss ih =>
    obtain ⟨ht, hle, start, stop, h⟩ := h
    rcases List.mem_cons.1 hs with rfl | hs
    · exact ⟨ht, hle, h.le, start, stop⟩
    · obtain ⟨hlo, rest⟩ := ih h hs
      exact ⟨by omega, rest⟩

theorem pairwise (h : Row source lo hi ss) : ss.Pairwise fun s t => s.stop ≤ t.start := by
  induction ss generalizing lo with
  | nil => exact .nil
  | cons s ss ih =>
    obtain ⟨-, -, -, -, h⟩ := h
    exact List.pairwise_cons.2 ⟨fun t ht => (h.of_mem ht).1, ih h⟩

end Row

/-- The lexemes of a text stand in a row. -/
theorem Tiled.row {source : String} {offset : Nat} {cs : List Char} {ls : List Lexeme}
    (h : Tiled offset cs ls) {before : List Char} (hsplit : source.toList = before ++ cs)
    (hoffset : byteLength before = offset) :
    Row source offset source.utf8ByteSize (ls.map Lexeme.span) := by
  have whole := utf8ByteSize_eq source
  induction h generalizing before with
  | @done offset gap skipped =>
    have size : offset + byteLength gap = source.utf8ByteSize := by
      rw [whole, hsplit, byteLength_append, hoffset]
    have last := boundary_size source
    rw [size]
    exact ⟨by simp only [Lexeme.endAt]; omega, Nat.le_refl _, last, last, Nat.le_refl _⟩
  | @word offset gap inner after l ls skipped spelled start stop more ih =>
    have left : byteLength (before ++ gap) = l.span.start := by
      rw [byteLength_append, hoffset, start]
    have right : byteLength (before ++ gap ++ inner) = l.span.stop := by
      rw [byteLength_append, left, stop]
    refine ⟨by omega, by omega, ?_, ?_, ih ?_ right⟩
    · have split : source.toList = before ++ gap ++ (inner ++ after) := by simp [hsplit]
      exact left ▸ boundary_byteLength split
    · have split : source.toList = before ++ gap ++ inner ++ after := by simp [hsplit]
      exact right ▸ boundary_byteLength split
    · simp [hsplit]

/-! ## Trees -/

/-- The children of each node stand in a row inside its span. -/
def WellNested (source : String) (n : Node) : Prop :=
  ∀ m ∈ n.preorder, Boundary source m.span.start ∧ Boundary source m.span.stop ∧
    Row source m.span.start m.span.stop (m.children.map Child.span)

/-- The children `cs` of a node that starts at `lo` stand before `hi`. -/
structure Placed (source : String) (lo hi : Nat) (cs : List (Child Node)) : Prop where
  start : Boundary source lo
  row : Row source lo hi (cs.map Child.span)
  nested : ∀ n, .node n ∈ cs → WellNested source n

namespace Placed

variable {source : String} {lo mid hi : Nat} {cs ds : List (Child Node)}

theorem widen {hi' : Nat} (h : Placed source lo hi cs) (hhi : hi ≤ hi') : Placed source lo hi' cs :=
  { h with row := h.row.widen (Nat.le_refl _) hhi }

theorem append (h : Placed source lo mid cs) (hd : Placed source mid hi ds) :
    Placed source lo hi (cs ++ ds) where
  start := h.start
  row := by
    rw [List.map_append]
    exact h.row.append hd.row
  nested n hn := (List.mem_append.1 hn).elim (h.nested n) (hd.nested n)

/-- The children make a node. -/
theorem wellNested (h : Placed source lo hi cs) (hhi : Boundary source hi) (id : Nat)
    (kind : NodeKind) (marks : List Mark) : WellNested source ⟨id, kind, ⟨lo, hi⟩, marks, cs⟩ := by
  intro m hm
  rcases Node.mem_preorder.1 hm with rfl | ⟨n, hn, hm⟩
  · exact ⟨h.start, hhi, h.row⟩
  · exact h.nested n (Node.mem_nodes.1 hn) m hm

end Placed

/-! ## Cursors -/

/-- The lexemes still to come stand in a row after those that were taken. -/
structure Cursor.Ordered (source : String) (c : Cursor) : Prop where
  length : c.length = source.utf8ByteSize
  lastEnd : Boundary source c.lastEnd
  row : Row source c.lastEnd c.length (c.rest.map Lexeme.span)

/-- The children stand between `lo` and the next lexeme. -/
structure Before (source : String) (lo : Nat) (cs : List (Child Node)) (c : Cursor) : Prop where
  ordered : c.Ordered source
  placed : Placed source lo c.start cs

/-- The children stand between `lo` and the end of the last lexeme taken. -/
structure Upto (source : String) (lo : Nat) (cs : List (Child Node)) (c : Cursor) : Prop where
  ordered : c.Ordered source
  placed : Placed source lo c.lastEnd cs

section

variable {source : String} {lo : Nat} {cs ds : List (Child Node)} {c : Cursor}

theorem Cursor.rest_ne_nil_of_isPunct {text : String} (h : c.peek.isPunct text = true) :
    c.rest ≠ [] := by
  refine rest_ne_nil fun he => ?_
  simp [Lexeme.isPunct, he] at h

theorem Cursor.rest_ne_nil_of_isWord {text : String} (h : c.peek.isWord text = true) :
    c.rest ≠ [] := by
  refine rest_ne_nil fun he => ?_
  simp [Lexeme.isWord, he] at h

theorem Cursor.rest_ne_nil_of_ident (h : c.peek.kind = .ident) : c.rest ≠ [] := by
  refine rest_ne_nil fun he => ?_
  simp [he] at h

theorem Cursor.rest_ne_nil_of_operator {texts : List String}
    (h : (c.peek.kind == .punct && texts.contains c.peek.text) = true) : c.rest ≠ [] := by
  refine rest_ne_nil fun he => ?_
  simp [he] at h

theorem Cursor.Ordered.lastEnd_le (h : c.Ordered source) :
    c.lastEnd ≤ c.start ∧ Boundary source c.start := by
  obtain ⟨length, -, row⟩ := h
  unfold Cursor.start Cursor.peek Cursor.ahead
  cases hr : c.rest with
  | nil =>
    rw [hr] at row
    refine ⟨row, ?_⟩
    simpa [Lexeme.endAt, length] using boundary_size source
  | cons l rest =>
    rw [hr] at row
    obtain ⟨le, -, start, -⟩ := row
    exact ⟨le, start⟩

theorem Upto.before (h : Upto source lo cs c) : Before source lo cs c :=
  ⟨h.ordered, h.placed.widen h.ordered.lastEnd_le.1⟩

/-- A node that starts with the next lexeme. -/
theorem Before.fresh (h : Before source lo cs c) : Before source c.start [] c :=
  ⟨h.ordered, h.ordered.lastEnd_le.2, Nat.le_refl _, by simp⟩

/-- Taking a lexeme, with the children it adds. -/
theorem Before.advance (h : Before source lo cs c) (hne : c.rest ≠ []) {ds : List (Child Node)}
    (hds : ds = [] ∨ ∃ t : Token, t.span = c.peek.span ∧ ds = [.token t]) :
    Upto source lo (cs ++ ds) c.advance := by
  obtain ⟨⟨length, -, row⟩, placed⟩ := h
  have rest := Cursor.rest_eq hne
  have stop : c.advance.lastEnd = c.peek.span.stop := by
    obtain ⟨_ | ⟨l, rest⟩, length, lastEnd⟩ := c
    · exact absurd rfl hne
    · rfl
  have same : c.advance.length = c.length := by
    obtain ⟨_ | ⟨l, rest⟩, length, lastEnd⟩ := c
    · exact absurd rfl hne
    · rfl
  rw [rest] at row
  obtain ⟨-, le, start, last, row⟩ := row
  refine ⟨⟨same.trans length, stop ▸ last, ?_⟩, placed.append ⟨start, ?_, ?_⟩⟩
  · rw [stop, same]
    exact row
  · rw [stop]
    rcases hds with rfl | ⟨t, ht, rfl⟩
    · exact le
    · simp only [List.map_cons, List.map_nil, Child.span, ht]
      exact ⟨Nat.le_refl _, le, start, last, Nat.le_refl _⟩
  · rcases hds with rfl | ⟨t, -, rfl⟩
    · simp
    · simp

/-- The node that the children make takes their place in the node around it. -/
theorem Upto.close {at0 : Nat} (h : Upto source at0 ds c) (outer : Placed source lo at0 cs)
    (kind : NodeKind) : Upto source lo (cs ++ [.node (c.finish kind at0 ds)]) c := by
  obtain ⟨ordered, placed⟩ := h
  have stop : max c.lastEnd at0 = c.lastEnd := Nat.max_eq_left placed.row.le
  refine ⟨ordered, outer.append ⟨placed.start, ?_, ?_⟩⟩
  · simp only [Cursor.finish, stop, List.map_cons, List.map_nil, Child.span]
    exact ⟨Nat.le_refl _, placed.row.le, placed.start, ordered.lastEnd, Nat.le_refl _⟩
  · intro n hn
    obtain rfl : n = c.finish kind at0 ds := by simpa using hn
    rw [Cursor.finish, stop]
    exact placed.wellNested ordered.lastEnd _ _ _

theorem Upto.node {at0 : Nat} (h : Upto source at0 ds c) (kind : NodeKind) :
    Upto source at0 [.node (c.finish kind at0 ds)] c := by
  have outer : Placed source at0 at0 [] := ⟨h.placed.start, Nat.le_refl at0, by simp⟩
  exact h.close outer kind

/-- A node may be given up for its children. -/
theorem Upto.children {n : Node} (h : Upto source lo [.node n] c) :
    Upto source lo n.children c := by
  obtain ⟨ordered, start, ⟨hlo, -, -, -, hhi⟩, nested⟩ := h
  have inner := nested n (by simp)
  refine ⟨ordered, start, (inner n (Node.mem_preorder_self n)).2.2.widen hlo hhi, fun m hm => ?_⟩
  exact fun x hx => inner x (Node.mem_preorder.2 (.inr ⟨m, Node.mem_nodes.2 hm, hx⟩))

end

/-! ## Parsers -/

/-- Whatever `p` returns from the cursor `c`, it leaves with `Q`. -/
def From {α : Type} (c : Cursor) (p : Parse α) (Q : α → Cursor → Prop) : Prop :=
  ∀ a c', p.run c = .ok (a, c') → Q a c'

/-- From any place `p` takes lexemes, and its result stands for the children `f` between them. -/
def Takes {α : Type} (source : String) (f : α → List (Child Node)) (p : Parse α) : Prop :=
  ∀ lo cs c, Before source lo cs c → From c p fun a c' => Upto source lo (cs ++ f a) c'

/-- A parser of one node. -/
abbrev TakesNode (source : String) : Parse Node → Prop := Takes source fun n => [.node n]

/-- A parser whose result stands for no children. -/
abbrev Passes {α : Type} (source : String) : Parse α → Prop := Takes source fun _ => []

namespace From

variable {α β : Type} {source : String} {lo : Nat} {cs : List (Child Node)} {c : Cursor}
  {p : Parse α} {k : α → Parse β} {f : α → List (Child Node)} {Q : β → Cursor → Prop}

theorem bind {R : α → Cursor → Prop} (h : From c p R) (hk : ∀ a c', R a c' → From c' (k a) Q) :
    From c (p >>= k) Q := by
  intro b c' hr
  obtain ⟨a, mid, hp, hrest⟩ := run_bind_ok hr
  exact hk a mid (h a mid hp) b c' hrest

theorem pure {a : α} {R : α → Cursor → Prop} (h : R a c) : From c (pure a) R := by
  intro b c' hr
  cases hr
  exact h

theorem given {a : α} (h : From c (k a) Q) : From c (Pure.pure a >>= k) Q := by
  rwa [pure_bind]

theorem throw {R : α → Cursor → Prop} (e : SourceError) : From c (throw e) R := by
  intro b c' hr
  cases hr

theorem fail {R : α → Cursor → Prop} (what : Expectation) : From c (Parse.fail what) R :=
  bind (R := fun _ _ => True) (fun _ _ _ => trivial) fun _ _ _ => throw _

theorem tooDeep {R : α → Cursor → Prop} : From c Parse.tooDeep R :=
  bind (R := fun _ _ => True) (fun _ _ _ => trivial) fun _ _ _ => throw _

theorem get {k : Cursor → Parse β} (h : From c (k c) Q) : From c (MonadState.get >>= k) Q := h

theorem start {k : Nat → Parse β} (h : From c (k c.start) Q) : From c (Parse.start >>= k) Q := h

/-- One part after another. -/
theorem step (hp : Takes source f p) (hc : Before source lo cs c)
    (hk : ∀ a c', Upto source lo (cs ++ f a) c' → From c' (k a) Q) : From c (p >>= k) Q :=
  bind (hp lo cs c hc) hk

theorem skip (hp : Passes source p) (hc : Before source lo cs c)
    (hk : ∀ a c', Upto source lo cs c' → From c' (k a) Q) : From c (p >>= k) Q :=
  step hp hc fun a c' h => hk a c' (by simpa using h)

theorem bump {k : Lexeme → Parse β} (hc : Before source lo cs c) (hne : c.rest ≠ [])
    (hk : ∀ l c', Upto source lo cs c' → From c' (k l) Q) : From c (Parse.bump >>= k) Q := by
  have taken := hc.advance hne (.inl rfl)
  rw [List.append_nil] at taken
  exact hk c.peek c.advance taken

theorem takeToken {k : Token → Parse β} (hc : Before source lo cs c) (hne : c.rest ≠ [])
    (kind : TokenKind) (hk : ∀ t c', Upto source lo (cs ++ [.token t]) c' → From c' (k t) Q) :
    From c (Parse.takeToken kind >>= k) Q :=
  hk _ c.advance (hc.advance hne (.inr ⟨_, rfl, rfl⟩))

/-- A lexeme is taken if `test` holds of the cursor. -/
theorem taking {test : Cursor → Bool} {k : Bool → Parse β} (hc : Before source lo cs c)
    (hne : test c = true → c.rest ≠ []) (htrue : ∀ c', Upto source lo cs c' → From c' (k true) Q)
    (hfalse : From c (k false) Q) :
    From c ((do if test (← MonadState.get) then let _ ← Parse.bump; return true else return false)
      >>= k) Q := by
  rw [bind_assoc]
  refine get ?_
  split
  · next h =>
    rw [bind_assoc]
    exact bump hc (hne h) fun _ c' hc' => htrue c' hc'
  · exact hfalse

theorem eatPunct {k : Bool → Parse β} (hc : Before source lo cs c) (text : String)
    (htrue : ∀ c', Upto source lo cs c' → From c' (k true) Q) (hfalse : From c (k false) Q) :
    From c (Parse.eatPunct text >>= k) Q :=
  taking hc Cursor.rest_ne_nil_of_isPunct htrue hfalse

theorem eatWord {k : Bool → Parse β} (hc : Before source lo cs c) (text : String)
    (htrue : ∀ c', Upto source lo cs c' → From c' (k true) Q) (hfalse : From c (k false) Q) :
    From c (Parse.eatWord text >>= k) Q :=
  taking hc Cursor.rest_ne_nil_of_isWord htrue hfalse

theorem operator? {k : Option Token → Parse β} (hc : Before source lo cs c) (texts : List String)
    (hsome : ∀ t c', Upto source lo (cs ++ [.token t]) c' → From c' (k (some t)) Q)
    (hnone : From c (k none) Q) : From c (Parse.operator? texts >>= k) Q := by
  unfold Parse.operator?
  rw [bind_assoc]
  refine get ?_
  dsimp only
  split
  · next h =>
    split
    · next kind _ =>
      rw [bind_assoc]
      exact takeToken hc (Cursor.rest_ne_nil_of_operator h) kind fun t c' hc' => hsome t c' hc'
    · exact hnone
  · exact hnone

/-- A finished node takes the place of its children. -/
theorem close {at0 : Nat} {ds : List (Child Node)} {kind : NodeKind} {k : Node → Parse β}
    (hc : Upto source at0 ds c) (outer : Placed source lo at0 cs)
    (hk : ∀ n, Upto source lo (cs ++ [.node n]) c → From c (k n) Q) :
    From c (Parse.finish kind at0 ds >>= k) Q :=
  hk _ (hc.close outer kind)

theorem finish {at0 : Nat} {ds : List (Child Node)} {kind : NodeKind}
    (hc : Upto source at0 ds c) :
    From c (Parse.finish kind at0 ds) fun n c' => Upto source at0 [.node n] c' := by
  intro n c' hr
  cases hr
  exact hc.node kind

end From

namespace Takes

variable {α : Type} {source : String} {f : α → List (Child Node)} {p : Parse α}

/-- It is enough to look at a node that starts with the next lexeme. -/
theorem of_start (h : ∀ c, Before source c.start [] c →
    From c p fun a c' => Upto source c.start (f a) c') : Takes source f p := by
  intro lo cs c hc a c' hr
  have inner := h c hc.fresh a c' hr
  exact ⟨inner.ordered, hc.placed.append inner.placed⟩

theorem expectPunct (text : String) : Passes source (Parse.expectPunct text) := by
  intro lo cs c hc
  refine .eatPunct hc text (fun c' h => .pure ?_) (.fail _)
  rwa [List.append_nil]

theorem expectWord (text : String) : Passes source (Parse.expectWord text) := by
  intro lo cs c hc
  refine .eatWord hc text (fun c' h => .pure ?_) (.fail _)
  rwa [List.append_nil]

theorem identifier : Takes source (fun t => [.token t]) Parse.identifier := by
  intro lo cs c hc
  refine .get ?_
  split
  · next h =>
    simp only [Lexeme.isName, Bool.and_eq_true, beq_iff_eq] at h
    exact .takeToken (k := Pure.pure) hc (Cursor.rest_ne_nil_of_ident h.1) _ fun t c' ht => .pure ht
  · exact .fail _

theorem separated (h : Takes source f p) (fuel : Nat) :
    Takes source (List.flatMap f) (Parse.separated p fuel) := by
  induction fuel with
  | zero => exact fun lo cs c hc => .tooDeep
  | succ fuel ih =>
    intro lo cs c hc
    refine .step h hc fun a c hc => .eatPunct hc.before _ (fun c hc => ?_) (.pure ?_)
    · refine .step ih hc.before fun as c hc => .pure ?_
      rwa [List.flatMap_cons, ← List.append_assoc]
    · rwa [List.flatMap_singleton]

theorem bracketed (h : Takes source f p) (opening closing : String) (fuel : Nat) :
    Takes source (List.flatMap f) (Parse.bracketed opening closing p fuel) := by
  intro lo cs c hc
  refine .skip (expectPunct _) hc fun _ c hc => .get ?_
  split
  · refine .given (.skip (expectPunct _) hc.before fun _ c hc => .pure ?_)
    rwa [List.flatMap_nil, List.append_nil]
  · refine .step (separated h fuel) hc.before fun as c hc => ?_
    exact .skip (expectPunct _) hc.before fun _ c hc => .pure hc

end Takes

theorem asNodes_eq (ns : List Node) : Grammar.asNodes ns = ns.flatMap fun n => [.node n] :=
  List.map_eq_flatMap

theorem From.itemsUntil {source : String} {lo : Nat} {cs : List (Child Node)} {c : Cursor}
    {p : Parse Node} (h : TakesNode source p) (hc : Upto source lo cs c) (stop : Cursor → Bool)
    (fuel : Nat) :
    From c (Parse.itemsUntil stop p fuel) fun ns c' =>
      Upto source lo (cs ++ Grammar.asNodes ns) c' := by
  induction fuel generalizing cs c with
  | zero => exact .tooDeep
  | succ fuel ih =>
    refine .get ?_
    split
    · exact .pure (by simpa [Grammar.asNodes] using hc)
    · split
      · exact .fail _
      · refine .step h hc.before fun n c hc => .bind (ih hc) fun ns c hc => .pure ?_
        simpa [Grammar.asNodes] using hc

namespace Grammar

open Parse

variable {source : String}

/-! ## Names, types and parameters -/

theorem passes_typeText (fuel : Nat) : Passes source (typeText fuel) := by
  induction fuel with
  | zero => exact fun lo cs c hc => .tooDeep
  | succ fuel ih =>
    intro lo cs c hc
    refine .get ?_
    split
    · exact .fail _
    · next h =>
      have ident : c.peek.kind = .ident := by simpa using h
      refine .bump hc (Cursor.rest_ne_nil_of_ident ident) fun l c hc => ?_
      refine .eatPunct hc.before _ (fun c hc => ?_) (.pure (by simpa using hc))
      refine .step (.separated ih fuel) hc.before fun _ c hc => ?_
      refine .skip (.expectPunct _) hc.before fun _ c hc => .pure ?_
      simpa [List.flatMap_eq_nil_iff.2] using hc

theorem takes_typeName (fuel : Nat) : TakesNode source (typeName fuel) := by
  refine .of_start fun c hc => .start ?_
  -- one token stands for all lexemes of the type
  refine .skip (passes_typeText fuel) hc fun text d hd => .get (.finish ?_)
  obtain ⟨ordered, start, le, -⟩ := hd
  exact ⟨ordered, start, ⟨Nat.le_refl _, le, start, ordered.lastEnd, Nat.le_refl _⟩, by simp⟩

theorem takes_parameter (fuel : Nat) : TakesNode source (parameter fuel) := by
  refine .of_start fun c hc => .get ?_
  split
  · refine .step (takes_typeName fuel) hc fun type c hc => ?_
    exact .step .identifier hc.before fun name c hc => .finish hc
  · exact .step .identifier hc fun name c hc => .finish hc

theorem from_lambdaNames {lo : Nat} {cs : List (Child Node)} {c : Cursor}
    (hc : Upto source lo cs c) (fuel : Nat) :
    From c (lambdaNames fuel) fun ns c' => Upto source lo (cs ++ asNodes ns) c' := by
  induction fuel generalizing cs c with
  | zero => exact .tooDeep
  | succ fuel ih =>
    refine .get ?_
    split
    · exact .pure (by simpa [asNodes] using hc)
    · have outer := hc.before
      refine .step .identifier outer.fresh fun name c hc => ?_
      refine .close hc outer.placed fun n hn => ?_
      refine .eatPunct hn.before _ (fun c hc => ?_) (.pure hn)
      refine .bind (ih hc) fun ns c hc => .pure ?_
      simpa [asNodes] using hc

/-! ## Expressions -/

section

variable {expr stmt : Parse Node} (he : TakesNode source expr) (hs : TakesNode source stmt)

include hs in
theorem takes_block (fuel : Nat) : TakesNode source (block stmt fuel) := by
  refine .of_start fun c hc => .start ?_
  refine .skip (.expectPunct _) hc fun _ c hc => .bind (.itemsUntil hs hc _ fuel) fun ns c hc => ?_
  exact .skip (.expectPunct _) hc.before fun _ c hc => .finish hc

include he hs in
theorem takes_lambda (fuel : Nat) : TakesNode source (lambda expr stmt fuel) := by
  refine .of_start fun c hc => .start ?_
  have body {ps : List Node} {d : Cursor} (hd : Upto source c.start (asNodes ps) d) :
      From d (do
        expectPunct "=>"
        let body ← if (← get).atPunct openBrace then block stmt fuel else expr
        finish .lambda c.start (asNodes (ps ++ [body])))
        fun n c' => Upto source c.start [.node n] c' := by
    refine .skip (.expectPunct _) hd.before fun _ c hc => .get ?_
    split
    · refine .step (takes_block hs fuel) hc.before fun b c hc => .finish ?_
      simpa [asNodes] using hc
    · refine .step he hc.before fun b c hc => .finish ?_
      simpa [asNodes] using hc
  refine .eatPunct hc _ (fun d hd => ?_) ?_
  · refine .bind (from_lambdaNames hd fuel) fun ps c hc => ?_
    exact .skip (.expectPunct _) hc.before fun _ c hc => body hc
  · refine .step .identifier hc fun name d hd => ?_
    exact .close hd hc.placed fun n hn => body hn

include he in
theorem takes_query : TakesNode source (query expr) := by
  refine .of_start fun c hc => .start ?_
  refine .skip (.expectWord _) hc fun _ d hd => .step .identifier hd.before fun name d hd => ?_
  refine .skip (.expectWord _) hd.before fun _ d hd => .step he hd.before fun source' d hd => ?_
  have rest (filters : List Node) {d : Cursor}
      (hd : Upto source c.start (.token name :: asNodes (source' :: filters)) d) :
      From d (do
        let selectAt ← start
        expectWord "select"
        let selection ← expr
        let select ← finish .selectClause selectAt [.node selection]
        finish .query c.start (.token name :: asNodes (source' :: filters ++ [select])))
        fun n c' => Upto source c.start [.node n] c' := by
    have outer := hd.before
    refine .start (.skip (.expectWord _) outer.fresh fun _ d hd => ?_)
    refine .step he hd.before fun selection d hd => ?_
    refine .close hd outer.placed fun n hn => .finish ?_
    simpa [asNodes] using hn
  have outer := hd.before
  refine .start (.eatWord outer.fresh _ (fun d hd => ?_) (rest [] hd))
  refine .step he hd.before fun condition d hd => ?_
  exact .close hd outer.placed fun n hn => rest [n] hn

include he in
theorem takes_primary (fuel : Nat) : TakesNode source (primary expr fuel) := by
  refine .of_start fun c hc => .get ?_
  dsimp only
  split
  · next kind hk =>
    refine .takeToken hc (Cursor.rest_ne_nil ?_) kind fun t c hc => .finish hc
    rintro heof
    simp [literalKind?, heof] at hk
  split
  · next h => exact .bump hc (Cursor.rest_ne_nil_of_isWord h) fun _ c hc => .finish hc
  split
  · exact takes_query he _ _ c hc
  split
  · exact .step .identifier hc fun name c hc => .finish hc
  split
  · next h =>
    refine .bump hc (Cursor.rest_ne_nil_of_isPunct h) fun _ c hc => ?_
    refine .step he hc.before fun inner c hc => ?_
    exact .skip (.expectPunct _) hc.before fun _ c hc => .finish hc
  split
  · refine .step (.bracketed he _ _ fuel) hc fun es c hc => .finish ?_
    rwa [asNodes_eq]
  · exact .fail _

include he in
/-- The expression so far becomes the first child of the next one. -/
theorem from_suffixes (fuel : Nat) {at0 : Nat} {base : Node} {c : Cursor}
    (hc : Upto source at0 [.node base] c) (more : Nat) :
    From c (suffixes expr fuel at0 base more) fun n c' => Upto source at0 [.node n] c' := by
  induction more generalizing base c with
  | zero => exact .tooDeep
  | succ more ih =>
    have next {kind : NodeKind} {children : List (Child Node)} {d : Cursor}
        (hd : Upto source at0 children d) :
        From d (finish kind at0 children >>= fun n => suffixes expr fuel at0 n more)
          fun n c' => Upto source at0 [.node n] c' :=
      .bind (.finish hd) fun n d hd => ih hd
    refine .eatPunct hc.before _ (fun c hc => ?_) (.get ?_)
    · exact .step .identifier hc.before fun name c hc => next hc
    split
    · refine .step (.bracketed he _ _ fuel) hc.before fun es c hc => next ?_
      rw [asNodes_eq]
      exact hc
    refine .eatPunct hc.before _ (fun c hc => ?_) ?_
    · refine .step he hc.before fun index c hc => ?_
      exact .skip (.expectPunct _) hc.before fun _ c hc => next hc
    · exact .operator? hc.before _ (fun operator c hc => next hc) (.pure hc)

include he in
theorem takes_unary (fuel more : Nat) : TakesNode source (unary expr fuel more) := by
  induction more with
  | zero => exact fun lo cs c hc => .tooDeep
  | succ more ih =>
    refine .of_start fun c hc => .start (.operator? hc _ (fun operator c hc => ?_) ?_)
    · exact .step ih hc.before fun operand c hc => .finish hc
    refine .eatWord hc _ (fun c hc => ?_) (.get ?_)
    · exact .step ih hc.before fun operand c hc => .finish hc
    split
    · next h =>
      have opening : c.peek.isPunct "(" = true := by
        simp only [atCast, Bool.and_eq_true] at h
        exact h.1.1.1
      refine .bump hc (Cursor.rest_ne_nil_of_isPunct opening) fun _ c hc => ?_
      refine .step (takes_typeName fuel) hc.before fun type c hc => ?_
      refine .skip (.expectPunct _) hc.before fun _ c hc => ?_
      exact .step ih hc.before fun operand c hc => .finish hc
    · exact .step (takes_primary he fuel) hc fun base c hc => from_suffixes he fuel hc fuel

theorem from_binaryRest {operand : Parse Node} (ho : TakesNode source operand)
    (operators : List String) {at0 : Nat} {left : Node} {c : Cursor}
    (hc : Upto source at0 [.node left] c) (fuel : Nat) :
    From c (binaryRest operand operators at0 left fuel) fun n c' =>
      Upto source at0 [.node n] c' := by
  induction fuel generalizing left c with
  | zero => exact .tooDeep
  | succ fuel ih =>
    refine .operator? hc.before _ (fun operator c hc => ?_) (.pure hc)
    refine .step ho hc.before fun right c hc => ?_
    exact .bind (.finish hc) fun joined c hc => ih hc

theorem takes_binary {operand : Parse Node} (ho : TakesNode source operand) (fuel : Nat)
    (levels : List (List String)) : TakesNode source (binary operand fuel levels) := by
  induction levels with
  | nil => exact ho
  | cons operators tighter ih =>
    refine .of_start fun c hc => .start (.step ih hc fun left c hc => ?_)
    exact from_binaryRest ih operators hc fuel

include he in
theorem takes_conditional (fuel : Nat) : TakesNode source (conditional expr fuel) := by
  refine .of_start fun c hc => .start ?_
  refine .step (takes_binary (takes_unary he fuel fuel) fuel _) hc fun condition c hc => ?_
  refine .eatPunct hc.before _ (fun c hc => ?_) (.pure hc)
  refine .step he hc.before fun whenTrue c hc => .skip (.expectPunct _) hc.before fun _ c hc => ?_
  exact .step he hc.before fun whenFalse c hc => .finish hc

include he hs in
theorem takes_expression (fuel : Nat) : TakesNode source (expression expr stmt fuel) := by
  refine .of_start fun c hc => .get ?_
  split
  · exact takes_lambda he hs fuel _ _ c hc
  · refine .step (takes_conditional he fuel) hc fun target c hc => ?_
    refine .operator? hc.before _ (fun operator c hc => ?_) (.pure hc)
    exact .step he hc.before fun value c hc => .finish hc

/-! ## Statements -/

include he in
theorem takes_declarator : TakesNode source (declarator expr) := by
  refine .of_start fun c hc => .start (.step .identifier hc fun name c hc => ?_)
  refine .eatPunct hc.before _ (fun c hc => ?_) (.finish hc)
  exact .step he hc.before fun value c hc => .finish hc

include he in
theorem takes_declaration (fuel : Nat) : TakesNode source (declaration expr fuel) := by
  refine .of_start fun c hc => .start (.skip (.expectWord _) hc fun _ c hc => ?_)
  refine .step (.separated (takes_declarator he) fuel) hc.before fun ds c hc => .finish ?_
  rwa [asNodes_eq]

include he in
theorem takes_parenthesizedCondition : TakesNode source (parenthesizedCondition expr) := by
  intro lo cs c hc
  refine .skip (.expectPunct _) hc fun _ c hc => .step he hc.before fun condition c hc => ?_
  exact .skip (.expectPunct _) hc.before fun _ c hc => .pure hc

include he hs in
theorem takes_ifStatement : TakesNode source (ifStatement expr stmt) := by
  refine .of_start fun c hc => .start (.skip (.expectWord _) hc fun _ c hc => ?_)
  refine .step (takes_parenthesizedCondition he) hc.before fun condition c hc => ?_
  refine .step hs hc.before fun thenBranch c hc => ?_
  -- the clause starts with its keyword, so the children so far wait outside of it
  have outer := hc.before
  refine .start (.eatWord outer.fresh _ (fun c hc => ?_) (.finish hc))
  refine .step hs hc.before fun body c hc => .close hc outer.placed fun clause hn => .finish hn

include he hs in
/-- The loop goes on with the children `cs` that were read before its keyword. -/
theorem from_forEachStatement {at0 : Nat} {cs : List (Child Node)} {c : Cursor}
    (hc : Before source at0 cs c) :
    From c (forEachStatement expr stmt at0 cs) fun n c' => Upto source at0 [.node n] c' := by
  refine .skip (.expectWord _) hc fun _ c hc => .skip (.expectPunct _) hc.before fun _ c hc => ?_
  refine .skip (.expectWord _) hc.before fun _ c hc => ?_
  refine .step .identifier hc.before fun name c hc => .skip (.expectWord _) hc.before fun _ c hc => ?_
  refine .step he hc.before fun source' c hc => .skip (.expectPunct _) hc.before fun _ c hc => ?_
  refine .step hs hc.before fun body c hc => .finish ?_
  simpa using hc

include he hs in
theorem from_usingStatement (fuel : Nat) {at0 : Nat} {cs : List (Child Node)} {c : Cursor}
    (hc : Before source at0 cs c) :
    From c (usingStatement expr stmt fuel at0 cs) fun n c' => Upto source at0 [.node n] c' := by
  refine .skip (.expectWord _) hc fun _ c hc => .skip (.expectPunct _) hc.before fun _ c hc => ?_
  refine .step (takes_declaration he fuel) hc.before fun declared c hc => ?_
  refine .skip (.expectPunct _) hc.before fun _ c hc => ?_
  refine .step hs hc.before fun body c hc => .finish ?_
  simpa using hc

/-- A part that was left out stands right before the next lexeme. -/
theorem from_emptyPart {lo : Nat} {cs : List (Child Node)} {c : Cursor}
    (hc : Before source lo cs c) :
    From c emptyPart fun n c' => Before source lo (cs ++ [.node n]) c' := by
  have start := hc.ordered.lastEnd_le.2
  have empty : Placed source c.start c.start [] := ⟨start, Nat.le_refl _, by simp⟩
  refine .start (.pure ⟨hc.ordered, hc.placed.append ⟨start, ?_, fun n hn => ?_⟩⟩)
  · exact ⟨Nat.le_refl _, Nat.le_refl _, start, start, Nat.le_refl _⟩
  · obtain rfl : n = ⟨0, .emptyStatement, ⟨c.start, c.start⟩, [], []⟩ := by simpa using hn
    exact empty.wellNested start _ _ _

include he in
/-- A part that may be left out. -/
theorem from_part {β : Type} {lo : Nat} {cs : List (Child Node)} {c : Cursor} {closing : String}
    {k : Node → Parse β} {Q : β → Cursor → Prop} (hc : Before source lo cs c)
    (hk : ∀ n c', Before source lo (cs ++ [.node n]) c' → From c' (k n) Q) :
    From c (do
      let n ← if (← get).atPunct closing then emptyPart else expr
      k n) Q := by
  refine .get ?_
  split
  · exact .bind (from_emptyPart hc) hk
  · exact .step he hc fun n c hc => hk n c hc.before

include he hs in
theorem takes_forStatement (fuel : Nat) : TakesNode source (forStatement expr stmt fuel) := by
  refine .of_start fun c hc => .start (.skip (.expectWord _) hc fun _ d hd => ?_)
  have rest (first : Node) (d : Cursor) (hd : Before source c.start [.node first] d) :
      From d (do
        expectPunct ";"
        let condition ← if (← get).atPunct ";" then emptyPart else expr
        expectPunct ";"
        let increment ← if (← get).atPunct ")" then emptyPart else expr
        expectPunct ")"
        let body ← stmt
        finish .forStatement c.start (asNodes [first, condition, increment, body]))
        fun n c' => Upto source c.start [.node n] c' := by
    refine .skip (.expectPunct _) hd fun _ d hd => from_part he hd.before fun condition d hd => ?_
    refine .skip (.expectPunct _) hd fun _ d hd => from_part he hd.before fun increment d hd => ?_
    refine .skip (.expectPunct _) hd fun _ d hd => ?_
    exact .step hs hd.before fun body d hd => .finish hd
  refine .skip (.expectPunct _) hd.before fun _ d hd => .get ?_
  split
  · exact .bind (from_emptyPart hd.before) rest
  split
  · exact .step (takes_declaration he fuel) hd.before fun n d hd => rest n d hd.before
  · have outer := hd.before
    refine .step he outer.fresh fun value d hd => ?_
    exact .close hd outer.placed fun n hn => rest n d hn.before

include he hs in
theorem takes_switchSection (fuel : Nat) :
    TakesNode source (switchSection expr stmt fuel) := by
  refine .of_start fun c hc => .start ?_
  have rest {label : Child Node} {d : Cursor} (hd : Upto source c.start [label] d) :
      From d (do
        expectPunct ":"
        let statements ← itemsUntil
          (fun c => c.atWord "case" || c.atWord "default" || c.atPunct closeBrace) stmt fuel
        finish .switchSection c.start (label :: asNodes statements))
        fun n c' => Upto source c.start [.node n] c' := by
    refine .skip (.expectPunct _) hd.before fun _ d hd => ?_
    exact .bind (.itemsUntil hs hd _ fuel) fun ns d hd => .finish hd
  refine .eatWord hc _ (fun d hd => ?_) (.get ?_)
  · exact .step he hd.before fun label d hd => rest hd
  split
  · next h => exact .takeToken hc (Cursor.rest_ne_nil_of_isWord h) _ fun t d hd => rest hd
  · exact .bind (.fail (R := fun _ _ => False) _) fun _ _ => False.elim

include he hs in
theorem from_switchSections (fuel : Nat) {lo : Nat} {cs : List (Child Node)} {c : Cursor}
    (hc : Upto source lo cs c) (more : Nat) :
    From c (switchSections expr stmt fuel more) fun ns c' =>
      Upto source lo (cs ++ asNodes ns) c' := by
  induction more generalizing cs c with
  | zero => exact .tooDeep
  | succ more ih =>
    refine .get ?_
    split
    · exact .pure (by simpa [asNodes] using hc)
    · refine .step (takes_switchSection he hs fuel) hc.before fun n c hc => ?_
      refine .bind (ih hc) fun ns c hc => .pure ?_
      simpa [asNodes] using hc

include he hs in
theorem takes_switchStatement (fuel : Nat) :
    TakesNode source (switchStatement expr stmt fuel) := by
  refine .of_start fun c hc => .start (.skip (.expectWord _) hc fun _ c hc => ?_)
  refine .step (takes_parenthesizedCondition he) hc.before fun subject c hc => ?_
  refine .skip (.expectPunct _) hc.before fun _ c hc => ?_
  refine .bind (from_switchSections he hs fuel hc fuel) fun ns c hc => ?_
  exact .skip (.expectPunct _) hc.before fun _ c hc => .finish hc

include hs in
theorem from_routine (kind : NodeKind) (fuel : Nat) {at0 : Nat} {c : Cursor}
    (hc : Upto source at0 [] c) :
    From c (routine stmt kind fuel at0) fun n c' => Upto source at0 [.node n] c' := by
  refine .step .identifier hc.before fun name c hc => ?_
  refine .step (.bracketed (takes_parameter fuel) _ _ fuel) hc.before fun ps c hc => ?_
  refine .step (takes_block hs fuel) hc.before fun body c hc => .finish ?_
  rw [← asNodes_eq] at hc
  simpa [asNodes] using hc

include he in
theorem takes_expressionStatement : TakesNode source (expressionStatement expr) := by
  refine .of_start fun c hc => .start (.step he hc fun value c hc => ?_)
  exact .skip (.expectPunct _) hc.before fun _ c hc => .finish hc

theorem from_jump (kind : NodeKind) {c : Cursor} (hc : Before source c.start [] c)
    (hne : c.rest ≠ []) :
    From c (jump kind c.start) fun n c' => Upto source c.start [.node n] c' := by
  refine .bump hc hne fun _ c hc => ?_
  exact .skip (.expectPunct _) hc.before fun _ c hc => .finish hc

include he hs in
theorem from_guarded (kind : NodeKind) {c : Cursor} (hc : Before source c.start [] c)
    (hne : c.rest ≠ []) :
    From c (do
      let _ ← bump
      let subject ← parenthesizedCondition expr
      let body ← stmt
      finish kind c.start (asNodes [subject, body]))
      fun n c' => Upto source c.start [.node n] c' := by
  refine .bump hc hne fun _ d hd => ?_
  refine .step (takes_parenthesizedCondition he) hd.before fun subject d hd => ?_
  exact .step hs hd.before fun body d hd => .finish hd

include he hs in
/-- The statement starts with the keyword, whether it is taken here or by another production. -/
theorem from_keywordStatement (fuel : Nat) {c : Cursor} (hc : Before source c.start [] c)
    (hne : c.rest ≠ []) (word : String) :
    From c (keywordStatement expr stmt fuel c.start word) fun n c' =>
      Upto source c.start [.node n] c' := by
  unfold keywordStatement
  split
  -- the declaration is given up, so that its node takes in the semicolon
  · refine .step (takes_declaration he fuel) hc fun declared d hd => ?_
    exact .skip (.expectPunct _) hd.before fun _ d hd => .finish hd.children
  · exact takes_ifStatement he hs _ _ c hc
  · exact from_forEachStatement he hs hc
  · exact from_usingStatement he hs fuel hc
  -- `await` is taken before the statement that it belongs to
  · refine .get ?_
    dsimp only
    split
    · exact .takeToken hc hne _ fun t d hd => from_forEachStatement he hs hd.before
    split
    · exact .takeToken hc hne _ fun t d hd => from_usingStatement he hs fuel hd.before
    · exact takes_expressionStatement he _ _ c hc
  · exact from_guarded he hs _ hc hne
  · refine .bump hc hne fun _ d hd => .step hs hd.before fun body d hd => ?_
    refine .skip (.expectWord _) hd.before fun _ d hd => ?_
    refine .step (takes_parenthesizedCondition he) hd.before fun condition d hd => ?_
    exact .skip (.expectPunct _) hd.before fun _ d hd => .finish hd
  · exact takes_forStatement he hs fuel _ _ c hc
  · refine .bump hc hne fun _ d hd => .get ?_
    split
    · exact .given (.skip (.expectPunct _) hd.before fun _ d hd => .finish hd)
    · refine .step he hd.before fun value d hd => .given ?_
      exact .skip (.expectPunct _) hd.before fun _ d hd => .finish hd
  · exact from_jump _ hc hne
  · exact from_jump _ hc hne
  · refine .bump hc hne fun _ d hd => .step .identifier hd.before fun label d hd => ?_
    exact .skip (.expectPunct _) hd.before fun _ d hd => .finish hd
  · exact takes_switchStatement he hs fuel _ _ c hc
  · exact from_guarded he hs _ hc hne
  · exact .bump hc hne fun _ d hd => from_routine hs _ fuel hd
  · refine .bump hc hne fun _ d hd => .eatWord hd.before _ (fun d hd => ?_) ?_
    · refine .step he hd.before fun value d hd => ?_
      exact .skip (.expectPunct _) hd.before fun _ d hd => .finish hd
    · refine .skip (.expectWord _) hd.before fun _ d hd => ?_
      exact .skip (.expectPunct _) hd.before fun _ d hd => .finish hd
  · exact takes_expressionStatement he _ _ c hc

include he hs in
theorem takes_statement (fuel : Nat) : TakesNode source (statement expr stmt fuel) := by
  refine .of_start fun c hc => .get ?_
  split
  · exact takes_block hs fuel _ _ c hc
  refine .eatPunct hc _ (fun d hd => .finish hd) ?_
  show From c (if c.peek.kind == .ident then _ else _) _
  split
  · next h =>
    have ident : c.peek.kind = .ident := by simpa using h
    exact from_keywordStatement he hs fuel hc (Cursor.rest_ne_nil_of_ident ident) _
  · exact takes_expressionStatement he _ _ c hc

include hs in
theorem takes_template (fuel : Nat) : TakesNode source (template stmt fuel) := by
  refine .of_start fun c hc => .start (.skip (.expectWord _) hc fun _ d hd => ?_)
  exact from_routine hs _ fuel hd

end

end Grammar

/-! ## Whole texts -/

variable {source : String}

theorem takes_code (fuel : Nat) :
    TakesNode source (expression fuel) ∧ TakesNode source (statement fuel) := by
  induction fuel with
  | zero => exact ⟨fun lo cs c hc => .tooDeep, fun lo cs c hc => .tooDeep⟩
  | succ fuel ih =>
    rw [expression, statement]
    exact ⟨Grammar.takes_expression ih.1 ih.2 fuel, Grammar.takes_statement ih.1 ih.2 fuel⟩

theorem from_templates (fuel : Nat) {lo : Nat} {cs : List (Child Node)} {c : Cursor}
    (hc : Upto source lo cs c) (more : Nat) :
    From c (templates fuel more) fun ns c' => Upto source lo (cs ++ Grammar.asNodes ns) c' := by
  induction more generalizing cs c with
  | zero => exact .tooDeep
  | succ more ih =>
    refine .get ?_
    split
    · exact .pure (by simpa [Grammar.asNodes] using hc)
    · refine .step (Grammar.takes_template (takes_code fuel).2 fuel) hc.before fun n c hc => ?_
      refine .bind (ih hc) fun ns c hc => .pure ?_
      simpa [Grammar.asNodes] using hc

/-- A text is read from a place before which nothing was taken. -/
theorem upto_start {ls : List Lexeme} (h : lexemes source = .ok ls) :
    Upto source 0 [] ⟨ls, source.utf8ByteSize, 0⟩ := by
  have row := (tiled_scan h).row (List.nil_append _).symm rfl
  rw [List.map_append] at row
  have zero : Boundary source 0 := boundary_byteLength (List.nil_append _).symm
  exact ⟨⟨rfl, zero, row.left⟩, zero, Nat.le_refl _, by simp⟩

/-- What a parser leaves when it is run on a whole text. -/
theorem exists_run {α : Type} {parser : Nat → Parse α} {a : α} (h : parseWith parser source = .ok a)
    {Q : α → Cursor → Prop}
    (hp : ∀ fuel c, Upto source 0 [] c → From c (parser fuel) Q) : ∃ c, Q a c := by
  unfold parseWith at h
  cases hl : lexemes source with
  | error e => rw [hl] at h; cases h
  | ok ls =>
    rw [hl] at h
    cases hr : (parser (2 * ls.length + 4)).run ⟨ls, source.utf8ByteSize, 0⟩ with
    | error e =>
      simp only [bind, Except.bind, hr] at h
      cases h
    | ok r =>
      simp only [bind, Except.bind, hr] at h
      cases h
      exact ⟨r.2, hp _ _ (upto_start hl) r.1 r.2 hr⟩

theorem wellNested_parseUnit {n : Node} (h : parseUnit source = .ok n) : WellNested source n := by
  obtain ⟨ls, ns, c, hl, hr, rfl⟩ := exists_templates h
  obtain ⟨ordered, placed⟩ := from_templates _ (upto_start hl) _ _ _ hr
  exact (placed.widen ordered.lastEnd.le).wellNested (boundary_size source) _ _ _

/-- A parser of one node that is followed by the end of the text. -/
theorem wellNested_parseWith {parser : Nat → Parse Node}
    (hp : ∀ fuel, TakesNode source (parser fuel)) {n : Node}
    (h : parseWith (fun fuel => do let n ← parser fuel; Parse.expectEnd; return n) source = .ok n) :
    WellNested source n := by
  obtain ⟨c, placed⟩ := exists_run h (Q := fun n _ => ∃ hi, Placed source 0 hi [.node n])
    fun fuel c hc => .step (hp fuel) hc.before fun n c hc =>
      .bind (R := fun _ _ => True) (fun _ _ _ => trivial) fun _ _ _ => .pure ⟨_, hc.placed⟩
  obtain ⟨hi, placed⟩ := placed
  exact placed.nested n (List.mem_singleton_self _)

/-- The span lies in the text and cuts none of its characters. -/
def LiesIn (source : String) (s : Span) : Prop :=
  s.start ≤ s.stop ∧ s.stop ≤ source.utf8ByteSize ∧
    (⟨s.start⟩ : String.Pos.Raw).IsValid source ∧ (⟨s.stop⟩ : String.Pos.Raw).IsValid source

/-- Whatever a text is read as, the spans of the nodes and tokens lie in it, each inside the one of
the node it belongs to, and the children of a node stand one after the other. -/
theorem spans_nested {n : Node}
    (h : parseUnit source = .ok n ∨ parseStatement source = .ok n ∨
      parseExpression source = .ok n) :
    ∀ m ∈ n.preorder, LiesIn source m.span ∧
      (∀ c ∈ m.children, LiesIn source c.span ∧ m.span.contains c.span = true) ∧
      m.children.Pairwise fun c d => c.span.stop ≤ d.span.start := by
  have nested : WellNested source n := by
    rcases h with h | h | h
    · exact wellNested_parseUnit h
    · exact wellNested_parseWith (fun fuel => (takes_code fuel).2) h
    · exact wellNested_parseWith (fun fuel => (takes_code fuel).1) h
  intro m hm
  obtain ⟨start, stop, row⟩ := nested m hm
  refine ⟨⟨row.le, stop.le, start, stop⟩, fun c hc => ?_, List.pairwise_map.1 row.pairwise⟩
  obtain ⟨hlo, le, hhi, hstart, hstop⟩ := row.of_mem (List.mem_map_of_mem hc)
  refine ⟨⟨le, hstop.le, hstart, hstop⟩, ?_⟩
  rw [Span.contains, Bool.and_eq_true]
  exact ⟨decide_eq_true hlo, decide_eq_true hhi⟩

/-- A loop with its parts left out, and a name of several bytes. -/
theorem spans_nested_loop :
    ∃ n, parseStatement "for (;;) \x7b é . x = 'ß'; \x7d" = .ok n ∧
      ∀ m ∈ n.preorder, m.children.Pairwise fun c d => c.span.stop ≤ d.span.start := by
  have parses : (parseStatement "for (;;) \x7b é . x = 'ß'; \x7d").toOption.isSome := by
    decide +kernel
  obtain ⟨n, hn⟩ := Option.isSome_iff_exists.1 parses
  have read : parseStatement "for (;;) \x7b é . x = 'ß'; \x7d" = .ok n := by
    cases hp : parseStatement "for (;;) \x7b é . x = 'ß'; \x7d" with
    | error e => simp [hp, Except.toOption] at hn
    | ok m => simpa [hp, Except.toOption] using hn
  exact ⟨n, read, fun m hm => (spans_nested (.inr (.inl read)) m hm).2.2⟩

end Stencil.Source
