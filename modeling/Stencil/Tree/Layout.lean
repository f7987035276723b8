import Stencil.Source.Quoted
import Stencil.Tree.Basic

/-!
# How a node is laid out on the page

`layout` gives the pieces a node is printed from: fixed text, line breaks, and the nodes to be
printed in between, each with its indentation relative to the node. A child that the node should
have and lacks is a piece of its own, so that printing stops exactly there.

Results:

* `allWithin_layout` – a property of nodes that passes to their children holds of every node
  among the pieces;
* `size_lt_of_mem_layout` – such a node lies strictly inside the node laid out, which is what
  `Stencil.Tree.Render` recurses by.
-/
namespace Stencil

/-- One line for everything, or one line for each statement. -/
inductive Style where
  | compact
  | pretty
deriving DecidableEq, Repr

inductive Piece where
  | text (s : String)
  /-- a line break; in compact style, a space -/
  | line (depth : Nat)
  /-- a node, indented by `depth` more than the node it belongs to -/
  | node (depth : Nat) (n : Node)
  /-- a child node that is not there -/
  | absent (kind : NodeKind) (index : Nat)

namespace Layout

/-- The pieces of the child node at `index`. -/
def child (n : Node) (index : Nat) (pieces : Node → List Piece) : List Piece :=
  match n.node? index with
  | some c => pieces c
  | none => [.absent n.kind index]

def plain (n : Node) : List Piece := [.node 0 n]

/-- Pieces with a separating text between them. -/
def separated (separator : String) : List (List Piece) → List Piece
  | [] => []
  | [ps] => ps
  | ps :: rest => ps ++ .text separator :: separated separator rest

def wrapped (wrap : Bool) (n : Node) : List Piece :=
  if wrap then [.text "(", .node 0 n, .text ")"] else plain n

/-- The operand of a prefix, postfix or cast operator. -/
def operand (n : Node) : List Piece :=
  wrapped (match n.kind with
    | .binary | .conditional | .assignment | .lambda | .cast | .unary | .await | .query => true
    | _ => false) n

/-- The operand of a binary operator. -/
def binaryOperand (n : Node) : List Piece :=
  wrapped (match n.kind with
    | .conditional | .assignment | .lambda | .query => true
    | _ => false) n

/-- The spelling of a literal. -/
def literalText (t : Token) : String :=
  match t.kind with
  | .stringLiteral => Source.Quoted.write '"' t.text
  | .charLiteral => Source.Quoted.write '\'' t.text
  | _ => t.text

/-- The body of a control statement: a block stays on the line, anything else gets its own. -/
def embedded (style : Style) (n : Node) : List Piece :=
  if n.kind = .block || style = .compact then [.text " ", .node 0 n] else [.line 1, .node 1 n]

def declarator (n : Node) : List Piece :=
  .text n.nameOrEmpty :: match n.node? 0 with
    | some value => [.text " = ", .node 0 value]
    | none => []

/-- A declaration without its semicolon. -/
def declaration (n : Node) : List Piece :=
  .text "var " :: separated ", " (n.nodes.map declarator)

def forPart (n : Node) : List Piece :=
  match n.kind with
  | .emptyStatement => []
  | .localDeclaration => declaration n
  | .expressionStatement => child n 0 plain
  | _ => plain n

def parameter (n : Node) : List Piece :=
  (match n.nodeOfKind? .typeName with
    | some type => [.text type.tokenText, .text " "]
    | none => []) ++ [.text n.nameOrEmpty]

def parameters (n : Node) : List Piece :=
  separated ", " ((n.nodes.filter (·.kind == .parameter)).map parameter)

/-- Each node on a line of its own. -/
def lines (depth : Nat) (ns : List Node) : List Piece :=
  ns.flatMap fun n => [.line depth, .node depth n]

def switchSection (depth : Nat) (n : Node) : List Piece :=
  if (n.tokenOfKind? .defaultKeyword).isSome then
    .text "default:" :: lines (depth + 1) n.nodes
  else match n.nodes with
    | [] => []
    | label :: rest => [.text "case ", .node depth label, .text ":"] ++ lines (depth + 1) rest

def block (n : Node) : List Piece :=
  if n.children.isEmpty then [.text "\x7b \x7d"]
  else .text "\x7b" :: lines 1 n.nodes ++ [.line 0, .text "\x7d"]

def routine (keyword : String) (n : Node) : List Piece :=
  [.text keyword, .text n.nameOrEmpty, .text "("] ++ parameters n ++ [.text ") "] ++
    match n.nodeOfKind? .block with
    | some body => plain body
    | none => []

/-- An `else if` stays on the line of its `else`. -/
def elseBranch (style : Style) (thenKind : NodeKind) (clause : Node) : List Piece :=
  (if thenKind = .block || style = .compact then .text " " else .line 0) :: .text "else" ::
    child clause 0 fun body =>
      if body.kind = .ifStatement then [.text " ", .node 0 body] else embedded style body

def ifStatement (style : Style) (n : Node) : List Piece :=
  .text "if (" :: child n 0 plain ++ .text ")" :: child n 1 fun body =>
    embedded style body ++ match n.nodeOfKind? .elseClause with
      | some clause => elseBranch style body.kind clause
      | none => []

def clause (keyword : String) (n : Node) (kind : NodeKind) : List Piece :=
  match n.nodeOfKind? kind with
  | some c => .text keyword :: child c 0 plain
  | none => []

def awaitPrefix (n : Node) : List Piece := if n.hasAwait then [.text "await "] else []

/-- The body of a `do` statement and what leads to its `while`. -/
def doBody (style : Style) (n : Node) : List Piece :=
  embedded style n ++ [if n.kind = .block then .text " " else .line 0]

def returned (n : Node) : List Piece :=
  match n.node? 0 with
  | some value => [.text " ", .node 0 value]
  | none => []

def sections (ns : List Node) : List Piece :=
  ns.flatMap fun s => .line 1 :: switchSection 1 s

def literal (n : Node) : List Piece :=
  match n.token? with
  | some t => [.text (literalText t)]
  | none => []

def lambdaBody (n : Node) : List Piece :=
  match n.nodes.getLast? with
  | some body => if body.kind = .parameter then [] else plain body
  | none => []

end Layout

open Layout

/-- The pieces that a node is printed from, in order. -/
def layout (style : Style) (n : Node) : List Piece :=
  match n.kind with
  | .compilationUnit =>
    separated (if style = .compact then " " else "\n\n") (n.nodes.map plain)
  | .template => routine "template " n
  | .localFunction => routine "function " n
  | .block => block n
  | .localDeclaration => declaration n ++ [.text ";"]
  | .expressionStatement => child n 0 plain ++ [.text ";"]
  | .emptyStatement => [.text ";"]
  | .ifStatement => ifStatement style n
  | .forEachStatement =>
    awaitPrefix n ++ [.text "foreach (var ", .text n.nameOrEmpty, .text " in "] ++
      child n 0 plain ++ .text ")" :: child n 1 (embedded style)
  | .whileStatement =>
    .text "while (" :: child n 0 plain ++ .text ")" :: child n 1 (embedded style)
  | .doStatement =>
    .text "do" :: child n 0 (doBody style) ++ .text "while (" :: child n 1 plain ++ [.text ");"]
  | .forStatement =>
    .text "for (" :: child n 0 forPart ++ .text "; " :: child n 1 forPart ++
      .text "; " :: child n 2 forPart ++ .text ")" :: child n 3 (embedded style)
  | .returnStatement => .text "return" :: returned n ++ [.text ";"]
  | .breakStatement => [.text "break;"]
  | .continueStatement => [.text "continue;"]
  | .gotoStatement => [.text "goto ", .text n.nameOrEmpty, .text ";"]
  | .switchStatement =>
    .text "switch (" :: child n 0 plain ++ .text ") \x7b" ::
      sections n.nodes.tail ++ [.line 0, .text "\x7d"]
  | .switchSection => switchSection 0 n
  | .lockStatement =>
    .text "lock (" :: child n 0 plain ++ .text ")" :: child n 1 (embedded style)
  | .yieldReturn => .text "yield return " :: child n 0 plain ++ [.text ";"]
  | .yieldBreak => [.text "yield break;"]
  | .usingStatement =>
    awaitPrefix n ++ .text "using (" :: child n 0 declaration ++
      .text ")" :: child n 1 (embedded style)
  | .elseClause => .text "else" :: child n 0 (embedded style)
  | .parameter => parameter n
  | .typeName => [.text n.tokenText]
  | .declarator => declarator n
  | .whereClause | .selectClause => child n 0 plain
  | .literal => literal n
  | .identifier => [.text n.nameOrEmpty]
  | .this => [.text "this"]
  | .parenthesized => .text "(" :: child n 0 plain ++ [.text ")"]
  | .binary =>
    child n 0 binaryOperand ++ [.text " ", .text n.tokenText, .text " "] ++
      child n 1 binaryOperand
  | .assignment =>
    child n 0 plain ++ [.text " ", .text n.tokenText, .text " "] ++ child n 1 plain
  | .unary => .text n.tokenText :: child n 0 operand
  | .step => child n 0 operand ++ [.text n.tokenText]
  | .conditional =>
    child n 0 binaryOperand ++ .text " ? " :: child n 1 plain ++ .text " : " :: child n 2 plain
  | .invocation =>
    child n 0 operand ++ .text "(" :: separated ", " (n.nodes.tail.map plain) ++ [.text ")"]
  | .memberAccess => child n 0 operand ++ [.text ".", .text n.nameOrEmpty]
  | .elementAccess => child n 0 operand ++ .text "[" :: child n 1 plain ++ [.text "]"]
  | .cast => .text "(" :: child n 0 plain ++ .text ")" :: child n 1 operand
  | .list => .text "[" :: separated ", " (n.nodes.map plain) ++ [.text "]"]
  | .lambda => .text "(" :: parameters n ++ .text ") => " :: lambdaBody n
  | .await => .text "await " :: child n 0 operand
  | .query =>
    [.text "from ", .text n.nameOrEmpty, .text " in "] ++ child n 0 plain ++
      clause " where " n .whereClause ++ clause " select " n .selectClause

/-! ## Pieces lie inside -/

/-- Whether a piece names no node, or one with the property `P`. -/
def Piece.Within (P : Node → Prop) : Piece → Prop
  | .node _ n => P n
  | _ => True

namespace Layout

/-- Whether all pieces are within `P`. -/
def AllWithin (P : Node → Prop) (ps : List Piece) : Prop := ∀ p ∈ ps, p.Within P

section

variable {P : Node → Prop} {ps qs : List Piece} {p : Piece}

@[simp] theorem allWithin_nil : AllWithin P [] := by simp [AllWithin]

@[simp] theorem allWithin_cons : AllWithin P (p :: ps) ↔ p.Within P ∧ AllWithin P ps := by
  simp [AllWithin]

@[simp] theorem allWithin_append :
    AllWithin P (ps ++ qs) ↔ AllWithin P ps ∧ AllWithin P qs := by
  simp only [AllWithin, List.mem_append]
  exact ⟨fun h => ⟨fun p hp => h p (.inl hp), fun p hp => h p (.inr hp)⟩,
    fun h p hp => hp.elim (h.1 p) (h.2 p)⟩

@[simp] theorem within_text (s : String) : (Piece.text s).Within P := trivial

@[simp] theorem within_line (d : Nat) : (Piece.line d).Within P := trivial

@[simp] theorem within_absent (k : NodeKind) (i : Nat) : (Piece.absent k i).Within P := trivial

@[simp] theorem within_node (d : Nat) (n : Node) : (Piece.node d n).Within P ↔ P n := Iff.rfl

theorem allWithin_plain {n : Node} (h : P n) : AllWithin P (plain n) := by
  simp [plain, h]

theorem allWithin_wrapped {n : Node} {b : Bool} (h : P n) : AllWithin P (wrapped b n) := by
  cases b <;> simp [wrapped, plain, h]

theorem allWithin_operand {n : Node} (h : P n) : AllWithin P (operand n) :=
  allWithin_wrapped h

theorem allWithin_binaryOperand {n : Node} (h : P n) : AllWithin P (binaryOperand n) :=
  allWithin_wrapped h

theorem allWithin_embedded {style : Style} {n : Node} (h : P n) :
    AllWithin P (embedded style n) := by
  unfold embedded; split <;> simp [h]

theorem allWithin_child {n : Node} {i : Nat} {f : Node → List Piece}
    (h : ∀ c ∈ n.nodes, AllWithin P (f c)) : AllWithin P (child n i f) := by
  unfold child; split
  · next c hc => exact h c (Node.mem_of_node? hc)
  · simp

theorem allWithin_separated {s : String} {pss : List (List Piece)}
    (h : ∀ ps ∈ pss, AllWithin P ps) : AllWithin P (separated s pss) := by
  fun_induction separated s pss with
  | case1 => simp
  | case2 ps => exact h ps (by simp)
  | case3 ps rest _ ih =>
    simp only [allWithin_append, allWithin_cons, within_text, true_and]
    exact ⟨h ps (by simp), ih fun qs hq => h qs (by simp [hq])⟩

theorem allWithin_declarator {n : Node} (h : ∀ c ∈ n.nodes, P c) :
    AllWithin P (declarator n) := by
  unfold declarator; split
  · next c hc => simpa using h c (Node.mem_of_node? hc)
  · simp

theorem allWithin_parameter (n : Node) : AllWithin P (parameter n) := by
  unfold parameter; split <;> simp

theorem allWithin_parameters (n : Node) : AllWithin P (parameters n) := by
  refine allWithin_separated fun ps hp => ?_
  obtain ⟨c, _, rfl⟩ := List.mem_map.1 hp
  exact allWithin_parameter c

theorem allWithin_lines {d : Nat} {ns : List Node} (h : ∀ n ∈ ns, P n) :
    AllWithin P (lines d ns) := by
  intro p hp
  obtain ⟨n, hn, hp⟩ := List.mem_flatMap.1 hp
  rcases List.mem_cons.1 hp with rfl | hp
  · trivial
  · rw [List.mem_singleton.1 hp]; exact h n hn

theorem allWithin_switchSection {d : Nat} {n : Node} (h : ∀ c ∈ n.nodes, P c) :
    AllWithin P (switchSection d n) := by
  unfold switchSection; split
  · simp [allWithin_lines h]
  · split
    · simp
    · next label rest hn =>
      rw [hn] at h
      simp only [List.cons_append, List.nil_append, allWithin_cons, within_text, within_node,
        true_and]
      exact ⟨h _ (by simp), allWithin_lines fun c hc => h c (by simp [hc])⟩

theorem allWithin_elseBranch {style : Style} {k : NodeKind} {n : Node}
    (h : ∀ c ∈ n.nodes, P c) : AllWithin P (elseBranch style k n) := by
  simp only [elseBranch, allWithin_cons, within_text, true_and]
  refine ⟨by split <;> trivial, allWithin_child fun c hc => ?_⟩
  split
  · simp [h c hc]
  · exact allWithin_embedded (h c hc)

theorem allWithin_awaitPrefix (n : Node) : AllWithin P (awaitPrefix n) := by
  unfold awaitPrefix; split <;> simp

theorem allWithin_routine {s : String} {n : Node} (h : ∀ c ∈ n.nodes, P c) :
    AllWithin P (routine s n) := by
  simp only [routine, allWithin_append, allWithin_cons, within_text, allWithin_nil,
    allWithin_parameters, true_and, and_true]
  split
  · next c hc => exact allWithin_plain (h c (Node.mem_of_nodeOfKind? hc))
  · simp

theorem allWithin_block {n : Node} (h : ∀ c ∈ n.nodes, P c) : AllWithin P (block n) := by
  unfold block; split
  · simp
  · simp only [List.cons_append, allWithin_cons, within_text, allWithin_append, within_line,
      allWithin_nil, true_and, and_true]
    exact allWithin_lines h

theorem allWithin_doBody {style : Style} {n : Node} (h : P n) : AllWithin P (doBody style n) := by
  simp only [doBody, allWithin_append, allWithin_cons, allWithin_nil, and_true]
  exact ⟨allWithin_embedded h, by split <;> trivial⟩

theorem allWithin_returned {n : Node} (h : ∀ c ∈ n.nodes, P c) : AllWithin P (returned n) := by
  unfold returned; split
  · next c hc => simpa using h c (Node.mem_of_node? hc)
  · simp

theorem allWithin_sections {ns : List Node} (h : ∀ n ∈ ns, ∀ c ∈ n.nodes, P c) :
    AllWithin P (sections ns) := by
  intro p hp
  obtain ⟨n, hn, hp⟩ := List.mem_flatMap.1 hp
  rcases List.mem_cons.1 hp with rfl | hp
  · trivial
  · exact allWithin_switchSection (h n hn) p hp

theorem allWithin_literal (n : Node) : AllWithin P (literal n) := by
  unfold literal; split <;> simp

theorem allWithin_lambdaBody {n : Node} (h : ∀ c ∈ n.nodes, P c) :
    AllWithin P (lambdaBody n) := by
  unfold lambdaBody; split
  · next c hc =>
    split
    · simp
    · exact allWithin_plain (h c (List.mem_of_getLast? hc))
  · simp

end

section

-- some layouts look two levels down, so the property has to pass from a node to its children
variable {P : Node → Prop} (hP : ∀ n, P n → ∀ c ∈ n.nodes, P c) {n : Node}

include hP

theorem allWithin_declaration (h : ∀ c ∈ n.nodes, P c) : AllWithin P (declaration n) := by
  simp only [declaration, allWithin_cons, within_text, true_and]
  refine allWithin_separated fun ps hp => ?_
  obtain ⟨c, hc, rfl⟩ := List.mem_map.1 hp
  exact allWithin_declarator (hP c (h c hc))

theorem allWithin_forPart (h : P n) : AllWithin P (forPart n) := by
  unfold forPart; split
  · simp
  · exact allWithin_declaration hP (hP n h)
  · exact allWithin_child fun c hc => allWithin_plain (hP n h c hc)
  · exact allWithin_plain h

theorem allWithin_clause {s : String} {k : NodeKind} (h : ∀ c ∈ n.nodes, P c) :
    AllWithin P (clause s n k) := by
  unfold clause; split
  · next c hc =>
    simp only [allWithin_cons, within_text, true_and]
    exact allWithin_child fun d hd =>
      allWithin_plain (hP c (h c (Node.mem_of_nodeOfKind? hc)) d hd)
  · simp

theorem allWithin_ifStatement {style : Style} (h : ∀ c ∈ n.nodes, P c) :
    AllWithin P (ifStatement style n) := by
  simp only [ifStatement, List.cons_append, allWithin_cons, within_text, allWithin_append, true_and]
  refine ⟨allWithin_child fun c hc => allWithin_plain (h c hc), allWithin_child fun c hc => ?_⟩
  rw [allWithin_append]
  refine ⟨allWithin_embedded (h c hc), ?_⟩
  split
  · next e he => exact allWithin_elseBranch (hP e (h e (Node.mem_of_nodeOfKind? he)))
  · simp

end

end Layout

open Layout in
/-- What holds of the children of a node, and passes to children, holds of every node among the
pieces. -/
theorem allWithin_layout {P : Node → Prop} (hP : ∀ n, P n → ∀ c ∈ n.nodes, P c) (style : Style)
    {n : Node} (h : ∀ c ∈ n.nodes, P c) : AllWithin P (layout style n) := by
  have one {i : Nat} : AllWithin P (child n i plain) :=
    allWithin_child fun c hc => allWithin_plain (h c hc)
  have op {i : Nat} : AllWithin P (child n i operand) :=
    allWithin_child fun c hc => allWithin_operand (h c hc)
  have bin {i : Nat} : AllWithin P (child n i binaryOperand) :=
    allWithin_child fun c hc => allWithin_binaryOperand (h c hc)
  have body {i : Nat} : AllWithin P (child n i (embedded style)) :=
    allWithin_child fun c hc => allWithin_embedded (h c hc)
  have each {s : String} {ns : List Node} (hns : ∀ c ∈ ns, c ∈ n.nodes) :
      AllWithin P (separated s (ns.map plain)) :=
    allWithin_separated fun ps hp => by
      obtain ⟨c, hc, rfl⟩ := List.mem_map.1 hp
      exact allWithin_plain (h c (hns c hc))
  have tail : ∀ c ∈ n.nodes.tail, c ∈ n.nodes := fun c hc => List.mem_of_mem_tail hc
  have forPart {i : Nat} : AllWithin P (child n i forPart) :=
    allWithin_child fun c hc => allWithin_forPart hP (h c hc)
  have declared : AllWithin P (child n 0 declaration) :=
    allWithin_child fun c hc => allWithin_declaration hP (hP c (h c hc))
  have doBody : AllWithin P (child n 0 (doBody style)) :=
    allWithin_child fun c hc => allWithin_doBody (h c hc)
  have rest : AllWithin P (sections n.nodes.tail) :=
    allWithin_sections fun c hc => hP c (h c (tail c hc))
  unfold layout; split
  all_goals simp only [allWithin_cons, allWithin_append, within_text, within_line, allWithin_nil,
    and_true, one, op, bin, body, forPart, declared, doBody, rest, each tail,
    each fun _ h => h, allWithin_parameters, allWithin_parameter, allWithin_awaitPrefix,
    allWithin_literal, allWithin_clause hP h, allWithin_declaration hP h, allWithin_declarator h,
    allWithin_switchSection h, allWithin_routine h, allWithin_block h, allWithin_ifStatement hP h,
    allWithin_returned h, allWithin_lambdaBody h]

/-- A node to be printed inside another is smaller than it. -/
theorem size_lt_of_mem_layout {style : Style} {n m : Node} {d : Nat}
    (h : Piece.node d m ∈ layout style n) : m.size < n.size :=
  allWithin_layout (P := fun m => m.size < n.size)
    (fun _ hm _ hc => Nat.lt_trans (Node.size_lt_of_mem hc) hm) style
    (fun _ hc => Node.size_lt_of_mem hc) _ h

/-- A node to be printed inside another stands below it. -/
theorem mem_preorder_of_mem_layout {style : Style} {n m : Node} {d : Nat}
    (h : Piece.node d m ∈ layout style n) : m ∈ n.preorder :=
  allWithin_layout (P := (· ∈ n.preorder)) (fun _ hm _ hc => Node.mem_preorder_of_mem_nodes hm hc)
    style (fun _ hc => Node.mem_preorder_of_mem_nodes n.mem_preorder_self hc) _ h

end Stencil
