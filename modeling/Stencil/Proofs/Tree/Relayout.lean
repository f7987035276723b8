import Stencil.Proofs.Tree.Outline
import Stencil.Tree.Render

/-!
# Layouts of remade trees

Passes over a tree keep its kinds and the texts of its tokens, and so what is printed. A layout asks
for no more than these: `Node.Keeps f` says that `f` leaves them as they are, and `Through f n` that
it goes on with the child nodes of `n` one by one.

Results:

* `renderAt_eq` – printing goes through the pieces of a layout one after another;
* `child_mapped`, `declaration_mapped` and so on – the parts of a layout under such an `f`;
* `renderAt_bare` – numbers, places and marks are not printed.
-/
namespace Stencil

/-! ## Printing pieces -/

/-- The text of a piece of a node that is indented `depth` times. -/
def Piece.render (style : Style) (depth : Nat) : Piece → Except Defect String
  | .text s => .ok s
  | .line d => .ok (style.line (depth + d))
  | .node d n => n.renderAt style (depth + d)
  | .absent kind index => .error (.missingChild kind index)

/-- The text of pieces one after another. -/
def renderPieces (style : Style) (depth : Nat) : List Piece → Except Defect String
  | [] => .ok ""
  | p :: ps => do
    let s ← p.render style depth
    let t ← renderPieces style depth ps
    return s ++ t

theorem renderPieces_eq (style : Style) (depth : Nat) (ps : List Piece) :
    renderPieces style depth ps = String.join <$> ps.mapM (Piece.render style depth) := by
  induction ps with
  | nil => rfl
  | cons p ps ih =>
    rw [renderPieces, ih, List.mapM_cons]
    cases p.render style depth with
    | error e => rfl
    | ok s =>
      cases ps.mapM (Piece.render style depth) with
      | error e => rfl
      | ok parts =>
        show Except.ok (s ++ String.join parts) = Except.ok (String.join (s :: parts))
        rw [String.join_cons]

/-- A node prints as the pieces of its layout. -/
theorem renderAt_eq (style : Style) (depth : Nat) (n : Node) :
    n.renderAt style depth = renderPieces style depth (layout style n) := by
  rw [Node.renderAt, renderPieces_eq]
  conv => rhs; rw [← List.attach_map_subtype_val (layout style n), List.mapM_map]
  rw [map_eq_pure_bind]
  congr 2
  funext p
  obtain ⟨p, hp⟩ := p
  cases p <;> rfl

variable {style : Style} {depth : Nat}

theorem renderPieces_append (ps qs : List Piece) :
    renderPieces style depth (ps ++ qs) = do
      let s ← renderPieces style depth ps
      let t ← renderPieces style depth qs
      return s ++ t := by
  induction ps with
  | nil =>
    show _ = renderPieces style depth qs >>= fun t => pure ("" ++ t)
    simp
  | cons p ps ih =>
    simp only [List.cons_append, renderPieces, ih, bind_assoc, pure_bind, String.append_assoc]

/-! ## Remade nodes -/

/-- The token without its place. -/
def Token.unplaced (t : Token) : Token := { t with span := .detached }

/-- The child with its token unplaced and `f` applied to its node. -/
def Child.mapped (f : Node → Node) : Child Node → Child Node
  | .token t => .token t.unplaced
  | .node n => .node (f n)

namespace Node

/-- `f` keeps the kinds of nodes and their tokens, up to the places of these. -/
structure Keeps (f : Node → Node) : Prop where
  kind : ∀ n, (f n).kind = n.kind
  tokens : ∀ n, (f n).tokens = n.tokens.map Token.unplaced

/-- `f` goes on with the child nodes of `n` one by one. -/
def Through (f : Node → Node) (n : Node) : Prop := (f n).nodes = n.nodes.map f

section

variable {f : Node → Node} {n : Node}

theorem Keeps.tokenOfKind? (hf : Keeps f) (kind : TokenKind) :
    (f n).tokenOfKind? kind = (n.tokenOfKind? kind).map Token.unplaced := by
  simp only [Node.tokenOfKind?, hf.tokens, List.find?_map]
  rfl

theorem Keeps.nameOrEmpty (hf : Keeps f) : (f n).nameOrEmpty = n.nameOrEmpty := by
  simp only [Node.nameOrEmpty, name?, hf.tokenOfKind?, Option.map_map]
  rfl

theorem Keeps.hasAwait (hf : Keeps f) : (f n).hasAwait = n.hasAwait := by
  simp [Node.hasAwait, hf.tokenOfKind?]

theorem Keeps.token? (hf : Keeps f) : (f n).token? = n.token?.map Token.unplaced := by
  simp [Node.token?, hf.tokens]

theorem Keeps.tokenText (hf : Keeps f) : (f n).tokenText = n.tokenText := by
  simp only [Node.tokenText, hf.token?, Option.map_map]
  rfl

theorem Through.node? (h : Through f n) (i : Nat) : (f n).node? i = (n.node? i).map f := by
  simp [Node.node?, show (f n).nodes = _ from h]

theorem Through.nodeOfKind? (hf : Keeps f) (h : Through f n) (kind : NodeKind) :
    (f n).nodeOfKind? kind = (n.nodeOfKind? kind).map f := by
  simp only [Node.nodeOfKind?, show (f n).nodes = _ from h, List.find?_map]
  congr 2
  funext m
  simp [hf.kind]

end

end Node

/-- The piece with `f` applied to its node. -/
def Piece.mapped (f : Node → Node) : Piece → Piece
  | .node d n => .node d (f n)
  | p => p

/-! ## Parts of layouts -/

/-! ### Operands -/

/-- Operands of prefix, postfix and cast operators that are printed in parentheses. -/
def NodeKind.fencedOperand : NodeKind → Bool
  | .binary | .conditional | .assignment | .lambda | .cast | .unary | .await | .query => true
  | _ => false

/-- Operands of binary operators that are printed in parentheses. -/
def NodeKind.fencedBinaryOperand : NodeKind → Bool
  | .conditional | .assignment | .lambda | .query => true
  | _ => false

theorem fencedOperand_of_fencedBinaryOperand {kind : NodeKind}
    (h : kind.fencedBinaryOperand = true) : kind.fencedOperand = true := by
  cases kind <;> first | rfl | contradiction

theorem operand_eq (n : Node) : Layout.operand n = Layout.wrapped n.kind.fencedOperand n := by
  unfold Layout.operand NodeKind.fencedOperand
  congr

theorem binaryOperand_eq (n : Node) :
    Layout.binaryOperand n = Layout.wrapped n.kind.fencedBinaryOperand n := by
  unfold Layout.binaryOperand NodeKind.fencedBinaryOperand
  congr

namespace Layout

open Node

theorem separated_map {f : Node → Node} (separator : String) (pss : List (List Piece)) :
    separated separator (pss.map (List.map (Piece.mapped f))) =
      (separated separator pss).map (Piece.mapped f) := by
  fun_induction separated separator pss with
  | case1 => rfl
  | case2 ps => rfl
  | case3 ps rest _ ih =>
    cases rest with
    | nil => contradiction
    | cons qs rest => simpa [separated, Piece.mapped] using ih

section

variable {f : Node → Node} {n : Node}

@[simp] theorem plain_mapped : plain (f n) = (plain n).map (Piece.mapped f) := rfl

theorem separated_mapped {separator : String} {ns : List Node} {g : Node → List Piece}
    (hg : ∀ m ∈ ns, g (f m) = (g m).map (Piece.mapped f)) :
    separated separator ((ns.map f).map g) =
      (separated separator (ns.map g)).map (Piece.mapped f) := by
  rw [← separated_map, List.map_map, List.map_map]
  exact congrArg _ (List.map_congr_left hg)

theorem lines_mapped {d : Nat} {ns : List Node} :
    lines d (ns.map f) = (lines d ns).map (Piece.mapped f) := by
  simp [lines, List.map_flatMap, List.flatMap_map, Piece.mapped]

theorem returned_mapped (h : Through f n) :
    returned (f n) = (returned n).map (Piece.mapped f) := by
  unfold returned
  rw [h.node?]
  cases n.node? 0 <;> rfl

theorem block_mapped (h : Through f n) (hc : (f n).children.isEmpty = n.children.isEmpty) :
    block (f n) = (block n).map (Piece.mapped f) := by
  unfold block
  rw [hc, h]
  split
  · rfl
  · simp [lines_mapped, Piece.mapped]

theorem child_mapped (hf : Keeps f) (h : Through f n) {i : Nat} {g g' : Node → List Piece}
    (hg : ∀ m, n.node? i = some m → g' (f m) = (g m).map (Piece.mapped f)) :
    child (f n) i g' = (child n i g).map (Piece.mapped f) := by
  unfold child
  rw [h.node?, hf.kind]
  cases hm : n.node? i with
  | none => simp [Piece.mapped]
  | some m => exact hg m hm

end

section

variable {f : Node → Node} (hf : Keeps f) {n : Node}

include hf

theorem wrapped_mapped (p : NodeKind → Bool) :
    wrapped (p (f n).kind) (f n) = (wrapped (p n.kind) n).map (Piece.mapped f) := by
  rw [hf.kind]
  cases p n.kind <;> rfl

theorem operand_mapped : operand (f n) = (operand n).map (Piece.mapped f) := by
  rw [operand_eq, operand_eq, wrapped_mapped hf]

theorem binaryOperand_mapped : binaryOperand (f n) = (binaryOperand n).map (Piece.mapped f) := by
  rw [binaryOperand_eq, binaryOperand_eq, wrapped_mapped hf]

theorem embedded_mapped {style : Style} :
    embedded style (f n) = (embedded style n).map (Piece.mapped f) := by
  unfold embedded
  rw [hf.kind]
  split <;> rfl

theorem declarator_mapped (h : Through f n) :
    declarator (f n) = (declarator n).map (Piece.mapped f) := by
  simp only [declarator, hf.nameOrEmpty, h.node?]
  cases n.node? 0 <;> rfl

theorem declaration_mapped (h : Through f n) (hd : ∀ m ∈ n.nodes, Through f m) :
    declaration (f n) = (declaration n).map (Piece.mapped f) := by
  rw [declaration, h, separated_mapped fun m hm => declarator_mapped hf (hd m hm)]
  rfl

theorem forPart_mapped (h : n.kind.isStatement → Through f n)
    (hd : n.kind = .localDeclaration → ∀ m ∈ n.nodes, Through f m) :
    forPart (f n) = (forPart n).map (Piece.mapped f) := by
  unfold forPart
  rw [hf.kind]
  split
  · rfl
  · next hk => exact declaration_mapped hf (h (by rw [hk]; rfl)) (hd hk)
  · next hk => exact child_mapped hf (h (by rw [hk]; rfl)) fun m _ => plain_mapped
  · rfl

theorem parameter_mapped (h : Through f n) :
    parameter (f n) = (parameter n).map (Piece.mapped f) := by
  simp only [parameter, hf.nameOrEmpty, h.nodeOfKind? hf]
  cases n.nodeOfKind? .typeName <;> simp [Piece.mapped, hf.tokenText]

theorem parameters_mapped (h : Through f n)
    (hp : ∀ m ∈ n.nodes, m.kind = .parameter → Through f m) :
    parameters (f n) = (parameters n).map (Piece.mapped f) := by
  rw [parameters, h, List.filter_map]
  have kept : ((fun m : Node => m.kind == .parameter) ∘ f) = fun m => m.kind == .parameter := by
    funext m
    simp [hf.kind]
  rw [kept, separated_mapped fun m hm => ?_]
  · rfl
  · obtain ⟨hm, hk⟩ := List.mem_filter.1 hm
    exact parameter_mapped hf (hp m hm (by simpa using hk))

theorem switchSection_mapped {d : Nat} (h : Through f n) :
    switchSection d (f n) = (switchSection d n).map (Piece.mapped f) := by
  simp only [switchSection, hf.tokenOfKind?, Option.isSome_map, show (f n).nodes = _ from h]
  split
  · simp [lines_mapped, Piece.mapped]
  · cases n.nodes with
    | nil => rfl
    | cons label rest => simp [lines_mapped, Piece.mapped]

theorem routine_mapped {keyword : String} (h : Through f n)
    (hp : ∀ m ∈ n.nodes, m.kind = .parameter → Through f m) :
    routine keyword (f n) = (routine keyword n).map (Piece.mapped f) := by
  simp only [routine, hf.nameOrEmpty, parameters_mapped hf h hp, h.nodeOfKind? hf]
  cases n.nodeOfKind? .block <;> simp [Piece.mapped, plain]

theorem elseBranch_mapped {style : Style} {k : NodeKind} (h : Through f n) :
    elseBranch style k (f n) = (elseBranch style k n).map (Piece.mapped f) := by
  unfold elseBranch
  rw [child_mapped hf h fun m _ => ?_]
  · simp only [List.map_cons]
    split <;> rfl
  · rw [hf.kind]
    split
    · rfl
    · exact embedded_mapped hf

theorem ifStatement_mapped {style : Style} (h : Through f n)
    (he : ∀ m ∈ n.nodes, m.kind = .elseClause → Through f m) :
    ifStatement style (f n) = (ifStatement style n).map (Piece.mapped f) := by
  simp only [ifStatement, child_mapped hf h fun m _ => plain_mapped, List.map_cons, List.map_append]
  refine congrArg₂ List.cons rfl (congrArg₂ List.append rfl (congrArg₂ List.cons rfl ?_))
  refine child_mapped hf h fun m _ => ?_
  rw [hf.kind, embedded_mapped hf, h.nodeOfKind? hf]
  cases hc : n.nodeOfKind? .elseClause with
  | none => simp
  | some clause =>
    have hk : clause.kind = .elseClause := by
      simpa using List.find?_some hc
    rw [List.map_append, ← elseBranch_mapped hf (he clause (mem_of_nodeOfKind? hc) hk)]
    rfl

theorem clause_mapped {keyword : String} (h : Through f n) {kind : NodeKind}
    (hc : ∀ m ∈ n.nodes, m.kind = kind → Through f m) :
    clause keyword (f n) kind = (clause keyword n kind).map (Piece.mapped f) := by
  unfold clause
  rw [h.nodeOfKind? hf]
  cases hn : n.nodeOfKind? kind with
  | none => rfl
  | some c =>
    have here : Through f c := hc c (mem_of_nodeOfKind? hn) (by simpa using List.find?_some hn)
    simp [child_mapped hf here fun m _ => plain_mapped, Piece.mapped]

theorem awaitPrefix_mapped : awaitPrefix (f n) = (awaitPrefix n).map (Piece.mapped f) := by
  unfold awaitPrefix
  rw [hf.hasAwait]
  split <;> rfl

theorem doBody_mapped {style : Style} :
    doBody style (f n) = (doBody style n).map (Piece.mapped f) := by
  unfold doBody
  rw [embedded_mapped hf, hf.kind, List.map_append]
  split <;> rfl

theorem sections_mapped {ns : List Node} (h : ∀ m ∈ ns, Through f m) :
    sections (ns.map f) = (sections ns).map (Piece.mapped f) := by
  induction ns with
  | nil => rfl
  | cons m ns ih =>
    simp only [sections, List.map_cons, List.flatMap_cons, List.map_append,
      switchSection_mapped hf (h m List.mem_cons_self)] at ih ⊢
    rw [ih fun m' hm' => h m' (List.mem_cons_of_mem _ hm')]
    rfl

theorem literal_mapped : literal (f n) = (literal n).map (Piece.mapped f) := by
  unfold literal
  rw [hf.token?]
  cases n.token? <;> rfl

theorem lambdaBody_mapped (h : Through f n) :
    lambdaBody (f n) = (lambdaBody n).map (Piece.mapped f) := by
  unfold lambdaBody
  rw [h, List.getLast?_map]
  cases n.nodes.getLast? with
  | none => rfl
  | some body =>
    simp only [Option.map_some, hf.kind]
    split <;> rfl

end

end Layout

/-! ## Printing remade trees -/

/-- If `f` does not change the print of the nodes among the pieces, it does not change theirs. -/
theorem renderPieces_mapped {style : Style} {depth : Nat} {f : Node → Node} {ps : List Piece}
    (h : ∀ d m, Piece.node d m ∈ ps → (f m).renderAt style (depth + d) = m.renderAt style (depth + d)) :
    renderPieces style depth (ps.map (Piece.mapped f)) = renderPieces style depth ps := by
  induction ps with
  | nil => rfl
  | cons p ps ih =>
    have here : (p.mapped f).render style depth = p.render style depth := by
      cases p with
      | node d m => exact h d m List.mem_cons_self
      | _ => rfl
    rw [List.map_cons, renderPieces, renderPieces, here,
      ih fun d m hm => h d m (List.mem_cons_of_mem _ hm)]

/-! ## Bare trees -/

namespace Node

theorem mapAll_eq (f : Node → Node) (cs : List (Child Node)) :
    (mapAll f cs).map (Child.mapped fun m => m) = cs.map (Child.mapped (map f)) := by
  induction cs with
  | nil => simp [mapAll]
  | cons c cs ih => cases c <;> simp [mapAll, Child.mapped, ih]

/-- The code of a tree alone, without numbers, places and marks. -/
def bare : Node → Node :=
  map fun n => ⟨0, n.kind, .detached, [], n.children.map (Child.mapped fun m => m)⟩

theorem bare_eq (n : Node) :
    n.bare = ⟨0, n.kind, .detached, [], n.children.map (Child.mapped bare)⟩ := by
  obtain ⟨id, kind, span, marks, children⟩ := n
  rw [bare, map]
  simp only [mapAll_eq]

theorem bare_build (kind : NodeKind) (cs : List (Child Node)) :
    (build kind cs).bare = ⟨0, kind, .detached, [], cs.map (Child.mapped bare)⟩ :=
  bare_eq _

theorem keeps_bare : Keeps bare where
  kind n := by rw [bare_eq]
  tokens n := by
    rw [bare_eq, Node.tokens, Node.tokens, List.filterMap_map, List.map_filterMap]
    congr 1
    funext c
    cases c <;> rfl

theorem through_bare (n : Node) : Through bare n := by
  rw [Through, bare_eq, nodes, nodes, List.filterMap_map, List.map_filterMap]
  congr 1
  funext c
  cases c <;> rfl

end Node

/-! ### Passes -/

section

variable {P : Node → Node → Prop}

/-- What a pass relates, node by node. -/
abbrev Recasts (P : Node → Node → Prop) : List Node → List Node → Prop :=
  List.Forall₂ fun m m' => m'.kind = m.kind ∧ m'.outline = m.outline ∧ P m m'

mutual

/-- A tree is told by the kinds and outlines of its nodes, one after another. -/
theorem bare_of_recasts : (n n' : Node) → {xs ys : List Node} →
    Recasts P (n.preorder ++ xs) (n'.preorder ++ ys) → n'.bare = n.bare ∧ Recasts P xs ys
  | ⟨id, kind, span, marks, cs⟩, ⟨id', kind', span', marks', cs'⟩, xs, ys, h => by
    rw [Node.preorder_eq, Node.preorder_eq, List.cons_append, List.cons_append] at h
    obtain ⟨⟨hk, ho, -⟩, h⟩ := List.forall₂_cons.1 h
    obtain ⟨hc, h⟩ := bareAll_of_recasts cs cs' ho h
    refine ⟨?_, h⟩
    rw [Node.bare_eq, Node.bare_eq]
    simp only at hk hc ⊢
    rw [hk, hc]

theorem bareAll_of_recasts : (cs cs' : List (Child Node)) → {xs ys : List Node} →
    cs'.map Child.outline = cs.map Child.outline →
    Recasts P (Node.preorderAll cs ++ xs) (Node.preorderAll cs' ++ ys) →
    cs'.map (Child.mapped Node.bare) = cs.map (Child.mapped Node.bare) ∧ Recasts P xs ys
  | [], [], _, _, _, h => ⟨rfl, by simpa [Node.preorderAll] using h⟩
  | .token t :: cs, .token t' :: cs', _, _, ho, h => by
    rw [List.map_cons, List.map_cons] at ho
    obtain ⟨ht, rest⟩ := List.cons.inj ho
    cases ht
    rw [Node.preorderAll, Node.preorderAll] at h
    obtain ⟨hc, h⟩ := bareAll_of_recasts cs cs' rest h
    exact ⟨by rw [List.map_cons, List.map_cons, hc], h⟩
  | .node n :: cs, .node n' :: cs', _, _, ho, h => by
    rw [List.map_cons, List.map_cons] at ho
    rw [Node.preorderAll, Node.preorderAll, List.append_assoc, List.append_assoc] at h
    obtain ⟨hn, h⟩ := bare_of_recasts n n' h
    obtain ⟨hc, h⟩ := bareAll_of_recasts cs cs' (List.cons.inj ho).2 h
    exact ⟨by rw [List.map_cons, List.map_cons, hc, Child.mapped, Child.mapped, hn], h⟩

end

/-- A pass changes numbers and marks at most. -/
theorem Recast.bare {n n' : Node} (h : Recast P n n') : n'.bare = n.bare :=
  (@bare_of_recasts P n n' [] [] (by rw [List.append_nil, List.append_nil]; exact h)).1

mutual

theorem Node.preorder_bare : (n : Node) → n.bare.preorder = n.preorder.map Node.bare
  | ⟨id, kind, span, marks, cs⟩ => by
    rw [Node.preorder_eq, Node.preorder_eq, List.map_cons, ← preorderAll_bare cs, Node.bare_eq]

theorem preorderAll_bare : (cs : List (Child Node)) →
    Node.preorderAll (cs.map (Child.mapped Node.bare)) = (Node.preorderAll cs).map Node.bare
  | [] => by simp [Node.preorderAll]
  | .token t :: cs => by
    simpa [Node.preorderAll, Child.mapped] using preorderAll_bare cs
  | .node n :: cs => by
    simp [Node.preorderAll, Child.mapped, Node.preorder_bare n, preorderAll_bare cs]

end

/-- Every node of a tree is, up to numbers, places and marks, one of any tree that equals it up to
these. -/
theorem exists_of_bare {n n' m' : Node} (h : n'.bare = n.bare) (hm : m' ∈ n'.preorder) :
    ∃ m ∈ n.preorder, m.bare = m'.bare := by
  have found : m'.bare ∈ n.preorder.map Node.bare := by
    rw [← Node.preorder_bare, ← h, Node.preorder_bare]
    exact List.mem_map_of_mem hm
  exact List.mem_map.1 found

end

open Layout Node in
theorem layout_bare (style : Style) (n : Node) :
    layout style n.bare = (layout style n).map (Piece.mapped bare) := by
  have hf := keeps_bare
  have h := through_bare n
  have below (m : Node) (_ : m ∈ n.nodes) := through_bare m
  have named {k : NodeKind} (m : Node) (_ : m ∈ n.nodes) (_ : m.kind = k) := through_bare m
  have one {i : Nat} : child n.bare i plain = (child n i plain).map (Piece.mapped bare) :=
    child_mapped hf h fun m _ => plain_mapped
  have body {i : Nat} : child n.bare i (embedded style) =
      (child n i (embedded style)).map (Piece.mapped bare) :=
    child_mapped hf h fun m _ => embedded_mapped hf
  have op {i : Nat} : child n.bare i operand = (child n i operand).map (Piece.mapped bare) :=
    child_mapped hf h fun m _ => operand_mapped hf
  have bin {i : Nat} : child n.bare i binaryOperand =
      (child n i binaryOperand).map (Piece.mapped bare) :=
    child_mapped hf h fun m _ => binaryOperand_mapped hf
  have part {i : Nat} : child n.bare i forPart = (child n i forPart).map (Piece.mapped bare) :=
    child_mapped hf h fun m _ => forPart_mapped hf (fun _ => through_bare m)
      fun _ d _ => through_bare d
  have declared {i : Nat} : child n.bare i declaration =
      (child n i declaration).map (Piece.mapped bare) :=
    child_mapped hf h fun m _ => declaration_mapped hf (through_bare m) fun d _ => through_bare d
  have done {i : Nat} : child n.bare i (doBody style) =
      (child n i (doBody style)).map (Piece.mapped bare) :=
    child_mapped hf h fun m _ => doBody_mapped hf
  have empty : n.bare.children.isEmpty = n.children.isEmpty := by rw [bare_eq]; simp
  cases hkind : n.kind <;>
    simp only [layout, hf.kind, hkind, List.map_cons, List.map_append, List.map_nil, one, body, op,
      bin, part, declared, done, show n.bare.nodes = _ from h, hf.nameOrEmpty, hf.tokenText,
      separated_mapped fun m _ => plain_mapped, declaration_mapped hf h below,
      parameters_mapped hf h named, parameter_mapped hf h, awaitPrefix_mapped hf,
      literal_mapped hf, routine_mapped hf h named, declarator_mapped hf h,
      switchSection_mapped hf h, ifStatement_mapped hf h named, returned_mapped h,
      lambdaBody_mapped hf h, clause_mapped hf h named, block_mapped h empty, ← List.map_tail,
      sections_mapped hf fun m _ => through_bare m, Piece.mapped]

/-- Numbers, places and marks are not printed. -/
theorem renderAt_bare (style : Style) (depth : Nat) (n : Node) :
    n.bare.renderAt style depth = n.renderAt style depth := by
  rw [renderAt_eq, renderAt_eq, layout_bare]
  refine renderPieces_mapped fun d m hm => ?_
  have := size_lt_of_mem_layout hm
  exact renderAt_bare style (depth + d) m
termination_by n.size

end Stencil
