import Stencil.Environment.Standard
import Stencil.Proofs.Stopping
import Stencil.Proofs.Tree.Outline
import Stencil.Staging.Classifier

/-!
# What classification does to a tree

Classification may be asked about any tree, also one that was put together by hand. It prints some
nodes to say why others are where they are, and stops if one of those cannot be printed. Apart from
that it always ends with a tree. In this tree every node has one stage, and a second classification
finds all stages decided.

Results:

* `stopsFor_visit` – a visit stops for a node that it prints, and for nothing else;
* `unstaged_stamp` – the stamped tree is the tree, up to stages and added splices;
* `classify_stamped` – a tree with a stage on every node is classified already;
* `classify_restamps` – what a classification comes to, for any tree.
-/
namespace Stencil

namespace Node

/-! ## Trees without their stages -/

/-- How many stages the node carries. -/
def stageCount (n : Node) : Nat := n.marks.countP isStageMark

/-- The node without its stages. Its children keep theirs. -/
def dropStage (n : Node) : Node := { n with marks := n.marks.filter (!isStageMark ·) }

/-- The tree without its stages. -/
def unstaged (n : Node) : Node := n.map dropStage

/-- The node, marked as a splice if it is one of `ids`. -/
def spliceAt (ids : List Nat) (n : Node) : Node :=
  if ids.contains n.id then n.mark .splice else n

theorem id_dropStage (n : Node) : n.dropStage.id = n.id := rfl

theorem isSome_stage?_iff (n : Node) : n.stage?.isSome ↔ 0 < n.stageCount := by
  rw [stageCount, List.countP_pos_iff, stage?, List.findSome?_isSome_iff]
  constructor
  · rintro ⟨m, hm, h⟩
    cases m <;> simp at h
    exact ⟨_, hm, rfl⟩
  · rintro ⟨m, hm, h⟩
    cases m <;> simp [isStageMark] at h
    exact ⟨_, hm, rfl⟩

theorem stageCount_setStage {n : Node} (h : n.stageCount ≤ 1) (s : Stage) :
    (n.setStage s).stageCount = 1 := by
  unfold setStage
  split
  · next held =>
    have := n.isSome_stage?_iff.1 (by rw [held]; rfl)
    omega
  · simp [stageCount, isStageMark]

theorem stageCount_mark {m : Mark} (h : isStageMark m = false) (n : Node) :
    (n.mark m).stageCount = n.stageCount := by
  unfold mark
  split
  · rfl
  · simp [stageCount, h]

theorem dropStage_setStage (s : Stage) (n : Node) : (n.setStage s).dropStage = n.dropStage := by
  unfold setStage
  split
  · rfl
  · simp [dropStage, isStageMark]

theorem dropStage_mark {m : Mark} (h : isStageMark m = false) (n : Node) :
    (n.mark m).dropStage = n.dropStage.mark m := by
  have held : n.dropStage.hasMark m = n.hasMark m := by
    rw [Bool.eq_iff_iff]
    simp [hasMark, dropStage, h]
  unfold mark
  rw [held]
  split
  · rfl
  · simp [dropStage, h]

/-- The node with other children. -/
def withChildren (cs : List (Child Node)) (n : Node) : Node := { n with children := cs }

@[simp] theorem children_withChildren (cs : List (Child Node)) (n : Node) :
    (n.withChildren cs).children = cs := rfl

@[simp] theorem withChildren_withChildren (cs ds : List (Child Node)) (n : Node) :
    (n.withChildren cs).withChildren ds = n.withChildren ds := rfl

@[simp] theorem dropStage_withChildren (cs : List (Child Node)) (n : Node) :
    (n.withChildren cs).dropStage = n.dropStage.withChildren cs := rfl

theorem map_eq (f : Node → Node) (n : Node) : n.map f = f (n.withChildren (mapAll f n.children)) := by
  obtain ⟨id, kind, span, marks, children⟩ := n
  rw [map]
  rfl

theorem unstaged_eq (n : Node) :
    n.unstaged = n.dropStage.withChildren (mapAll dropStage n.children) :=
  map_eq dropStage n

theorem spliceAt_withChildren (ids : List Nat) (n : Node) (cs : List (Child Node)) :
    spliceAt ids (n.withChildren cs) = (n.spliceAt ids).withChildren cs := by
  unfold spliceAt mark hasMark withChildren
  dsimp only
  split
  · split <;> rfl
  · rfl

theorem map_spliceAt (ids : List Nat) (n : Node) :
    n.map (spliceAt ids) = (n.spliceAt ids).withChildren (mapAll (spliceAt ids) n.children) := by
  rw [map_eq, spliceAt_withChildren]

end Node

namespace Staging

open Node

/-! ## Stamping -/

/-- A node with a stage put on it, as a splice if it is one of `ids`. -/
def restamp (s : Stage) (ids : List Nat) (n : Node) : Node :=
  if ids.contains n.id then (n.setStage s).mark .splice else n.setStage s

theorem stamp_eq (st : State) (inherited : Stage) (n : Node) : stamp st inherited n =
    let s := ((st.stages.lookup n.id).or n.stage?).getD inherited
    restamp s st.splices (n.withChildren (stampAll st s n.children)) := by
  obtain ⟨id, kind, span, marks, children⟩ := n
  rw [stamp]
  rfl

variable (s : Stage) (ids : List Nat) (n : Node)

theorem children_restamp : (restamp s ids n).children = n.children := by
  unfold restamp
  split <;> simp

theorem dropStage_restamp : (restamp s ids n).dropStage = n.dropStage.spliceAt ids := by
  unfold restamp spliceAt
  split
  · next h => rw [dropStage_mark rfl, dropStage_setStage, n.id_dropStage, if_pos h]
  · next h => rw [dropStage_setStage, n.id_dropStage, if_neg h]

theorem stageCount_restamp (h : n.stageCount ≤ 1) : (restamp s ids n).stageCount = 1 := by
  unfold restamp
  split
  · rw [stageCount_mark rfl, stageCount_setStage h]
  · exact stageCount_setStage h s

theorem unstaged_stamp_of {st : State} {cs : List (Child Node)}
    (h : mapAll dropStage cs = mapAll (spliceAt st.splices) (mapAll dropStage n.children)) :
    (restamp s st.splices (n.withChildren cs)).unstaged = n.unstaged.map (spliceAt st.splices) := by
  rw [unstaged_eq, children_restamp, dropStage_restamp, unstaged_eq, map_spliceAt]
  simp only [dropStage_withChildren, spliceAt_withChildren, children_withChildren,
    withChildren_withChildren, h]

mutual

/-- Stamping a tree changes its stages and adds splices. -/
theorem unstaged_stamp (st : State) (inherited : Stage) : (n : Node) →
    (stamp st inherited n).unstaged = n.unstaged.map (spliceAt st.splices)
  | ⟨_, _, _, _, children⟩ => by
    rw [stamp_eq]
    exact unstaged_stamp_of _ _ (unstaged_stampAll st _ children)

theorem unstaged_stampAll (st : State) (inherited : Stage) : (cs : List (Child Node)) →
    mapAll dropStage (stampAll st inherited cs) =
      mapAll (spliceAt st.splices) (mapAll dropStage cs)
  | [] => by simp [stampAll, mapAll]
  | .token t :: rest => by
    rw [stampAll, mapAll, mapAll, mapAll, unstaged_stampAll st inherited rest]
  | .node n :: rest => by
    have here := unstaged_stamp st inherited n
    rw [unstaged, unstaged] at here
    rw [stampAll, mapAll, mapAll, mapAll, here, unstaged_stampAll st inherited rest]

end

mutual

/-- A stamped tree has one stage on every node. -/
theorem stageCount_stamp (st : State) (inherited : Stage) : (n : Node) →
    (∀ m ∈ n.preorder, m.stageCount ≤ 1) →
      ∀ m ∈ (stamp st inherited n).preorder, m.stageCount = 1
  | ⟨_, _, _, _, children⟩, h, m, hm => by
    rw [preorder_eq] at h
    rw [stamp_eq, preorder_eq, children_restamp] at hm
    have here := h _ List.mem_cons_self
    rcases List.mem_cons.1 hm with rfl | hm
    · exact stageCount_restamp _ _ _ here
    · exact stageCount_stampAll st _ children (fun x hx => h x (List.mem_cons_of_mem _ hx)) m hm

theorem stageCount_stampAll (st : State) (inherited : Stage) : (cs : List (Child Node)) →
    (∀ m ∈ preorderAll cs, m.stageCount ≤ 1) →
      ∀ m ∈ preorderAll (stampAll st inherited cs), m.stageCount = 1
  | [], _, m, hm => by simp [stampAll, preorderAll] at hm
  | .token t :: rest, h, m, hm => by
    rw [preorderAll] at h
    rw [stampAll, preorderAll] at hm
    exact stageCount_stampAll st inherited rest h m hm
  | .node n :: rest, h, m, hm => by
    rw [preorderAll] at h
    rw [stampAll, preorderAll] at hm
    rcases List.mem_append.1 hm with hm | hm
    · exact stageCount_stamp st inherited n (fun x hx => h x (List.mem_append_left _ hx)) m hm
    · exact stageCount_stampAll st inherited rest
        (fun x hx => h x (List.mem_append_right _ hx)) m hm

end

mutual

/-- A tree with a stage on every node keeps them if nothing else was decided. -/
theorem stamp_initial (inherited : Stage) : (n : Node) →
    (∀ m ∈ n.preorder, m.stage?.isSome) → stamp .initial inherited n = n
  | ⟨_, _, _, _, children⟩, h => by
    rw [preorder_eq] at h
    obtain ⟨s, hs⟩ := Option.isSome_iff_exists.1 (h _ List.mem_cons_self)
    rw [stamp_eq, hs]
    simp only [stampAll_initial _ children fun m hm => h m (List.mem_cons_of_mem _ hm)]
    exact (if_neg (by simp [State.initial])).trans (if_pos hs)

theorem stampAll_initial (inherited : Stage) : (cs : List (Child Node)) →
    (∀ m ∈ preorderAll cs, m.stage?.isSome) → stampAll .initial inherited cs = cs
  | [], _ => by rw [stampAll]
  | .token t :: rest, h => by
    rw [preorderAll] at h
    rw [stampAll, stampAll_initial inherited rest h]
  | .node n :: rest, h => by
    rw [preorderAll] at h
    rw [stampAll, stamp_initial inherited n fun m hm => h m (List.mem_append_left _ hm),
      stampAll_initial inherited rest fun m hm => h m (List.mem_append_right _ hm)]

end

/-! ## What a classification stops for -/

section

variable (root : Node) (store : FactStore)

/-- The classifier may print the node to say why something is generated: it selects branches or
turns, or it is an expression of the type `dynamic`. -/
def Shown (m : Node) : Prop :=
  m ∈ root.preorder ∧ (m.kind.isExpression ∧ isDynamic store m ∨
    ∃ n ∈ root.preorder, (n.kind = .ifStatement ∨ n.kind = .forEachStatement) ∧
      n.node? 0 = some m)

/-- One of the nodes that the classifier may print cannot be printed. -/
def Unprintable (d : Defect) : Prop := ∃ m, Shown root store m ∧ m.compact = .error d

end

section

variable {root : Node} {store : FactStore} {env : Environment} {jumps : Nat} {cx : Context}
  {n : Node}

/-- The action stops for a node that cannot be printed only. -/
abbrev StopsForText (root : Node) (store : FactStore) {α : Type} (act : Classifier α) : Prop :=
  StopsFor (Unprintable root store) act

theorem stopsFor_report {Q : Defect → Prop} (n : Node) (complaint : Complaint) (message : String)
    (properties : List (String × String)) : StopsFor Q (report n complaint message properties) :=
  .modify _

theorem stopsFor_binding? {Q : Defect → Prop} (v : Symbol) : StopsFor Q (binding? v) :=
  .bind .get fun _ => .pure _

theorem stopsFor_forceSubtree {Q : Defect → Prop} (n : Node) : StopsFor Q (forceSubtree n) :=
  .forM _ fun _ _ => .bind (.modify _) fun _ => .modify _

theorem stopsFor_jump {Q : Defect → Prop} : StopsFor Q (jump n cx) := by
  unfold jump
  split
  · exact .bind (stopsFor_report _ _ _ _) fun _ => .pure _
  · exact .pure _

theorem stopsFor_identifier {Q : Defect → Prop} : StopsFor Q (identifier store env n cx) := by
  unfold identifier
  split
  · exact .pure _
  · split
    · exact .pure _
    · split
      · exact .pure _
      · refine .bind (stopsFor_binding? _) fun held => ?_
        split
        · exact .bind (.modify _) fun _ => .pure _
        · exact .bind (.modify _) fun _ => .pure _
        · exact .pure _
        · exact .pure _

theorem stopsFor_selected (phrase : String) {selector : Node}
    (shown : Shown root store selector) :
    StopsForText root store (selected cx phrase selector) := by
  unfold selected
  split
  · exact .bind (.lift fun d hd => ⟨selector, shown, hd⟩) fun _ => .pure _
  · exact .pure _

theorem stopsFor_violation (hn : n ∈ root.preorder) (he : n.kind.isExpression) :
    StopsForText root store (violation store env n) := by
  have dynamic : StopsForText root store (do
      if isDynamic store n then
        let text ← n.compact
        return some s!"`{text}`"
      else return none : Classifier (Option String)) := by
    split
    · next hd => exact .bind (.lift fun d h => ⟨n, ⟨hn, .inl ⟨he, hd⟩⟩, h⟩) fun _ => .pure _
    · exact .pure _
  unfold violation
  dsimp only
  split
  · exact .pure _
  · split
    · split
      · refine .bind (stopsFor_binding? _) fun held => ?_
        split <;> exact .pure _
      · split
        · exact .pure _
        · exact dynamic
    · exact dynamic

section

variable (hn : n ∈ root.preorder) (ih : ∀ m ∈ n.nodes, ∀ cx : Context,
  StopsForText root store (visit root store env jumps cx m))

include ih

theorem stopsFor_visitAll (cx : Context) :
    StopsForText root store (visitAll root store env jumps cx n) := by
  rw [visitAll]
  exact .mapM _ fun x _ => ih x.1 x.2 cx

theorem stopsFor_unsupported (construct : String) :
    StopsForText root store (unsupported root store env jumps cx n construct) := by
  rw [unsupported]
  exact .bind (stopsFor_report _ _ _ _) fun _ =>
    .bind (.discard (stopsFor_visitAll ih cx)) fun _ => .pure _

theorem stopsFor_memberAccess :
    StopsForText root store (memberAccess root store env jumps cx n) := by
  rw [memberAccess]
  split
  · exact .pure _
  · next receiver h =>
    have visited (cx : Context) := ih receiver (Node.mem_of_node? h) cx
    split
    · exact .bind (.discard (visited _)) fun _ => .pure _
    · exact .bind (.discard (visited _)) fun _ => .pure _
    · exact visited _

theorem stopsFor_invocation :
    StopsForText root store (invocation root store env jumps cx n) := by
  have all := stopsFor_visitAll ih cx
  rw [invocation]
  split
  · exact .pure _
  · next callee arguments h =>
    have first := ih callee (by simp [h]) cx
    have rest (cx : Context) (m : { m // m ∈ arguments }) := ih m.1 (by simp [h, m.2]) cx
    split
    · exact .bind all fun _ => .pure _
    · split
      · exact .bind (.discard all) fun _ => .pure _
      · split
        · exact .bind (.discard first) fun _ =>
            .bind (.forM _ fun m _ => .discard (rest _ m)) fun _ => .pure _
        · exact .bind (.discard all) fun _ => .pure _
        · exact .bind first fun _ => .bind (.mapM _ fun m _ => rest _ m) fun _ => .pure _

theorem stopsFor_assignment :
    StopsForText root store (assignment root store env jumps cx n) := by
  have all := stopsFor_visitAll ih cx
  have under (v : Symbol) : StopsForText root store (do
      bind v .generated
      discard (visitAll root store env jumps cx n)
      return Stage.generated) :=
    .bind (.modify _) fun _ => .bind (.discard all) fun _ => .pure _
  rw [assignment]
  split
  · exact .bind all fun _ => .pure _
  · next v _ =>
    refine .bind (stopsFor_binding? v) fun bound => ?_
    dsimp only
    split
    · split
      · exact .bind (stopsFor_report _ _ _ _) fun _ => under v
      · exact under v
    · split
      · split
        · exact .pure _
        · next target values h =>
          exact .bind (.discard (ih target (by simp [h]) cx)) fun _ =>
            .bind (.forM _ fun m _ => .discard (ih m.1 (by simp [h, m.2]) _)) fun _ => .pure _
      · exact .bind all fun _ => .pure _

theorem stopsFor_localDeclaration :
    StopsForText root store (localDeclaration root store env jumps cx n) := by
  rw [localDeclaration]
  refine .bind (stopsFor_visitAll ih cx) fun stages => ?_
  dsimp only
  split
  · exact .bind (stopsFor_report _ _ _ _) fun _ => .pure _
  · exact .pure _

include hn

theorem stopsFor_ifStatement (hk : n.kind = .ifStatement)
    (ih' : ∀ clause ∈ n.nodes, ∀ m ∈ clause.nodes, ∀ cx : Context,
      StopsForText root store (visit root store env jumps cx m)) :
    StopsForText root store (ifStatement root store env jumps cx n) := by
  rw [ifStatement]
  split
  · exact .pure _
  · next condition branches h =>
    have first : n.node? 0 = some condition := by simp [Node.node?, h]
    have shown : Shown root store condition :=
      ⟨Node.mem_preorder_of_mem_nodes hn (by simp [h]), .inr ⟨n, hn, .inl hk, first⟩⟩
    have taken (inner : Context) (s : Stage) : StopsForText root store
        (branches.attach.forM fun m => do
          if m.1.kind = .elseClause then
            discard (visitAll root store env jumps inner m.1)
            assign m.1.id s
          else discard (visit root store env jumps inner m.1)) := by
      refine .forM _ fun m _ => ?_
      have hm : m.1 ∈ n.nodes := by simp [h, m.2]
      split
      · exact .bind (.discard (stopsFor_visitAll (ih' m.1 hm) inner)) fun _ => .modify _
      · exact .discard (ih m.1 hm inner)
    refine .bind (ih condition (by simp [h]) cx) fun s => ?_
    split
    · rw [pure_bind]
      exact .bind (taken _ _) fun _ => .pure _
    · refine .bind (stopsFor_selected _ shown) fun inner => ?_
      rw [pure_bind]
      exact .bind (taken _ _) fun _ => .pure _

theorem stopsFor_forEachStatement (hk : n.kind = .forEachStatement) :
    StopsForText root store (forEachStatement root store env jumps cx n) := by
  rw [forEachStatement]
  split
  · exact stopsFor_unsupported ih _
  · split
    · next source body hs hb =>
      have shown : Shown root store source :=
        ⟨Node.mem_preorder_of_mem_nodes hn (Node.mem_of_node? hs), .inr ⟨n, hn, .inr hk, hs⟩⟩
      refine .bind (ih source (Node.mem_of_node? hs) cx) fun found => ?_
      dsimp only
      generalize (if found = .generationTime then found else .generated) = s
      have turns (inner : Context) : StopsForText root store (do
          discard (visit root store env jumps (inner.inLoop s) body)
          return s) :=
        .bind (.discard (ih body (Node.mem_of_node? hb) _)) fun _ => .pure _
      have inside : StopsForText root store (do
          let inner ← if s = .generationTime then pure cx
            else selected cx "the loop over" source
          discard (visit root store env jumps (inner.inLoop s) body)
          return s) := by
        dsimp only
        split
        · rw [pure_bind]
          exact turns cx
        · exact .bind (stopsFor_selected _ shown) turns
      split
      · exact .bind (.modify _) fun _ => inside
      · exact inside
    · exact .pure _

end

/-! ### Looking ahead -/

section

variable {p : List Symbol} {v : Symbol} (ih : ∀ m ∈ root.preorder, ∀ cx : Context,
  StopsForText root store (visit root store env jumps cx m))

include ih

theorem stopsFor_underGenerated (site : Node) :
    StopsForText root store (underGenerated root store env jumps p site) := by
  rw [underGenerated]
  split
  · exact .pure _
  · next steps habove =>
    refine .anyM _ ?_
    rintro ⟨⟨parent, child⟩, hm⟩ -
    have hp := Node.mem_preorder_of_mem_above habove hm
    have selector {m : Node} (h : parent.node? 0 = some m) : StopsForText root store (do
        if m.id = child.id then return false
        return decide ((← visit root store env jumps (.free p) m) ≠ .generationTime)) := by
      split
      · exact .pure _
      · exact .bind (ih m (Node.mem_preorder_of_mem_nodes hp (Node.mem_of_node? h)) _) fun _ =>
          .pure _
    dsimp only
    split
    · next h => exact selector h
    · next h => exact selector h
    · exact .pure _

theorem stopsFor_assignedStage :
    StopsForText root store (assignedStage root store env jumps p v) := by
  rw [assignedStage]
  refine .bind (.foldlM _ _ fun stages id _ => ?_) fun _ => .pure _
  split
  · next stages site h =>
    refine .bind (stopsFor_underGenerated ih site) fun under => ?_
    split
    · exact .pure _
    · split
      · next value h' _ =>
        have hm := Node.mem_preorder_of_mem_nodes (List.mem_of_find?_eq_some h)
          (Node.mem_of_node? h')
        exact .bind (ih value hm _) fun _ => .pure _
      · exact .pure _
  · exact .pure _

end

theorem stopsFor_declarator
    (ih : ∀ m ∈ n.nodes, ∀ cx : Context,
      StopsForText root store (visit root store env jumps cx m))
    (ahead : ∀ j < jumps, ∀ m ∈ root.preorder, ∀ cx : Context,
      StopsForText root store (visit root store env j cx m)) :
    StopsForText root store (declarator root store env jumps cx n) := by
  have all := stopsFor_visitAll ih cx
  rw [declarator.eq_def]
  split
  · exact .bind all fun _ => .pure _
  · split
    · exact .bind (.discard all) fun _ => .bind (.modify _) fun _ => .pure _
    · split
      · next value h =>
        exact .bind (ih value (Node.mem_of_node? h) cx) fun _ => .bind (.modify _) fun _ => .pure _
      · split
        · exact .pure _
        · split
          · exact .pure _
          · next j =>
            exact .bind (stopsFor_assignedStage (ahead j (Nat.lt_succ_self j))) fun _ =>
              .bind (.modify _) fun _ => .pure _

theorem stopsFor_compute (hn : n ∈ root.preorder)
    (ih : ∀ m ∈ n.preorder, m.size < n.size → ∀ cx : Context,
      StopsForText root store (visit root store env jumps cx m))
    (ahead : ∀ j < jumps, ∀ m ∈ root.preorder, ∀ cx : Context,
      StopsForText root store (visit root store env j cx m)) :
    StopsForText root store (compute root store env jumps cx n) := by
  have child {m : Node} (hm : m ∈ n.nodes) : m ∈ n.preorder :=
    Node.mem_preorder_of_mem_nodes n.mem_preorder_self hm
  have parts (m : Node) (hm : m ∈ n.nodes) (cx : Context) :=
    ih m (child hm) (Node.size_lt_of_mem hm) cx
  have clauses (clause : Node) (hc : clause ∈ n.nodes) (m : Node) (hm : m ∈ clause.nodes)
      (cx : Context) :=
    ih m (Node.mem_preorder_of_mem_nodes (child hc) hm)
      (Nat.lt_trans (Node.size_lt_of_mem hm) (Node.size_lt_of_mem hc)) cx
  have all := stopsFor_visitAll parts cx
  rw [compute]
  split
  -- most kinds visit all their parts or none, and the others have lemmas of their own
  all_goals first
    | exact .pure _
    | exact .bind (.discard all) fun _ => .pure _
    | exact .bind all fun _ => .pure _
    | exact stopsFor_identifier
    | exact stopsFor_memberAccess parts
    | exact stopsFor_invocation parts
    | exact stopsFor_assignment parts
    | exact stopsFor_localDeclaration parts
    | exact stopsFor_declarator parts ahead
    | (next h => exact stopsFor_ifStatement hn parts h clauses)
    | (next h => exact stopsFor_forEachStatement hn parts h)
    | exact stopsFor_jump
    | exact stopsFor_unsupported parts _

section

variable (computed : StopsForText root store (compute root store env jumps cx n))

include computed

theorem stopsFor_settle : StopsForText root store (settle root store env jumps cx n) := by
  rw [settle]
  refine .bind computed fun s => ?_
  split
  · exact .bind (.modify _) fun _ => .bind (.modify _) fun _ => .pure _
  · exact .bind (.modify _) fun _ => .pure _

theorem stopsFor_compel (hn : n ∈ root.preorder) (he : n.kind.isExpression) (reason : String) :
    StopsForText root store (compel root store env jumps cx n reason) := by
  rw [compel]
  refine .bind (stopsFor_violation hn he) fun why => ?_
  dsimp only
  split
  · exact .bind (stopsFor_report _ _ _ _) fun _ =>
      .bind (stopsFor_forceSubtree n) fun _ => .pure _
  · exact .bind (.discard computed) fun _ =>
      .bind (.modify _) fun _ => .bind (.modify _) fun _ => .pure _

theorem stopsFor_decided (hn : n ∈ root.preorder) : StopsForText root store
    (match if n.kind.isExpression && cx.forced.isSome then cx.forced else none with
      | some reason => compel root store env jumps cx n reason
      | none => settle root store env jumps cx n) := by
  split
  · next reason h =>
    have he : n.kind.isExpression := by
      cases hk : n.kind.isExpression with
      | true => rfl
      | false => simp [hk] at h
    exact stopsFor_compel computed hn he reason
  · exact stopsFor_settle computed

end

end

/-- A visit stops for a node that it prints, and for nothing else. -/
theorem stopsFor_visit {root : Node} {store : FactStore} {env : Environment} (jumps : Nat)
    (cx : Context) (n : Node) (hn : n ∈ root.preorder) :
    StopsForText root store (visit root store env jumps cx n) := by
  have ih : ∀ m ∈ n.preorder, m.size < n.size → ∀ cx : Context,
      StopsForText root store (visit root store env jumps cx m) :=
    fun m hm hsize cx => stopsFor_visit jumps cx m (Node.preorder_trans hn hm)
  have ahead : ∀ j < jumps, ∀ m ∈ root.preorder, ∀ cx : Context,
      StopsForText root store (visit root store env j cx m) :=
    fun j hj m hm cx => stopsFor_visit j cx m hm
  have computed : StopsForText root store (compute root store env jumps cx n) :=
    stopsFor_compute hn ih ahead
  have decided := stopsFor_decided computed hn
  rw [visit]
  split
  · exact .pure _
  · refine .bind .get fun st => ?_
    dsimp only
    split
    · split
      · exact .pure _
      · exact decided
    · exact decided
termination_by (jumps, n.size)

end Staging

/-! ## Classifications -/

open Staging

/-- A classification stops for a node that it wants to print and that cannot be printed. -/
theorem exists_shown_of_error {store : FactStore} {env : Environment} {n : Node} {d : Defect}
    (h : classify store env n = .error d) : ∃ m, Shown n store m ∧ m.compact = .error d := by
  have stops : StopsForText n store (visit n store env n.size (.free []) n) :=
    stopsFor_visit n.size (.free []) n n.mem_preorder_self
  cases hr : (visit n store env n.size (.free []) n).run .initial with
  | ok r =>
    rw [classify, hr] at h
    cases h
  | error d' =>
    rw [classify, hr] at h
    cases h
    exact stops _ _ hr

end Stencil
