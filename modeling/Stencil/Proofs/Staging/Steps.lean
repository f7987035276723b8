import Mathlib.Data.List.Nodup
import Mathlib.Data.Set.Basic
import Mathlib.Data.Set.Insert
import Mathlib.Logic.Relation
import Stencil.Proofs.Staging.Coverage
import Stencil.Proofs.Stopping

/-!
# What every run of the classifier does

`Runs` tells of the runs that report nothing. This module is about all runs: those that report
something go on, force subtrees that they do not enter, come back to nodes that were looked at ahead
of time, and reach the end of the tree all the same.

* A run is a sequence of `Step`s: a node gets a stage, a local gets one, or something is reported
  about a node that was not reported about it before. `Within` bounds the nodes that a visit
  changes or reports.
* A run *sweeps* the nodes it visits: every construct without a staged meaning among them was
  reported, or stands below a node that was refused, as a value that is needed too early.

Results:

* `Steps.exists_log` – every report of a run is about a node, and no two about one node are alike;
* `sweeps_visit` – a visit is a sequence of steps within its node and sweeps all that stands below.
-/
namespace Stencil.Staging

/-- How messages call the construct without a staged meaning that the node is, if it is one. -/
def construct? (n : Node) : Option String :=
  if !isSupported n.kind then some (constructName n.kind)
  else if n.kind = .forEachStatement ∧ n.hasAwait then some "await foreach"
  else none

/-- The report about a construct without a staged meaning. -/
def unsupportedAt (n : Node) (construct : String) : Diagnostic :=
  ⟨.unsupported, .classification, n.span, s!"`{construct}` is not supported in templates",
    [("construct", construct)]⟩

/-- What a report says of the node it is about. -/
structure Fits (n : Node) (d : Diagnostic) : Prop where
  span : d.span = n.span
  refused : d.complaint = .forcedTooEarly → n.kind.isExpression
  construct : d.complaint = .unsupported →
    ∃ name, construct? n = some name ∧ d = unsupportedAt n name
  jump : d.complaint = .jumpInGeneratedBranch →
    n.kind = .breakStatement ∨ n.kind = .continueStatement

section

variable {n : Node} {message : String} {properties : List (String × String)}

theorem Fits.atJump (hk : n.kind = .breakStatement ∨ n.kind = .continueStatement) :
    Fits n ⟨.jumpInGeneratedBranch, .classification, n.span, message, properties⟩ :=
  ⟨rfl, by simp, by simp, fun _ => hk⟩

theorem Fits.refusal (he : n.kind.isExpression) :
    Fits n ⟨.forcedTooEarly, .classification, n.span, message, properties⟩ :=
  ⟨rfl, fun _ => he, by simp, by simp⟩

theorem Fits.unsupportedAt {construct : String} (hc : construct? n = some construct) :
    Fits n (unsupportedAt n construct) :=
  ⟨rfl, by simp [Staging.unsupportedAt], fun _ => ⟨construct, hc, rfl⟩,
    by simp [Staging.unsupportedAt]⟩

/-- A report about a local. -/
theorem Fits.aboutLocal {complaint : Complaint}
    (hc : complaint = .assignedInGeneratedBranch ∨ complaint = .mixedDeclaration) :
    Fits n ⟨complaint, .classification, n.span, message, properties⟩ := by
  rcases hc with rfl | rfl <;> exact ⟨rfl, by simp, by simp, by simp⟩

end

/-- The state in which `d` was reported about the node `n`. -/
def State.tell (st : State) (n : Node) (d : Diagnostic) : State :=
  { st with reported := (n.id, d.complaint) :: st.reported, diagnostics := st.diagnostics ++ [d] }

/-- One change of the state, at a node of `W` where it is about a node. -/
inductive Step (W : Set Node) : State → State → Prop
  | put {n : Node} (hn : n ∈ W) (s : Stage) (st : State) : Step W st (st.put n.id s)
  | hold (v : Symbol) (s : Stage) (st : State) : Step W st (st.hold v s)
  | splices (ids : List Nat) (st : State) : Step W st { st with splices := ids }
  | tell {n : Node} (hn : n ∈ W) {d : Diagnostic} (fits : Fits n d) {st : State}
    (new : (n.id, d.complaint) ∉ st.reported) : Step W st (st.tell n d)

abbrev Steps (W : Set Node) : State → State → Prop := Relation.ReflTransGen (Step W)

theorem Step.mono {W W' : Set Node} (h : W ⊆ W') {st st' : State} (hs : Step W st st') :
    Step W' st st' := by
  cases hs with
  | put hn s => exact .put (h hn) s st
  | hold v s => exact .hold v s st
  | splices ids => exact .splices ids st
  | tell hn fits new => exact .tell (h hn) fits new

theorem Steps.mono {W W' : Set Node} (h : W ⊆ W') {st st' : State} (hs : Steps W st st') :
    Steps W' st st' :=
  Relation.ReflTransGen.mono (fun _ _ step => Step.mono h step) st st' hs

/-- Nothing that was reported is forgotten. -/
theorem Steps.reported {W : Set Node} {st st' : State} (h : Steps W st st') :
    st.reported ⊆ st'.reported := by
  induction h with
  | refl => exact List.Subset.refl _
  | tail _ step ih =>
    cases step with
    | tell => exact List.subset_cons_of_subset _ ih
    | _ => exact ih

/-! ## Reports and their nodes -/

/-- The reports of the state are those of `log`, in order, each with the node it is about. -/
structure Logs (W : Set Node) (log : List (Node × Diagnostic)) (st : State) : Prop where
  diagnostics : st.diagnostics = log.map Prod.snd
  reported : st.reported = (log.map fun e => (e.1.id, e.2.complaint)).reverse
  distinct : st.reported.Nodup
  fits : ∀ e ∈ log, e.1 ∈ W ∧ Fits e.1 e.2

/-- Every report of a run is about a node, and no two about one node are alike. -/
theorem Steps.exists_log {W : Set Node} {st : State} (h : Steps W .initial st) :
    ∃ log, Logs W log st := by
  induction h with
  | refl => exact ⟨[], rfl, rfl, .nil, nofun⟩
  | tail _ step ih =>
    obtain ⟨log, h⟩ := ih
    cases step with
    | put | hold | splices => exact ⟨log, h.diagnostics, h.reported, h.distinct, h.fits⟩
    | @tell n hn d fits st new =>
      refine ⟨log ++ [(n, d)], ?_, ?_, List.nodup_cons.2 ⟨new, h.distinct⟩, fun e he => ?_⟩
      · simp [State.tell, h.diagnostics]
      · simp [State.tell, h.reported]
      · rcases List.mem_append.1 he with he | he
        · exact h.fits e he
        · cases List.mem_singleton.1 he
          exact ⟨hn, fits⟩

/-- The entries about one complaint. -/
def entries (c : Complaint) (log : List (Node × Diagnostic)) : List (Node × Diagnostic) :=
  log.filter (·.2.complaint = c)

namespace Logs

variable {W : Set Node} {log : List (Node × Diagnostic)} {st : State} {c : Complaint}

theorem reports (h : Logs W log st) (c : Complaint) :
    st.diagnostics.filter (·.complaint = c) = (entries c log).map Prod.snd := by
  rw [h.diagnostics, List.filter_map]
  rfl

/-- No number is that of two nodes in entries about one complaint. -/
theorem nodup (h : Logs W log st) (c : Complaint) :
    (((entries c log).map Prod.fst).map Node.id).Nodup := by
  have distinct := h.distinct
  rw [h.reported, List.nodup_reverse] at distinct
  have sub := (List.Sublist.map (fun e => (e.1.id, e.2.complaint))
    (List.filter_sublist (p := fun e => e.2.complaint = c) (l := log))).nodup distinct
  refine List.Nodup.of_map (fun id => (id, c)) ?_
  rw [List.map_map, List.map_map]
  refine cast (congrArg List.Nodup (List.map_congr_left fun e he => ?_)) sub
  simpa using (List.mem_filter.1 he).2

theorem mem_reported (h : Logs W log st) {id : Nat} :
    (id, c) ∈ st.reported ↔ ∃ e ∈ entries c log, e.1.id = id := by
  simp only [h.reported, List.mem_reverse, List.mem_map, entries, List.mem_filter, Prod.mk.injEq,
    decide_eq_true_eq, and_assoc]
  constructor
  · rintro ⟨e, he, hid, hc⟩
    exact ⟨e, he, hc, hid⟩
  · rintro ⟨e, he, hc, hid⟩
    exact ⟨e, he, hid, hc⟩

end Logs

/-! ## Sweeping -/

/-- The nodes and all that stands below them. -/
def Below (ns : List Node) : Set Node := {x | ∃ m ∈ ns, x ∈ m.preorder}

theorem mem_below_singleton {n x : Node} : x ∈ Below [n] ↔ x ∈ n.preorder := by
  simp [Below]

theorem mem_below_self {n x : Node} : x ∈ Below [n] ↔ x = n ∨ x ∈ Below n.nodes := by
  rw [mem_below_singleton, Node.mem_preorder]
  rfl

theorem mem_below_cons {n x : Node} {ns : List Node} :
    x ∈ Below (n :: ns) ↔ x ∈ n.preorder ∨ x ∈ Below ns := by
  simp [Below]

section

variable (root : Node)

/-- If the node is a construct without a staged meaning, it was reported or stands below a node
that was refused. -/
def Told (st : State) (x : Node) : Prop :=
  construct? x ≠ none → (x.id, .unsupported) ∈ st.reported ∨
    ∃ y ∈ root.preorder, (y.id, .forcedTooEarly) ∈ st.reported ∧ x ∈ y.preorder

/-- All that stands below a node with a stage was told. -/
def Swept (st : State) : Prop :=
  ∀ m ∈ root.preorder, st.Knows m.id → ∀ x ∈ m.preorder, Told root st x

/-- The action takes steps at nodes of `W`. It keeps a state swept, and if all of `P` was told
before it, all of `S` is told after it. -/
def Sweeps (W P S : Set Node) {α : Type} (act : Classifier α) : Prop :=
  ∀ st a st', act.run st = .ok (a, st') → Steps W st st' ∧
    (Swept root st → (∀ x ∈ P, Told root st x) → Swept root st' ∧ ∀ x ∈ S, Told root st' x)

end

variable {root : Node}

theorem Told.mono {st st' : State} {x : Node} (h : Told root st x)
    (hr : st.reported ⊆ st'.reported) : Told root st' x := by
  intro hc
  rcases h hc with told | ⟨y, hy, refused, hx⟩
  · exact .inl (hr told)
  · exact .inr ⟨y, hy, hr refused, hx⟩

theorem Swept.of_stages {st st' : State} (h : Swept root st) (hs : st'.stages = st.stages)
    (hr : st.reported ⊆ st'.reported) : Swept root st' := by
  intro m hm known x hx
  rw [State.Knows, hs] at known
  exact (h m hm known x hx).mono hr

namespace Sweeps

variable {W P S T : Set Node} {α β : Type}

theorem bind {act : Classifier α} {k : α → Classifier β} (h : Sweeps root W P S act)
    (hk : ∀ a, Sweeps root W S T (k a)) : Sweeps root W P T (act >>= k) := by
  intro st b st' hr
  rw [StateT.run_bind] at hr
  cases ha : act.run st with
  | error e => rw [ha] at hr; cases hr
  | ok r =>
    rw [ha] at hr
    obtain ⟨first, sweeps⟩ := h st r.1 r.2 ha
    obtain ⟨second, sweeps'⟩ := hk r.1 r.2 b st' hr
    refine ⟨first.trans second, fun swept told => ?_⟩
    obtain ⟨swept', told'⟩ := sweeps swept told
    exact sweeps' swept' told'

theorem pure {a : α} (h : S ⊆ P) : Sweeps root W P S (Pure.pure a) := by
  intro st b st' hr
  cases hr
  exact ⟨.refl, fun swept told => ⟨swept, fun x hx => told x (h hx)⟩⟩

theorem get : Sweeps root W P P (get : Classifier State) := by
  intro st b st' hr
  cases hr
  exact ⟨.refl, fun swept told => ⟨swept, told⟩⟩

theorem lift (x : Except Defect α) : Sweeps root W P P (liftM x : Classifier α) := by
  intro st b st' hr
  cases x with
  | error e => cases hr
  | ok a =>
    cases hr
    exact ⟨.refl, fun swept told => ⟨swept, told⟩⟩

/-- Less may be asked of an action. -/
theorem weaken {W' P' : Set Node} {act : Classifier α} (h : Sweeps root W P S act) (hW : W ⊆ W')
    (hP : P ⊆ P') (hT : T ⊆ S) : Sweeps root W' P' T act := by
  intro st a st' hr
  obtain ⟨steps, sweeps⟩ := h st a st' hr
  refine ⟨steps.mono hW, fun swept told => ?_⟩
  obtain ⟨swept', told'⟩ := sweeps swept fun x hx => told x (hP hx)
  exact ⟨swept', fun x hx => told' x (hT hx)⟩

theorem ends {act : Classifier α} (h : Sweeps root W P S act) (hT : T ⊆ S) :
    Sweeps root W P T act := h.weaken (fun _ h => h) (fun _ h => h) hT

/-- A node with a staged meaning needs no report. -/
theorem supported {n : Node} {act : Classifier α} (h : Sweeps root W P (P ∪ Below n.nodes) act)
    (hc : construct? n = none) : Sweeps root W P (P ∪ Below [n]) act := by
  intro st a st' hr
  obtain ⟨steps, sweeps⟩ := h st a st' hr
  refine ⟨steps, fun swept told => ?_⟩
  obtain ⟨swept', told'⟩ := sweeps swept told
  refine ⟨swept', ?_⟩
  rintro x (hx | hx)
  · exact told' x (.inl hx)
  · rcases mem_below_self.1 hx with rfl | hx
    · exact fun h => absurd hc h
    · exact told' x (.inr hx)

/-- A step that neither decides a node nor reports. -/
theorem modify {f : State → State} (step : ∀ st, Step W st (f st))
    (hs : ∀ st, (f st).stages = st.stages) (hr : ∀ st, (f st).reported = st.reported) :
    Sweeps root W P P (modify f) := by
  intro st a st' h
  cases h
  have grows : st.reported ⊆ (f st).reported := by rw [hr st]; exact List.Subset.refl _
  exact ⟨.single (step st), fun swept told =>
    ⟨swept.of_stages (hs st) grows, fun x hx => (told x hx).mono grows⟩⟩

theorem discard {act : Classifier α} (h : Sweeps root W P S act) :
    Sweeps root W P S (discard act) := by
  rw [Pass.discard_eq]
  exact .bind h fun _ => .pure fun _ h => h

theorem mapM {f : α → Node} {act : α → Classifier β} (xs : List α)
    (h : ∀ x ∈ xs, ∀ P, Sweeps root W P (P ∪ Below [f x]) (act x)) (P : Set Node) :
    Sweeps root W P (P ∪ Below (xs.map f)) (xs.mapM act) := by
  induction xs generalizing P with
  | nil => exact .pure (by rintro x (hx | ⟨m, hm, -⟩); exacts [hx, absurd hm List.not_mem_nil])
  | cons x xs ih =>
    rw [List.mapM_cons]
    refine .bind (h x List.mem_cons_self P) fun b => ?_
    refine .bind (ih (fun y hy => h y (List.mem_cons_of_mem _ hy)) _) fun bs => .pure ?_
    intro y hy
    simp only [List.map_cons, Set.mem_union, mem_below_cons] at hy ⊢
    tauto

theorem forM {f : α → Node} {act : α → Classifier PUnit} (xs : List α)
    (h : ∀ x ∈ xs, ∀ P, Sweeps root W P (P ∪ Below [f x]) (act x)) (P : Set Node) :
    Sweeps root W P (P ∪ Below (xs.map f)) (xs.forM act) := by
  induction xs generalizing P with
  | nil => exact .pure (by rintro x (hx | ⟨m, hm, -⟩); exacts [hx, absurd hm List.not_mem_nil])
  | cons x xs ih =>
    refine .bind (h x List.mem_cons_self P) fun b => ?_
    refine (ih (fun y hy => h y (List.mem_cons_of_mem _ hy)) _).ends ?_
    intro y hy
    simp only [List.map_cons, Set.mem_union, mem_below_cons] at hy ⊢
    tauto

theorem anyM {f : α → Classifier Bool} (xs : List α) (h : ∀ x ∈ xs, Sweeps root W P P (f x)) :
    Sweeps root W P P (xs.anyM f) := by
  induction xs with
  | nil => exact .pure fun _ h => h
  | cons x xs ih =>
    rw [List.anyM]
    refine .bind (h x List.mem_cons_self) fun found => ?_
    split
    · exact .pure fun _ h => h
    · exact ih fun y hy => h y (List.mem_cons_of_mem _ hy)

theorem foldlM {f : β → α → Classifier β} (xs : List α) (b : β)
    (h : ∀ b, ∀ x ∈ xs, Sweeps root W P P (f b x)) : Sweeps root W P P (xs.foldlM f b) := by
  induction xs generalizing b with
  | nil => exact .pure fun _ h => h
  | cons x xs ih =>
    rw [List.foldlM]
    exact .bind (h b x List.mem_cons_self) fun c => ih c fun b y hy =>
      h b y (List.mem_cons_of_mem _ hy)

end Sweeps

/-! ## The pieces of the classifier -/

section

variable {store : FactStore} {env : Environment} {jumps : Nat} {cx : Context} {n : Node}
  {W P : Set Node}

theorem sweeps_bind (v : Symbol) (s : Stage) : Sweeps root W P P (bind v s) :=
  .modify (.hold v s) (fun _ => rfl) fun _ => rfl

theorem sweeps_unsplice (id : Nat) : Sweeps root W P P (unsplice id) :=
  .modify (fun st => .splices (st.splices.filter (· ≠ id)) st) (fun _ => rfl) fun _ => rfl

theorem sweeps_splice (id : Nat) : Sweeps root W P P (splice id) :=
  .modify (fun st => .splices (id :: st.splices) st) (fun _ => rfl) fun _ => rfl

theorem sweeps_binding? (v : Symbol) : Sweeps root W P P (binding? v) :=
  .bind .get fun _ => .pure fun _ h => h

/-- A node may get a stage once all that stands below it was told. -/
theorem sweeps_assign (hu : Distinct root) (hr : n ∈ root.preorder) (hn : n ∈ W)
    (hP : Below [n] ⊆ P) (s : Stage) : Sweeps root W P P (assign n.id s) := by
  intro st a st' h
  cases h
  refine ⟨.single (.put hn s st), fun swept told => ⟨?_, fun x hx => told x hx⟩⟩
  intro m hm known x hx
  rcases (knows_settled (show _ = (n.id, s) :: st.stages from rfl)).1 known with heq | known
  · obtain rfl := hu m hm n hr heq
    exact told x (hP (mem_below_singleton.2 hx))
  · exact swept m hm known x hx

/-- Afterwards the report is among what was reported. -/
theorem run_report {complaint : Complaint} {message : String}
    {properties : List (String × String)} (hn : n ∈ W)
    (fits : Fits n ⟨complaint, .classification, n.span, message, properties⟩) {st : State}
    {a : Unit} {st' : State}
    (h : (report n complaint message properties).run st = .ok (a, st')) :
    Steps W st st' ∧ st'.stages = st.stages ∧ (n.id, complaint) ∈ st'.reported := by
  cases h
  beta_reduce
  split
  · next known => exact ⟨.refl, rfl, by simpa using known⟩
  · next new =>
    exact ⟨.single (.tell hn fits (by simpa using new)), rfl, List.mem_cons_self⟩

/-- What is reported about a node may tell of some nodes. -/
theorem sweeps_report {complaint : Complaint} {message : String}
    {properties : List (String × String)} {S : Set Node} (hn : n ∈ W)
    (fits : Fits n ⟨complaint, .classification, n.span, message, properties⟩)
    (tells : ∀ st : State, (n.id, complaint) ∈ st.reported → ∀ x ∈ S, Told root st x) :
    Sweeps root W P (P ∪ S) (report n complaint message properties) := by
  intro st a st' h
  obtain ⟨steps, stages, reported⟩ := run_report hn fits h
  refine ⟨steps, fun swept told => ⟨swept.of_stages stages steps.reported, ?_⟩⟩
  rintro x (hx | hx)
  · exact (told x hx).mono steps.reported
  · exact tells st' reported x hx

/-- A report that tells of no construct. -/
theorem sweeps_remark {complaint : Complaint} {message : String}
    {properties : List (String × String)} (hn : n ∈ W)
    (fits : Fits n ⟨complaint, .classification, n.span, message, properties⟩) :
    Sweeps root W P P (report n complaint message properties) :=
  (sweeps_report (S := ∅) hn fits fun _ _ _ => False.elim).ends fun _ => .inl

theorem sweeps_forceSubtree (hu : Distinct root) (hr : n ∈ root.preorder)
    (hn : ∀ m ∈ n.preorder, m ∈ W) (hP : Below [n] ⊆ P) :
    Sweeps root W P P (forceSubtree n) := by
  have each (m : Node) (hm : m ∈ n.preorder) :
      Sweeps root W P P (do unsplice m.id; assign m.id .generationTime) := by
    refine .bind (sweeps_unsplice m.id) fun _ => ?_
    refine sweeps_assign hu (Node.preorder_trans hr hm) (hn m hm) (fun x hx => hP ?_) _
    exact mem_below_singleton.2 (Node.preorder_trans hm (mem_below_singleton.1 hx))
  rw [forceSubtree]
  generalize n.preorder = ms at each
  induction ms with
  | nil => exact .pure fun _ h => h
  | cons m ms ih =>
    exact .bind (each m List.mem_cons_self) fun _ =>
      ih fun m' hm => each m' (List.mem_cons_of_mem _ hm)

theorem sweeps_selected (cx : Context) (phrase : String) (selector : Node) :
    Sweeps root W P P (selected cx phrase selector) := by
  unfold selected
  split
  · exact .bind (.lift _) fun _ => .pure fun _ h => h
  · exact .pure fun _ h => h

theorem sweeps_violation : Sweeps root W P P (violation store env n) := by
  have dynamic : Sweeps root W P P (do
      if isDynamic store n then
        let text ← n.compact
        return some s!"`{text}`"
      else return none : Classifier (Option String)) := by
    split
    · exact .bind (.lift _) fun _ => .pure fun _ h => h
    · exact .pure fun _ h => h
  unfold violation
  dsimp only
  split
  · exact .pure fun _ h => h
  · split
    · split
      · refine .bind (sweeps_binding? _) fun held => ?_
        split <;> exact .pure fun _ h => h
      · split
        · exact .pure fun _ h => h
        · exact dynamic
    · exact dynamic

theorem sweeps_identifier : Sweeps root W P P (identifier store env n cx) := by
  unfold identifier
  split
  · exact .pure fun _ h => h
  · split
    · exact .pure fun _ h => h
    · split
      · exact .pure fun _ h => h
      · refine .bind (sweeps_binding? _) fun held => ?_
        split
        · exact .bind (sweeps_bind _ _) fun _ => .pure fun _ h => h
        · exact .bind (sweeps_bind _ _) fun _ => .pure fun _ h => h
        · exact .pure fun _ h => h
        · exact .pure fun _ h => h

theorem sweeps_jump (hn : n ∈ W)
    (hk : n.kind = .breakStatement ∨ n.kind = .continueStatement) :
    Sweeps root W P P (jump n cx) := by
  unfold jump
  split
  · exact .bind (sweeps_remark hn (.atJump hk)) fun _ => .pure fun _ h => h
  · exact .pure fun _ h => h

/-! ## The kinds of nodes -/

section

variable (hn : n ∈ W) (rule : Rule n.kind n.outline)
  (ih : ∀ m ∈ n.nodes, ∀ (cx : Context) (P : Set Node),
    Sweeps root W P (P ∪ Below [m]) (visit root store env jumps cx m))

/-- What was told before the parts were, and the parts. -/
theorem union_below_cons (P : Set Node) (m : Node) (ms : List Node) :
    P ∪ Below (m :: ms) ⊆ P ∪ Below [m] ∪ Below ms := by
  intro x hx
  simp only [Set.mem_union, mem_below_cons] at hx ⊢
  tauto

include ih

theorem sweeps_visitAll (cx : Context) (P : Set Node) :
    Sweeps root W P (P ∪ Below n.nodes) (visitAll root store env jumps cx n) := by
  rw [visitAll]
  have all := Sweeps.mapM (f := Subtype.val) n.nodes.attach (fun x _ => ih x.1 x.2 cx) P
  rwa [List.attach_map_subtype_val] at all

theorem sweeps_invocation :
    Sweeps root W P (P ∪ Below n.nodes) (invocation root store env jumps cx n) := by
  have all := sweeps_visitAll ih cx P
  have left : Sweeps root W (P ∪ Below n.nodes) (P ∪ Below n.nodes)
    (pure .generated : Classifier Stage) := .pure fun _ h => h
  rw [invocation]
  split
  · next h => exact .pure (by rw [h]; simp [Below])
  · next callee arguments h =>
    have first := ih callee (by simp [h]) cx P
    have rest (cx : Context) (m : { m // m ∈ arguments }) := ih m.1 (by simp [h, m.2]) cx
    split
    · exact .bind all fun _ => .pure fun _ h => h
    · split
      · exact .bind (.discard all) fun _ => left
      · split
        · refine .bind (.discard first) fun _ => ?_
          refine .bind (.forM _ (fun m _ P => .discard (rest _ m P)) _) fun _ => .pure ?_
          rw [List.attach_map_subtype_val, h]
          exact union_below_cons P callee arguments
        · exact .bind (.discard all) fun _ => left
        · refine .bind first fun _ => ?_
          refine .bind (.mapM _ (fun m _ P => rest cx m P) _) fun _ => .pure ?_
          rw [List.attach_map_subtype_val, h]
          exact union_below_cons P callee arguments

include rule in
theorem sweeps_memberAccess (hk : n.kind = .memberAccess) :
    Sweeps root W P (P ∪ Below n.nodes) (memberAccess root store env jumps cx n) := by
  obtain ⟨receiver, hnodes, -⟩ := rule.nodes_memberAccess hk
  have hr : n.node? 0 = some receiver := by simp [Node.node?, hnodes]
  have visited (cx : Context) :
      Sweeps root W P (P ∪ Below n.nodes) (visit root store env jumps cx receiver) := by
    rw [hnodes]
    exact ih receiver (by simp [hnodes]) cx P
  rw [memberAccess]
  split
  · next h => cases h.symm.trans hr
  · next r h =>
    cases Option.some.inj (hr.symm.trans h)
    split
    · exact .bind (.discard (visited _)) fun _ => .pure fun _ h => h
    · exact .bind (.discard (visited _)) fun _ => .pure fun _ h => h
    · exact visited _

theorem sweeps_ifStatement (hu : Distinct root) (hr : n ∈ root.preorder)
    (hW : ∀ m ∈ n.nodes, m ∈ W) (ih' : ∀ clause ∈ n.nodes, ∀ m ∈ clause.nodes,
      ∀ (cx : Context) (P : Set Node),
        Sweeps root W P (P ∪ Below [m]) (visit root store env jumps cx m)) :
    Sweeps root W P (P ∪ Below n.nodes) (ifStatement root store env jumps cx n) := by
  rw [ifStatement]
  split
  · next h => exact .pure (by rw [h]; simp [Below])
  · next condition branches h =>
    have branch (inner : Context) (s : Stage) (x : { m // m ∈ branches }) (P : Set Node) :
        Sweeps root W P (P ∪ Below [x.1]) (do
          if x.1.kind = .elseClause then
            discard (visitAll root store env jumps inner x.1)
            assign x.1.id s
          else discard (visit root store env jumps inner x.1)) := by
      have hm : x.1 ∈ n.nodes := by simp [h, x.2]
      split
      · next hc =>
        have inside := Node.mem_preorder_of_mem_nodes hr hm
        have clause : construct? x.1 = none := by simp [construct?, hc, isSupported]
        have parts := (sweeps_visitAll (ih' x.1 hm) inner P).supported clause
        exact .bind (.discard parts) fun _ =>
          sweeps_assign hu inside (hW x.1 hm) (fun _ => .inr) s
      · exact .discard (ih x.1 hm inner P)
    have taken (inner : Context) (s : Stage) (P : Set Node) :=
      Sweeps.forM branches.attach (fun x _ => branch inner s x) P
    have enough : P ∪ Below n.nodes ⊆
        P ∪ Below [condition] ∪ Below (branches.attach.map Subtype.val) := by
      rw [List.attach_map_subtype_val, h]
      exact union_below_cons P condition branches
    refine .bind (ih condition (by simp [h]) cx P) fun s => ?_
    split
    · rw [pure_bind]
      exact .bind (taken _ _ _) fun _ => .pure enough
    · refine .bind (sweeps_selected _ _ _) fun inner => ?_
      rw [pure_bind]
      exact .bind (taken _ _ _) fun _ => .pure enough

include hn

theorem sweeps_unsupported {construct : String} (hc : construct? n = some construct) :
    Sweeps root W P (P ∪ Below [n]) (unsupported root store env jumps cx n construct) := by
  rw [unsupported]
  refine .bind (sweeps_report (S := {n}) hn (.unsupportedAt hc) ?_)
    fun _ => .bind (.discard (sweeps_visitAll ih cx _)) fun _ => .pure ?_
  · rintro st told x rfl _
    exact .inl told
  · intro x hx
    simp only [Set.mem_union, mem_below_self, Set.mem_singleton_iff] at hx ⊢
    tauto

theorem sweeps_assignment :
    Sweeps root W P (P ∪ Below n.nodes) (assignment root store env jumps cx n) := by
  have all := sweeps_visitAll ih cx P
  have under (v : Symbol) : Sweeps root W P (P ∪ Below n.nodes) (do
      bind v .generated
      discard (visitAll root store env jumps cx n)
      return Stage.generated) :=
    .bind (sweeps_bind v _) fun _ => .bind (.discard all) fun _ => .pure fun _ h => h
  rw [assignment]
  split
  · exact .bind all fun _ => .pure fun _ h => h
  · next v _ =>
    refine .bind (sweeps_binding? v) fun bound => ?_
    dsimp only
    split
    · split
      · exact .bind (sweeps_remark hn (.aboutLocal (.inl rfl))) fun _ => under v
      · exact under v
    · split
      · split
        · next h => exact .pure (by rw [h]; simp [Below])
        · next target values h =>
          refine .bind (.discard (ih target (by simp [h]) cx P)) fun _ => ?_
          refine .bind (.forM _ (fun m _ P => .discard (ih m.1 (by simp [h, m.2]) _ P)) _)
            fun _ => .pure ?_
          rw [List.attach_map_subtype_val, h]
          exact union_below_cons P target values
      · exact .bind all fun _ => .pure fun _ h => h

theorem sweeps_localDeclaration :
    Sweeps root W P (P ∪ Below n.nodes) (localDeclaration root store env jumps cx n) := by
  rw [localDeclaration]
  refine .bind (sweeps_visitAll ih cx P) fun stages => ?_
  dsimp only
  split
  · exact .bind (sweeps_remark hn (.aboutLocal (.inr rfl))) fun _ => .pure fun _ h => h
  · exact .pure fun _ h => h

include rule in
theorem sweeps_forEachStatement (hk : n.kind = .forEachStatement) :
    Sweeps root W P (P ∪ Below [n]) (forEachStatement root store env jumps cx n) := by
  obtain ⟨source, body, hnodes, -, -⟩ := rule.nodes_forEach hk
  have hs : n.node? 0 = some source := by simp [Node.node?, hnodes]
  have hb : n.node? 1 = some body := by simp [Node.node?, hnodes]
  rw [forEachStatement]
  split
  · next hawait => exact sweeps_unsupported hn ih (by simp [construct?, hk, isSupported, hawait])
  · next hawait =>
    refine .supported ?_ (by simp [construct?, hk, isSupported, hawait])
    split
    · next source' body' hs' hb' =>
      cases Option.some.inj (hs.symm.trans hs')
      cases Option.some.inj (hb.symm.trans hb')
      refine .bind (ih source (by simp [hnodes]) cx P) fun found => ?_
      dsimp only
      generalize (if found = .generationTime then found else .generated) = s
      have turns (inner : Context) :
          Sweeps root W (P ∪ Below [source]) (P ∪ Below n.nodes) (do
            discard (visit root store env jumps (inner.inLoop s) body)
            return s) := by
        refine .bind (.discard (ih body (by simp [hnodes]) _ _)) fun _ => .pure ?_
        rw [hnodes]
        exact union_below_cons P source [body]
      have inside : Sweeps root W (P ∪ Below [source]) (P ∪ Below n.nodes) (do
          let inner ← if s = .generationTime then pure cx
            else selected cx "the loop over" source
          discard (visit root store env jumps (inner.inLoop s) body)
          return s) := by
        dsimp only
        split
        · rw [pure_bind]
          exact turns cx
        · exact .bind (sweeps_selected _ _ _) turns
      split
      · exact .bind (sweeps_bind _ _) fun _ => inside
      · exact inside
    · next no => exact (no _ _ hs hb).elim

end

/-! ## Looking ahead -/

/-- What is looked at ahead of time: assigned values, and what `if` and `foreach` select by. -/
def Ahead (root e : Node) : Prop :=
  ∃ n ∈ root.preorder, n.kind = .assignment ∧ n.node? 1 = some e ∨
    (n.kind = .ifStatement ∨ n.kind = .forEachStatement) ∧ n.node? 0 = some e

section

variable {p : List Symbol} {v : Symbol} (ih : ∀ m, Ahead root m → ∀ (cx : Context) (P : Set Node),
  Sweeps root W P (P ∪ Below [m]) (visit root store env jumps cx m))

include ih

theorem sweeps_underGenerated (site : Node) :
    Sweeps root W P P (underGenerated root store env jumps p site) := by
  rw [underGenerated]
  split
  · exact .pure fun _ h => h
  · next steps habove =>
    refine .anyM _ ?_
    rintro ⟨⟨parent, child⟩, hm⟩ -
    have hp := Node.mem_preorder_of_mem_above habove hm
    have selector {m : Node} (hk : parent.kind = .ifStatement ∨ parent.kind = .forEachStatement)
        (h : parent.node? 0 = some m) : Sweeps root W P P (do
          if m.id = child.id then return false
          return decide ((← visit root store env jumps (.free p) m) ≠ .generationTime)) := by
      split
      · exact .pure fun _ h => h
      · exact .bind (ih m ⟨parent, hp, .inr ⟨hk, h⟩⟩ _ P) fun _ => .pure fun _ => .inl
    dsimp only
    split
    · next hk h => exact selector (.inl hk) h
    · next hk h => exact selector (.inr hk) h
    · exact .pure fun _ h => h

theorem sweeps_assignedStage :
    Sweeps root W P P (assignedStage root store env jumps p v) := by
  rw [assignedStage]
  refine .bind (.foldlM _ _ fun stages id _ => ?_) fun _ => .pure fun _ h => h
  split
  · next stages site h =>
    refine .bind (sweeps_underGenerated ih site) fun under => ?_
    split
    · exact .pure fun _ h => h
    · split
      · next value h' hk =>
        have assigned := ih value ⟨site, List.mem_of_find?_eq_some h, .inl ⟨hk, h'⟩⟩
        exact .bind (assigned _ P) fun _ => .pure fun _ => .inl
      · exact .pure fun _ h => h
  · exact .pure fun _ h => h

end

theorem sweeps_declarator (rule : Rule n.kind n.outline) (hk : n.kind = .declarator)
    (ih : ∀ m ∈ n.nodes, ∀ (cx : Context) (P : Set Node),
      Sweeps root W P (P ∪ Below [m]) (visit root store env jumps cx m))
    (ahead : ∀ j < jumps, ∀ m, Ahead root m → ∀ (cx : Context) (P : Set Node),
      Sweeps root W P (P ∪ Below [m]) (visit root store env j cx m)) :
    Sweeps root W P (P ∪ Below n.nodes) (declarator root store env jumps cx n) := by
  have all := sweeps_visitAll ih cx P
  rw [declarator.eq_def]
  split
  · exact .bind all fun _ => .pure fun _ h => h
  · split
    · exact .bind (.discard all) fun _ => .bind (sweeps_bind _ _) fun _ => .pure fun _ h => h
    · split
      · next value h =>
        have hnodes : n.nodes = [value] := by
          rcases rule.nodes_declarator hk with h' | ⟨_, h', -⟩
          · simp [Node.node?, h'] at h
          · simpa [Node.node?, h'] using h
        rw [hnodes]
        exact .bind (ih value (Node.mem_of_node? h) cx P) fun _ =>
          .bind (sweeps_bind _ _) fun _ => .pure fun _ h => h
      · next h =>
        have hnodes : n.nodes = [] := by
          rcases rule.nodes_declarator hk with h' | ⟨_, h', -⟩
          · exact h'
          · simp [Node.node?, h'] at h
        have nothing : P ∪ Below n.nodes ⊆ P := by rw [hnodes]; simp [Below]
        split
        · exact .pure nothing
        · split
          · exact .pure nothing
          · next j =>
            exact .bind (sweeps_assignedStage (ahead j (Nat.lt_succ_self j))) fun _ =>
              .bind (sweeps_bind _ _) fun _ => .pure nothing

/-! ## Visits -/

/-- A construct without a staged meaning is told by its kind, but for `await foreach`. -/
theorem construct?_of_kind (h : isSupported n.kind && n.kind != .forEachStatement) :
    construct? n = none := by
  simp only [Bool.and_eq_true, bne_iff_ne] at h
  simp [construct?, h.1, h.2]

theorem sweeps_compute (hu : Distinct root) (hr : n ∈ root.preorder) (hW : ∀ m ∈ n.preorder, m ∈ W)
    (here : Rule n.kind n.outline)
    (ih : ∀ m ∈ n.preorder, m.size < n.size → ∀ (cx : Context) (P : Set Node),
      Sweeps root W P (P ∪ Below [m]) (visit root store env jumps cx m))
    (ahead : ∀ j < jumps, ∀ m, Ahead root m → ∀ (cx : Context) (P : Set Node),
      Sweeps root W P (P ∪ Below [m]) (visit root store env j cx m)) (P : Set Node) :
    Sweeps root W P (P ∪ Below [n]) (compute root store env jumps cx n) := by
  have hn := hW n n.mem_preorder_self
  have child {m : Node} (hm : m ∈ n.nodes) : m ∈ n.preorder :=
    Node.mem_preorder_of_mem_nodes n.mem_preorder_self hm
  have parts (m : Node) (hm : m ∈ n.nodes) (cx : Context) :=
    ih m (child hm) (Node.size_lt_of_mem hm) cx
  have clauses (clause : Node) (hc : clause ∈ n.nodes) (m : Node) (hm : m ∈ clause.nodes)
      (cx : Context) :=
    ih m (Node.mem_preorder_of_mem_nodes (child hc) hm)
      (Nat.lt_trans (Node.size_lt_of_mem hm) (Node.size_lt_of_mem hc)) cx
  have inside (m : Node) (hm : m ∈ n.nodes) : m ∈ W := hW m (child hm)
  have all := sweeps_visitAll parts cx P
  have leaf (hl : n.kind.isLeaf) {act : Classifier Stage} (h : Sweeps root W P P act) :
      Sweeps root W P (P ∪ Below n.nodes) act := by
    rw [here.nodes_leaf hl]
    exact h.ends (by simp [Below])
  have plain {act : Classifier Stage} (hk : isSupported n.kind && n.kind != .forEachStatement)
      (h : Sweeps root W P (P ∪ Below n.nodes) act) : Sweeps root W P (P ∪ Below [n]) act :=
    h.supported (construct?_of_kind hk)
  have leaves (hk : n.kind = .breakStatement ∨ n.kind = .continueStatement) :
      Sweeps root W P (P ∪ Below n.nodes) (jump n cx) :=
    leaf (by rcases hk with hk | hk <;> rw [hk] <;> rfl) (sweeps_jump hn hk)
  have walked (s : Stage) : Sweeps root W P (P ∪ Below n.nodes)
      (do discard (visitAll root store env jumps cx n); return s) :=
    .bind (.discard all) fun _ => .pure fun _ h => h
  rw [compute]
  split
  -- most kinds visit all their parts or none, and the others have lemmas of their own
  all_goals first
    | (next h => exact plain (by rw [h]; rfl) (leaf (by rw [h]; rfl) (.pure fun _ h => h)))
    | (next h => exact plain (by rw [h]; rfl) (walked _))
    | (next h => exact plain (by rw [h]; rfl) (.bind all fun _ => .pure fun _ h => h))
    | (next h => exact plain (by rw [h]; rfl) (leaf (by rw [h]; rfl) sweeps_identifier))
    | (next h => exact plain (by rw [h]; rfl) (sweeps_memberAccess here parts h))
    | (next h => exact plain (by rw [h]; rfl) (sweeps_invocation parts))
    | (next h => exact plain (by rw [h]; rfl) (sweeps_assignment hn parts))
    | (next h => exact plain (by rw [h]; rfl) (sweeps_localDeclaration hn parts))
    | (next h => exact plain (by rw [h]; rfl) (sweeps_declarator here h parts ahead))
    | (next h => exact plain (by rw [h]; rfl) (sweeps_ifStatement parts hu hr inside clauses))
    | (next h => exact sweeps_forEachStatement hn here parts h)
    | (next h => exact plain (by rw [h]; rfl) (leaves (by simp [h])))
    | (next h => exact sweeps_unsupported hn parts (by simp [construct?, h, isSupported]))

section

variable (hu : Distinct root) (hr : n ∈ root.preorder) (hW : ∀ m ∈ n.preorder, m ∈ W)
  (computed : ∀ P : Set Node,
    Sweeps root W P (P ∪ Below [n]) (compute root store env jumps cx n))

include hu hr hW computed

theorem sweeps_settle (P : Set Node) :
    Sweeps root W P (P ∪ Below [n]) (settle root store env jumps cx n) := by
  have assigned (s : Stage) : Sweeps root W (P ∪ Below [n]) (P ∪ Below [n]) (assign n.id s) :=
    sweeps_assign hu hr (hW n n.mem_preorder_self) (fun _ => .inr) s
  rw [settle]
  refine .bind (computed P) fun s => ?_
  split
  · exact .bind (sweeps_splice _) fun _ => .bind (assigned _) fun _ => .pure fun _ h => h
  · exact .bind (assigned s) fun _ => .pure fun _ h => h

/-- A node that is refused is forced without being entered: all that stands below it stands below a
refused node. -/
theorem sweeps_compel (he : n.kind.isExpression) (reason : String) (P : Set Node) :
    Sweeps root W P (P ∪ Below [n]) (compel root store env jumps cx n reason) := by
  have hn := hW n n.mem_preorder_self
  rw [compel]
  refine .bind sweeps_violation fun why => ?_
  dsimp only
  split
  · refine .bind (sweeps_report (S := Below [n]) hn (.refusal he) ?_) fun _ => ?_
    · intro st refused x hx _
      exact .inr ⟨n, hr, refused, mem_below_singleton.1 hx⟩
    · exact .bind (sweeps_forceSubtree hu hr hW fun _ => .inr) fun _ => .pure fun _ h => h
  · refine .bind (.discard (computed P)) fun _ => .bind (sweeps_unsplice _) fun _ => ?_
    exact .bind (sweeps_assign hu hr hn (fun _ => .inr) _) fun _ => .pure fun _ h => h

/-- What a node is remembered with was told when it got its stage. -/
theorem sweeps_remembered (hm : n.stage? = none) (P : Set Node) :
    Sweeps root W P (P ∪ Below [n]) (visit root store env jumps cx n) := by
  have forced {reason : String}
      (h : (if n.kind.isExpression && cx.forced.isSome then cx.forced else none) = some reason) :
      Sweeps root W P (P ∪ Below [n]) (compel root store env jumps cx n reason) := by
    have he : n.kind.isExpression := by
      by_contra hk
      simp [hk] at h
    exact sweeps_compel hu hr hW computed he _ P
  have free := sweeps_settle hu hr hW computed P
  intro st a st' h
  rw [visit] at h
  simp only [hm, StateT.run_bind, StateT.run_get, pure_bind] at h
  split at h
  · next s hs =>
    split at h
    · cases h
      refine ⟨.refl, fun swept told => ⟨swept, ?_⟩⟩
      rintro x (hx | hx)
      · exact told x hx
      · exact swept n hr (by rw [State.Knows, hs]; rfl) x (mem_below_singleton.1 hx)
    · split at h
      · next reason => exact forced reason st a st' h
      · exact free st a st' h
  · split at h
    · next reason => exact forced reason st a st' h
    · exact free st a st' h

end

end

/-- Where a visit of a node makes changes: below it, and below what is looked at ahead of time. -/
def Within (root n : Node) : Set Node :=
  {m | m ∈ n.preorder ∨ ∃ e, Ahead root e ∧ m ∈ e.preorder}

theorem Ahead.mem {e : Node} (h : Ahead root e) : e ∈ root.preorder := by
  obtain ⟨n, hn, ⟨-, he⟩ | ⟨-, he⟩⟩ := h <;>
    exact Node.mem_preorder_of_mem_nodes hn (Node.mem_of_node? he)

theorem mem_preorder_of_within {n m : Node} (hn : n ∈ root.preorder) (h : m ∈ Within root n) :
    m ∈ root.preorder := by
  rcases h with hm | ⟨e, he, hm⟩
  · exact Node.preorder_trans hn hm
  · exact Node.preorder_trans he.mem hm

theorem within_subset {n m : Node} (h : m ∈ n.preorder) : Within root m ⊆ Within root n := by
  rintro x (hx | hx)
  · exact .inl (Node.preorder_trans h hx)
  · exact .inr hx

theorem within_subset_of_ahead {n e : Node} (he : Ahead root e) :
    Within root e ⊆ Within root n := by
  rintro x (hx | hx)
  · exact .inr ⟨e, he, hx⟩
  · exact .inr hx

/-- A visit is a sequence of steps and sweeps all that stands below its node. -/
theorem sweeps_visit {root : Node} {store : FactStore} {env : Environment} (hu : Distinct root)
    (hrules : ∀ m ∈ root.preorder, m.stage? = none ∧ Rule m.kind m.outline) (jumps : Nat)
    (cx : Context) (n : Node) (hn : n ∈ root.preorder) (P : Set Node) :
    Sweeps root (Within root n) P (P ∪ Below [n]) (visit root store env jumps cx n) := by
  have ih : ∀ m ∈ n.preorder, m.size < n.size → ∀ (cx : Context) (P : Set Node),
      Sweeps root (Within root n) P (P ∪ Below [m]) (visit root store env jumps cx m) :=
    fun m hm hsize cx P =>
      (sweeps_visit hu hrules jumps cx m (Node.preorder_trans hn hm) P).weaken (within_subset hm)
        (fun _ h => h) fun _ h => h
  have ahead : ∀ j < jumps, ∀ m, Ahead root m → ∀ (cx : Context) (P : Set Node),
      Sweeps root (Within root n) P (P ∪ Below [m]) (visit root store env j cx m) :=
    fun j hj m hm cx P => (sweeps_visit hu hrules j cx m hm.mem P).weaken
      (within_subset_of_ahead hm) (fun _ h => h) fun _ h => h
  have inside : ∀ m ∈ n.preorder, m ∈ Within root n := fun m hm => .inl hm
  exact sweeps_remembered hu hn inside
    (sweeps_compute hu hn inside (hrules n hn).2 ih ahead) (hrules n hn).1 P
termination_by (jumps, n.size)

end Stencil.Staging
