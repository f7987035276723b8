import Mathlib.Data.List.Nodup
import Stencil.Proofs.Staging.Coverage

/-!
# Texts that compile

A text is accepted when compiling it reports nothing. Every stage then did its work, and the tree
that is quoted is the tree that was read: the same kinds and tokens throughout, with a number, a key
and a stage on every node.

Results:

* `Accepted.of_compile` – what the stages of an accepted text came to;
* `Accepted.isExpression_of_splice` – splices are expressions;
* `Accepted.staged` – the nodes of the classified tree follow the grammar, use no reserved name,
  and have a staged meaning and a stage that their kinds may have.
-/
namespace Stencil

/-- What a text comes to in a session of its own, and the facts that were learned. -/
def prepared (env : Environment) (text : String) : Except Defect (Prepared × FactStore) :=
  match Source.parseUnit text with
  | .error e => .ok (.malformed e, .empty)
  | .ok n =>
    match Reserved.check (n.number 0).1 with
    | [] => do
      let (annotated, store) ← FactStore.empty.learn env (n.number 0).1
      return (.ready annotated, store)
    | ds => .ok (.invalid ds, .empty)

/-- Compiling a text in a session of its own. -/
theorem compile_eq (env : Environment) (text : String) :
    compile env text = (prepared env text >>= fun r =>
      match r.1 with
      | .ready n => Session.generators r.2 env n
      | p => pure ⟨[], p.diagnostics⟩) := by
  unfold compile Session.compile Session.prepare Session.tree Session.start prepared
  simp only [StateT.run_bind, StateT.run_get, pure_bind]
  cases Source.parseUnit text with
  | error e => rfl
  | ok n =>
    simp only [StateT.run_bind, StateT.run_set, pure_bind, StateT.run_pure]
    unfold Session.prepareTree
    simp only [StateT.run_bind, StateT.run_get, pure_bind, Bool.false_eq_true, if_false]
    cases Reserved.check (n.number 0).1 with
    | cons d ds => rfl
    | nil =>
      cases FactStore.empty.learn env (n.number 0).1 with
      | error e => rfl
      | ok r =>
        change ((Session.generators r.2 env r.1 >>= fun c => pure (c, _)) >>= fun x => pure x.1) =
          Session.generators r.2 env r.1
        simp

/-- Classifying a text in a session of its own. -/
theorem classification_eq (env : Environment) (text : String) :
    (Session.classification.run (.start text env)).map (fun r => (r.1, r.2.store)) =
      (prepared env text >>= fun r =>
        match r.1 with
        | .ready n => do return (some (← classify r.2 env n), r.2)
        | _ => pure (none, r.2)) := by
  unfold Session.classification Session.prepare Session.tree Session.start prepared
  simp only [StateT.run_bind, StateT.run_get, pure_bind]
  cases Source.parseUnit text with
  | error e => rfl
  | ok n =>
    simp only [StateT.run_bind, StateT.run_set, pure_bind, StateT.run_pure]
    unfold Session.prepareTree
    simp only [StateT.run_bind, StateT.run_get, pure_bind, Bool.false_eq_true, if_false]
    cases Reserved.check (n.number 0).1 with
    | cons d ds => rfl
    | nil =>
      cases FactStore.empty.learn env (n.number 0).1 with
      | error e => rfl
      | ok r =>
        change ((classify r.2 env r.1 >>= fun c => pure (c, _)) >>= fun x =>
          pure (some x.1, x.2)).map _ = (classify r.2 env r.1 >>= fun c => pure (some c, r.2))
        cases classify r.2 env r.1 <;> rfl

/-! ## Accepted texts -/

/-- No stage of the text reports anything, and `store` and `c` are what it comes to. -/
structure Accepted (env : Environment) (text : String) (store : FactStore) (c : Classification) :
    Prop where
  silent : c.diagnostics = []
  stages : ∃ read annotated : Node, Source.parseUnit text = .ok read ∧
    Reserved.check (read.number 0).1 = [] ∧
    FactStore.empty.learn env (read.number 0).1 = .ok (annotated, store) ∧
    classify store env annotated = .ok c

variable {env : Environment} {text : String}

/-- A text that compiles without a report is accepted, and its templates were quoted. -/
theorem exists_accepted {g : Compilation} (hg : compile env text = .ok g)
    (hd : g.diagnostics = []) :
    ∃ store c, Accepted env text store c ∧ g = quoteTemplates store c.tree := by
  rw [compile_eq] at hg
  unfold prepared at hg
  cases hread : Source.parseUnit text with
  | error e =>
    rw [hread] at hg
    cases hg
    cases hd
  | ok read =>
    simp only [hread] at hg
    cases hcheck : Reserved.check (read.number 0).1 with
    | cons d ds =>
      rw [hcheck] at hg
      cases hg
      cases hd
    | nil =>
      simp only [hcheck] at hg
      cases hlearn : FactStore.empty.learn env (read.number 0).1 with
      | error e => rw [hlearn] at hg; cases hg
      | ok r =>
        obtain ⟨annotated, store⟩ := r
        simp only [hlearn] at hg
        cases hstage : classify store env annotated with
        | error e =>
          simp only [bind, Except.bind, pure, Except.pure, Session.generators, hstage] at hg
          cases hg
        | ok c =>
          simp only [bind, Except.bind, pure, Except.pure, Session.generators, hstage] at hg
          split at hg
          · next silent =>
            refine ⟨store, c,
              ⟨List.isEmpty_iff.1 silent, read, annotated, hread, hcheck, hlearn, hstage⟩, ?_⟩
            split at hg
            · cases hg
              rfl
            · next loud =>
              cases hg
              exact absurd (List.isEmpty_iff.2 hd) loud
          · next loud =>
            cases hg
            exact absurd (List.isEmpty_iff.2 hd) loud

/-- What a text is accepted with is what its session knows. -/
theorem Accepted.of_compile {g : Compilation} {c : Classification} {s : Session}
    (hg : compile env text = .ok g) (hd : g.diagnostics = [])
    (hc : Session.classification.run (.start text env) = .ok (some c, s)) :
    Accepted env text s.store c ∧ g = quoteTemplates s.store c.tree := by
  obtain ⟨store, c', accepted, rfl⟩ := exists_accepted hg hd
  obtain ⟨read, annotated, hread, hcheck, hlearn, hstage⟩ := accepted.stages
  have classified := classification_eq env text
  simp only [hc, prepared, hread, hcheck, hlearn, bind, Except.bind, pure, Except.pure, hstage,
    Except.map, Except.ok.injEq, Prod.mk.injEq, Option.some.injEq] at classified
  obtain ⟨rfl, rfl⟩ := classified
  exact ⟨accepted, rfl⟩

/-! ## Their trees -/

/-- The node follows the grammar and uses no reserved name. -/
def Lawful (n : Node) : Prop :=
  Rule n.kind n.outline ∧ ∀ t ∈ n.tokens, t.kind = .identifier → ¬ Reserved.isReserved t.text

theorem Lawful.of_outline {n n' : Node} (h : Lawful n) (hk : n'.kind = n.kind)
    (ho : n'.outline = n.outline) : Lawful n' := by
  refine ⟨hk ▸ ho ▸ h.1, ?_⟩
  rw [Node.tokens_outline, ho, ← Node.tokens_outline]
  exact h.2

theorem not_reserved_of_check {n m : Node} (h : Reserved.check n = []) (hm : m ∈ n.preorder)
    {t : Token} (ht : t ∈ m.tokens) (hk : t.kind = .identifier) : ¬ Reserved.isReserved t.text := by
  intro reserved
  have found : t ∈ Reserved.found n :=
    List.mem_flatMap.2 ⟨m, hm, List.mem_filter.2 ⟨ht, by simp [hk, reserved]⟩⟩
  rw [List.map_eq_nil_iff.1 h] at found
  cases found

theorem annotated_of_learn {n annotated : Node} {s store : FactStore}
    (h : s.learn env n = .ok (annotated, store)) :
    ∃ resolve, annotated = (s.annotate resolve n).1 := by
  obtain ⟨findings, -, h⟩ := FactStore.exists_of_learn h
  exact ⟨(findings.of ·.id), (congrArg Prod.fst h).symm⟩

/-- The nodes of a text that was read are numbered apart, lawful and unmarked by a stage. -/
theorem lawful_of_learn {read annotated : Node} {store : FactStore}
    (hread : Source.parseUnit text = .ok read) (hcheck : Reserved.check (read.number 0).1 = [])
    (hlearn : FactStore.empty.learn env (read.number 0).1 = .ok (annotated, store)) :
    Staging.Distinct annotated ∧ ∀ m ∈ annotated.preorder, m.stage? = none ∧ Lawful m := by
  obtain ⟨hrules, -⟩ := Source.isRead_parseUnit hread
  have numbered : ∀ m ∈ (read.number 0).1.preorder, m.stage? = none ∧ Lawful m := by
    intro m hm
    obtain ⟨r, hr, hk, ho, hmarks⟩ := (recast_number 0 read).source hm
    obtain ⟨bare, rule, -⟩ := hrules r hr
    refine ⟨by simp [Node.stage?, hmarks, bare], ?_, fun t => not_reserved_of_check hcheck hm⟩
    rw [hk, ho]
    exact rule
  obtain ⟨resolve, rfl⟩ := annotated_of_learn hlearn
  have recast := recast_annotate resolve .empty (read.number 0).1
  refine ⟨?_, fun m hm => ?_⟩
  · have nodup := (nodup_number 0 read).2.1
    rw [← recast.ids fun _ _ h => h.1] at nodup
    exact fun m hm m' hm' => List.inj_on_of_nodup_map nodup hm hm'
  · obtain ⟨r, hr, hk, ho, -, hstage, -⟩ := recast.source hm
    obtain ⟨unstaged, lawful⟩ := numbered r hr
    exact ⟨hstage.trans unstaged, lawful.of_outline hk ho⟩

/-- The nodes of an accepted tree are those that were read: the same kinds and tokens. -/
theorem Accepted.source {store : FactStore} {c : Classification} (h : Accepted env text store c)
    {m : Node} (hm : m ∈ c.tree.preorder) :
    ∃ read, Source.parseUnit text = .ok read ∧
      ∃ r ∈ read.preorder, m.kind = r.kind ∧ m.outline = r.outline := by
  obtain ⟨read, annotated, hread, hcheck, hlearn, hstage⟩ := h.stages
  obtain ⟨-, nodes⟩ := lawful_of_learn hread hcheck hlearn
  obtain ⟨st, -, htree⟩ := Staging.runs_of_classify
    (fun m hm => ⟨(nodes m hm).1, (nodes m hm).2.1⟩) hstage h.silent
  rw [htree] at hm
  obtain ⟨a, ha, hk, ho, -⟩ := (recast_stamp st .either annotated).source hm
  obtain ⟨resolve, rfl⟩ := annotated_of_learn hlearn
  obtain ⟨b, hb, hk', ho', -⟩ := (recast_annotate resolve .empty _).source ha
  obtain ⟨r, hr, hk'', ho'', -⟩ := (recast_number 0 read).source hb
  exact ⟨read, hread, r, hr, hk.trans (hk'.trans hk''), ho.trans (ho'.trans ho'')⟩

/-- The nodes of an accepted tree are lawful and have a staged meaning, and a stage that their kinds
may have. -/
theorem Accepted.staged {store : FactStore} {c : Classification} (h : Accepted env text store c)
    {m : Node} (hm : m ∈ c.tree.preorder) : Lawful m ∧ Staging.isSupported m.kind ∧
      ∃ s, m.stage? = some s ∧ Staging.allows m.kind s := by
  obtain ⟨read, annotated, hread, hcheck, hlearn, hstage⟩ := h.stages
  obtain ⟨distinct, nodes⟩ := lawful_of_learn hread hcheck hlearn
  have unstaged : ∀ m ∈ annotated.preorder, m.stage? = none ∧ Rule m.kind m.outline :=
    fun m hm => ⟨(nodes m hm).1, (nodes m hm).2.1⟩
  obtain ⟨st, -, htree, decided⟩ := Staging.decided_of_classify distinct unstaged hstage h.silent
  rw [htree] at hm
  obtain ⟨a, ha, hk, ho, -, -, stamped⟩ := (recast_stamp st .either annotated).source hm
  obtain ⟨supported, s, known, allowed⟩ := decided a ha
  rw [hk]
  exact ⟨(nodes a ha).2.of_outline hk ho, supported, s, stamped s known, allowed⟩

/-- The nodes of an accepted tree are lawful and have a staged meaning. -/
theorem Accepted.lawful {store : FactStore} {c : Classification} (h : Accepted env text store c)
    {m : Node} (hm : m ∈ c.tree.preorder) : Lawful m ∧ Staging.isSupported m.kind :=
  ⟨(h.staged hm).1, (h.staged hm).2.1⟩

/-- Annotating a text that was read makes no splices. -/
theorem unspliced_of_learn {read annotated : Node} {store : FactStore}
    (hread : Source.parseUnit text = .ok read)
    (hlearn : FactStore.empty.learn env (read.number 0).1 = .ok (annotated, store)) {m : Node}
    (hm : m ∈ annotated.preorder) : m.hasMark .splice = false := by
  obtain ⟨resolve, rfl⟩ := annotated_of_learn hlearn
  obtain ⟨b, hb, -, -, -, -, hsplice⟩ := (recast_annotate resolve .empty _).source hm
  obtain ⟨r, hr, -, -, hmarks⟩ := (recast_number 0 read).source hb
  obtain ⟨bare, -⟩ := (Source.isRead_parseUnit hread).1 r hr
  rw [hsplice, Node.hasMark, hmarks, bare]
  rfl

/-- The splices of an accepted tree are expressions. -/
theorem Accepted.isExpression_of_splice {store : FactStore} {c : Classification}
    (h : Accepted env text store c) {m : Node} (hm : m ∈ c.tree.preorder)
    (hs : m.hasMark .splice) : m.kind.isExpression := by
  obtain ⟨read, annotated, hread, hcheck, hlearn, hstage⟩ := h.stages
  obtain ⟨distinct, nodes⟩ := lawful_of_learn hread hcheck hlearn
  obtain ⟨st, runs, htree⟩ := Staging.runs_of_classify
    (fun m hm => ⟨(nodes m hm).1, (nodes m hm).2.1⟩) hstage h.silent
  rw [htree] at hm
  obtain ⟨a, ha, hk, -, -, hsplice, -⟩ := (recast_stamp st .either annotated).source hm
  have expressions := runs.splicesExpressions distinct
    (by simpa [Staging.Task.nodes] using annotated.mem_preorder_self)
    fun m _ h => by simp [Staging.State.initial] at h
  rw [hk]
  refine (hsplice hs).elim (fun marked => ?_) (expressions a ha)
  rw [unspliced_of_learn hread hlearn ha] at marked
  cases marked

/-- An accepted tree is a list of templates. -/
theorem Accepted.templates {store : FactStore} {c : Classification}
    (h : Accepted env text store c) :
    c.tree.kind = .compilationUnit ∧ ∀ t ∈ c.tree.nodes, t.kind = .template := by
  obtain ⟨rule, -⟩ := (h.lawful c.tree.mem_preorder_self).1
  have hkind : c.tree.kind = .compilationUnit := by
    obtain ⟨read, annotated, hread, hcheck, hlearn, hstage⟩ := h.stages
    obtain ⟨-, nodes⟩ := lawful_of_learn hread hcheck hlearn
    obtain ⟨resolve, rfl⟩ := annotated_of_learn hlearn
    obtain ⟨st, -, htree⟩ := Staging.runs_of_classify
      (fun m hm => ⟨(nodes m hm).1, (nodes m hm).2.1⟩) hstage h.silent
    rw [htree, (recast_stamp st .either _).kind, (recast_annotate resolve .empty _).kind,
      (recast_number 0 read).kind]
    exact (Source.isRead_parseUnit hread).2
  exact ⟨hkind, rule.nodes_compilationUnit hkind⟩

/-- What holds of all templates of an accepted text and their generators. -/
theorem Accepted.forall₂_generators {store : FactStore} {c : Classification}
    (h : Accepted env text store c) {R : Generator → Node → Prop}
    (hR : ∀ t ∈ c.tree.nodes, t.kind = .template → R (Quotation.quoteTemplate store t).1 t) :
    List.Forall₂ R (quoteTemplates store c.tree).generators c.tree.nodes := by
  obtain ⟨hunit, templates⟩ := h.templates
  have all : c.tree.nodes.filter (·.kind == .template) = c.tree.nodes :=
    List.filter_eq_self.2 fun t ht => by simp [templates t ht]
  have generators : (quoteTemplates store c.tree).generators =
      c.tree.nodes.map fun t => (Quotation.quoteTemplate store t).1 := by
    simp [quoteTemplates, hunit, all]
  rw [generators, List.forall₂_map_left_iff, List.forall₂_same]
  exact fun t ht => hR t ht (templates t ht)

end Stencil
