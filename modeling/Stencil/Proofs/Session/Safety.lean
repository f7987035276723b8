import Stencil.Proofs.Expansion.Restoring
import Stencil.Proofs.Quotation.Outcomes
import Stencil.Proofs.Session.Enclosed
import Stencil.Proofs.Session.Evaluating

/-!
# What the generators of accepted texts do not stop for

The quoter puts statements of a template into blocks and closures of its own, and declares
accumulators and holders for itself. Three things could go wrong with that: a jump may end up in
another body than its loop, a variable of the quoter may be read where it is not declared, and a
variable of the template may hide what the inserted calls go through. Nothing that is reported keeps
a template from any of the three, but each takes one kind of code, and templates without that code
are safe from it.

Results:

* `no_stray_jumps` – jumps stay in the bodies of their loops, if none leaves a block in a block;
* `own_variables_declared` – the quoter's variables are declared where they are read, if no branch
  of the generator's control flow is a declaration;
* `program_globals_reached` – the inserted calls reach what they name, if no variable of the
  template is named so.
-/
namespace Stencil

open Expansion Quotation

variable {env : Environment} {text : String}

/-! ## Careful templates -/

section

variable {store : FactStore} {c : Classification} (h : Accepted env text store c)

include h

/-- No name in an accepted tree is reserved. -/
theorem Accepted.not_reserved {n : Node} (hn : n ∈ c.tree.preorder) :
    ¬Reserved.isReserved n.nameOrEmpty := by
  unfold Node.nameOrEmpty Node.name? Node.tokenOfKind?
  cases ht : n.tokens.find? (·.kind == .identifier) with
  | none => decide
  | some t =>
    have hk := List.find?_some ht
    exact (h.lawful hn).1.2 t (List.mem_of_find?_eq_some ht) (by simpa using hk)

/-- Templates of accepted texts are careful if they stand up to what is particular to a concern. -/
theorem Accepted.careful {t : Node} (ht : t ∈ c.tree.nodes) {k : Concern}
    (watched : ∀ s, k.watched s → Reserved.isReserved s)
    (allowed : ∀ s, Reserved.isReserved s → k.allowed s)
    (binders : ∀ n ∈ t.preorder, n.kind = .declarator ∨ n.kind = .forEachStatement →
      k.allowed n.nameOrEmpty)
    (jumps : k.jumps = true → JumpsStay t) (locals : ∀ s, k.watched s → LocalsStay store t) :
    Careful k store t := by
  have htt := Node.mem_preorder_of_mem_nodes c.tree.mem_preorder_self ht
  have inside {n : Node} (hn : n ∈ t.preorder) := Node.preorder_trans htt hn
  refine ⟨fun n hn => (h.lawful (inside hn)).1.1, h.laid htt, fun n hn => (h.lawful (inside hn)).2,
    fun n hn => h.isExpression_of_splice (inside hn), h.numbered.below htt, fun n hn hk hs => ?_,
    fun s hs hw => ?_, fun n hn hw => h.not_reserved (inside hn) (watched _ hw), binders,
    fun i => allowed _ (isReserved_accumulatorName i),
    fun hint i => allowed _ (isReserved_holderName hint i), jumps, locals⟩
  · obtain ⟨-, -, s, known, permitted⟩ := h.staged (inside hn)
    cases known.symm.trans hs
    rw [hk] at permitted
    cases permitted
  · have reserved := watched s hw
    simp [not_isReserved_of_mem_programGlobals hs] at reserved

end

/-- What an expansion stops for is not guarded against. -/
theorem Quotation.Secure.tolerates {k : Concern} {program : Node} (h : Secure k program)
    {target : Target} {arguments : List (String × Datum)} {f : Fault}
    (hf : expand target arguments program = .error (.fault f)) : k.Tolerates f := by
  have ends := h.endsWell target arguments (budgetFor program)
  rw [expand_eq] at hf
  cases hrun : expansion target arguments (budgetFor program) program with
  | ok n m => rw [hrun] at hf; cases hf
  | error e m =>
    rw [hrun] at hf ends
    exact ends.1 f (Except.error.inj hf)

variable {g : Compilation} {cl : Classification} {s : Session}

/-! ## What is asked of templates -/

/-- No jump leaves a block in a block on its way to a loop of generation time. -/
def StaysInBlocks (tree t : Node) : Prop :=
  ∀ j ∈ t.preorder, j.IsJump → ∀ steps ∈ tree.above j.id, ¬LeavesBlock steps

/-- No branch of generation-time control flow is the declaration of a generated local. -/
def BracesLocals (t : Node) : Prop :=
  ∀ n ∈ t.preorder, n.kind = .ifStatement → n.stage? = some .generationTime →
    ∀ m ∈ branchesOf n, m.kind = .localDeclaration → m.stage? = some .generationTime

/-- No parameter, local or loop variable is named like a global of generators. -/
def LeavesGlobals (t : Node) : Prop :=
  ∀ n ∈ t.preorder, n.kind ∈ [NodeKind.parameter, .declarator, .forEachStatement] →
    n.nameOrEmpty ∉ programGlobals

instance (tree t : Node) : Decidable (StaysInBlocks tree t) := by
  unfold StaysInBlocks
  infer_instance

instance (t : Node) : Decidable (BracesLocals t) := by
  unfold BracesLocals
  infer_instance

instance (t : Node) : Decidable (LeavesGlobals t) := by
  unfold LeavesGlobals
  infer_instance

/-- A template with jumps out of loops of both stages, and with variables in branches, in loops and
for the rest. -/
def sheltered : String :=
  "template Sheltered(int n) \x7b foreach (var p in meta.Target.Parameters) \x7b " ++
  "if (p.Index == 1) \x7b break; \x7d if (p.Index == 0) continue; " ++
  "foreach (var q in this.Items) \x7b \x7b if (this.G) break; \x7d " ++
  "var x = this.F; this.H(q, x); \x7d \x7d if (n > 0) \x7b var y = this.F; this.G(y); \x7d " ++
  "var k = n + 1; var z = this.F; return z + k; \x7d"

/-- The template is all that is asked for. -/
theorem exists_sheltered : ∃ g cl s, compile .standard sheltered = .ok g ∧ g.diagnostics = [] ∧
    Session.classification.run (.start sheltered .standard) = .ok (some cl, s) ∧
    g.generators.length = 1 ∧
    ∀ t ∈ cl.tree.nodes, StaysInBlocks cl.tree t ∧ BracesLocals t ∧ LeavesGlobals t := by
  have characters : sheltered.toList = _ :=
    toList_append (toList_append (toList_append (toList_append String.toList_ofList
      String.toList_ofList) String.toList_ofList) String.toList_ofList) String.toList_ofList
  obtain ⟨-, g, cl, s, -, hg, hd, hs, checked⟩ := exists_of_accepts
    (p := fun _ g c _ => g.generators.length == 1 && c.tree.nodes.all fun t =>
      StaysInBlocks c.tree t ∧ BracesLocals t ∧ LeavesGlobals t)
    Environment.standard_eq characters (by decide +kernel)
  simp only [Bool.and_eq_true, beq_iff_eq, List.all_eq_true, decide_eq_true_eq] at checked
  exact ⟨g, cl, s, hg, hd, hs, checked⟩

/-- Whether one of the generators of a text stops for that fault. -/
def stopsFor (f : Fault) (target : Target) (arguments : List (String × Datum)) (g : Compilation) :
    Bool :=
  g.generators.any fun gen => match expand target arguments gen.program with
    | .error e => e == .fault f
    | .ok _ => false

theorem exists_stop {f : Fault} {target : Target} {arguments : List (String × Datum)}
    {cs : List Char} (ht : text.toList = cs)
    (h : accepts .listed (Source.parseCharacters cs) fun _ g _ _ =>
      stopsFor f target arguments g) :
    ∃ g gen, compile .standard text = .ok g ∧ g.diagnostics = [] ∧ gen ∈ g.generators ∧
      expand target arguments gen.program = .error (.fault f) := by
  obtain ⟨-, g, -, -, -, hg, hd, -, checked⟩ := exists_of_accepts Environment.standard_eq ht h
  obtain ⟨gen, hgen, stops⟩ := List.any_eq_true.1 checked
  refine ⟨g, gen, hg, hd, hgen, ?_⟩
  split at stops
  · next e he => rw [he, beq_iff_eq.1 stops]
  · cases stops

/-- A template whose jump leaves a block in a block. -/
def bracing : String :=
  "template T() \x7b foreach (var p in meta.Target.Parameters) \x7b \x7b break; \x7d \x7d \x7d"

def bracingTarget : Target := ⟨"Target", .void, [⟨"p", .int⟩]⟩

/-- A template that declares a local in a branch without braces and goes on with it. -/
def unbraced : String :=
  "template T(int n) \x7b if (n > 0) var x = this.F; Console.WriteLine(x); \x7d"

/-- A template with a parameter that is named like a global of generators. -/
def capturing : String := "template T(int Syntax) \x7b return Syntax; \x7d"

/-- Each of the templates goes wrong. -/
theorem exists_stops :
    (∃ g gen, compile .standard bracing = .ok g ∧ g.diagnostics = [] ∧ gen ∈ g.generators ∧
      expand bracingTarget [] gen.program = .error (.fault (.strayJump "break"))) ∧
    (∃ g gen, compile .standard unbraced = .ok g ∧ g.diagnostics = [] ∧ gen ∈ g.generators ∧
      expand ⟨"Target", .void, []⟩ [("n", .int 1)] gen.program =
        .error (.fault (.undefined (holderName "x" 0)))) ∧
    ∃ g gen, compile .standard capturing = .ok g ∧ g.diagnostics = [] ∧ gen ∈ g.generators ∧
      expand ⟨"Target", .int, []⟩ [("Syntax", .int 1)] gen.program =
        .error (.fault (.noMember "int" "StatementList")) := by
  refine (fun checked : _ ∧ _ ∧ _ =>
    ⟨exists_stop (show bracing.toList = _ from String.toList_ofList) checked.1,
      exists_stop (show unbraced.toList = _ from String.toList_ofList) checked.2.1,
      exists_stop (show capturing.toList = _ from String.toList_ofList) checked.2.2⟩) ?_
  decide +kernel

/-! ## Jumps -/

/-- Jumps are to stay in the bodies they are run in. -/
def straying : Concern := ⟨true, fun _ => False, fun _ => True⟩

/-- In a text that compiles without a report, every `break` and `continue` that a generator keeps
stands in a loop that the generator keeps, with no closure in between, and no expansion stops for a
stray jump; unless the template has a jump that leaves a block in a block on its way to a loop of
generation time. -/
theorem no_stray_jumps (hg : compile env text = .ok g) (hd : g.diagnostics = [])
    (hs : Session.classification.run (.start text env) = .ok (some cl, s)) :
    List.Forall₂ (fun gen t =>
        StaysInBlocks cl.tree t →
        (∃ body, gen.program.nodeOfKind? .block = some body ∧ Guarded straying false [] body) ∧
        ∀ (target : Target) (arguments : List (String × Datum)) (jump : String),
          expand target arguments gen.program ≠ .error (.fault (.strayJump jump)))
      g.generators cl.tree.nodes := by
  obtain ⟨accepted, rfl⟩ := Accepted.of_compile hg hd hs
  refine accepted.forall₂_generators fun t ht hk direct => ?_
  have careful : Careful straying s.store t := accepted.careful ht (fun _ h => h.elim)
    (fun _ _ => trivial) (fun _ _ _ => trivial) (fun _ => accepted.jumpsStay ht direct)
    fun _ h => h.elim
  have secure := careful.secure hk fun _ _ _ => trivial
  refine ⟨secure.guarded, fun target arguments jump stray => ?_⟩
  cases secure.tolerates stray

theorem no_stray_jumps_sheltered : ∃ g cl s gen t, compile .standard sheltered = .ok g ∧
    g.diagnostics = [] ∧
    Session.classification.run (.start sheltered .standard) = .ok (some cl, s) ∧
    g.generators = [gen] ∧ cl.tree.nodes = [t] ∧ StaysInBlocks cl.tree t ∧
    (∃ body, gen.program.nodeOfKind? .block = some body ∧ Guarded straying false [] body) ∧
    ∀ (target : Target) (arguments : List (String × Datum)) (jump : String),
      expand target arguments gen.program ≠ .error (.fault (.strayJump jump)) := by
  obtain ⟨g, cl, s, hg, hd, hs, one, asked⟩ := exists_sheltered
  obtain ⟨gen, t, hgen, hnodes, stays⟩ := exists_of_forall₂ (no_stray_jumps hg hd hs) one
  obtain ⟨blocks, -, -⟩ := asked t (by simp [hnodes])
  exact ⟨g, cl, s, gen, t, hg, hd, hs, hgen, hnodes, blocks, stays blocks⟩

/-- The block that the quoter builds is a closure, and its jump goes astray. -/
theorem stray_jump_bracing : ∃ g gen, compile .standard bracing = .ok g ∧ g.diagnostics = [] ∧
    gen ∈ g.generators ∧
    expand bracingTarget [] gen.program = .error (.fault (.strayJump "break")) :=
  exists_stops.1

/-! ## Variables of the quoter -/

/-- The quoter's variables are not to be read before they are declared. -/
def undeclared : Concern := ⟨false, fun s => Reserved.isReserved s, fun _ => True⟩

/-- In a text that compiles without a report, every reference of a generator to an accumulator or a
holder follows its declaration in the same block or in one around it, and no expansion stops for an
undefined variable of that kind; unless a branch of the template's generation-time control flow is
the declaration of a generated local. -/
theorem own_variables_declared (hg : compile env text = .ok g)
    (hd : g.diagnostics = [])
    (hs : Session.classification.run (.start text env) = .ok (some cl, s)) :
    List.Forall₂ (fun gen t =>
        BracesLocals t →
        (∃ body, gen.program.nodeOfKind? .block = some body ∧ Guarded undeclared false [] body) ∧
        ∀ (target : Target) (arguments : List (String × Datum)) (name : String),
          Reserved.isReserved name →
          expand target arguments gen.program ≠ .error (.fault (.undefined name)))
      g.generators cl.tree.nodes := by
  obtain ⟨accepted, rfl⟩ := Accepted.of_compile hg hd hs
  refine accepted.forall₂_generators fun t ht hk braced => ?_
  have htt := Node.mem_preorder_of_mem_nodes cl.tree.mem_preorder_self ht
  have inside {n : Node} (hn : n ∈ t.preorder) := Node.preorder_trans htt hn
  have locals : LocalsStay s.store t := ⟨fun x hx hxk d hd hdk v hxv hdv p hp hpk hdp =>
    accepted.enclosed (inside hx) hxk (inside hd) hdk hxv hdv (inside hp) hpk hdp, braced⟩
  have careful : Careful undeclared s.store t := accepted.careful ht (fun _ h => h)
    (fun _ _ => trivial) (fun _ _ _ => trivial) (fun h => by cases h) fun _ _ => locals
  have secure := careful.secure hk fun _ _ _ => trivial
  exact ⟨secure.guarded, fun target arguments name own stray => secure.tolerates stray own⟩

theorem own_variables_declared_sheltered : ∃ g cl s gen t, compile .standard sheltered = .ok g ∧
    g.diagnostics = [] ∧
    Session.classification.run (.start sheltered .standard) = .ok (some cl, s) ∧
    g.generators = [gen] ∧ cl.tree.nodes = [t] ∧ BracesLocals t ∧
    (∃ body, gen.program.nodeOfKind? .block = some body ∧ Guarded undeclared false [] body) ∧
    ∀ (target : Target) (arguments : List (String × Datum)) (name : String),
      Reserved.isReserved name →
      expand target arguments gen.program ≠ .error (.fault (.undefined name)) := by
  obtain ⟨g, cl, s, hg, hd, hs, one, asked⟩ := exists_sheltered
  obtain ⟨gen, t, hgen, hnodes, declared⟩ := exists_of_forall₂ (own_variables_declared hg hd hs) one
  obtain ⟨-, braced, -⟩ := asked t (by simp [hnodes])
  exact ⟨g, cl, s, gen, t, hg, hd, hs, hgen, hnodes, braced, declared braced⟩

/-- The branch becomes a block, and the holder of the local is declared in it only. -/
theorem undefined_holder_unbraced : ∃ g gen, compile .standard unbraced = .ok g ∧
    g.diagnostics = [] ∧ gen ∈ g.generators ∧
    expand ⟨"Target", .void, []⟩ [("n", .int 1)] gen.program =
      .error (.fault (.undefined (holderName "x" 0))) :=
  exists_stops.2.1

/-! ## Globals of the quoter -/

theorem Quotation.EndsWell.named {k : Concern} {α : Type} {r : EStateM.Result Stop Machine α}
    (h : EndsWell k r) : WellNamed k (machineAfter r) := by
  cases r with
  | ok => exact h
  | error => exact h.2

/-- Variables are not to have names that the inserted calls go through. -/
def capture : Concern := ⟨false, fun _ => False, fun s => s ∉ programGlobals⟩

/-- Guarded code declares only variables with names that they may have. -/
theorem Expansion.Guarded.binders {k : Concern} {inside : Bool} {known : List String} {n : Node}
    (h : Guarded k inside known n) : ∀ m ∈ n.preorder,
      m.kind = .declarator ∨ m.kind = .forEachStatement → k.allowed m.nameOrEmpty := by
  induction h with
  | plain _ _ _ _ _ binder _ ih =>
    intro m hm hk
    rcases Node.mem_preorder.1 hm with rfl | ⟨p, hp, hm⟩
    · exact binder hk
    · exact ih p hp m hm hk
  | @block _ _ n kind _ _ ih =>
    intro m hm hk
    rcases Node.mem_preorder.1 hm with rfl | ⟨p, hp, hm⟩
    · rw [kind] at hk
      rcases hk with hk | hk <;> cases hk
    · obtain ⟨pre, post, hsplit⟩ := List.append_of_mem hp
      exact ih pre p post hsplit m hm hk
  | called kind nodes calleeKind calleeNodes madeKind madeNodes _ _ ih =>
    intro m hm hk
    have below {p q : Node} (hp : p.nodes = [q]) (hm : m ∈ p.preorder)
        (hpk : p.kind ≠ .declarator ∧ p.kind ≠ .forEachStatement) : m ∈ q.preorder := by
      rcases Node.mem_preorder.1 hm with rfl | ⟨x, hx, hm⟩
      · exact (hk.elim hpk.1 hpk.2).elim
      · rw [hp, List.mem_singleton] at hx
        exact hx ▸ hm
    have callee := below nodes hm (by rw [kind]; decide)
    have made := below calleeNodes callee (by rw [calleeKind]; decide)
    exact ih m (below madeNodes made (by rw [madeKind]; decide)) hk

/-- In a text that compiles without a report no variable of a template has a reserved name, and no
variable of a generator, its own or one of the template, has the name of a global that the inserted
calls go through; so in the machine of an expansion, in whatever state it ends, those names mean the
globals everywhere; unless a parameter, local or loop variable of the template is named so. -/
theorem program_globals_reached (hg : compile env text = .ok g) (hd : g.diagnostics = [])
    (hs : Session.classification.run (.start text env) = .ok (some cl, s)) :
    List.Forall₂ (fun gen t =>
        LeavesGlobals t →
        (∀ n ∈ t.preorder, ¬Reserved.isReserved n.nameOrEmpty) ∧
        (∀ p ∈ gen.program.nodes, p.kind = .parameter → p.nameOrEmpty ∉ programGlobals) ∧
        (∀ n ∈ gen.program.preorder, n.kind = .declarator ∨ n.kind = .forEachStatement →
          n.nameOrEmpty ∉ programGlobals) ∧
        ∀ (target : Target) (arguments : List (String × Datum)) (budget : Nat) (scopes : Scoping),
          ∀ name ∈ programGlobals,
            (machineAfter (expansion target arguments budget gen.program)).valueOf? scopes name =
              none)
      g.generators cl.tree.nodes := by
  obtain ⟨accepted, rfl⟩ := Accepted.of_compile hg hd hs
  refine accepted.forall₂_generators fun t ht hk free => ?_
  have htt := Node.mem_preorder_of_mem_nodes cl.tree.mem_preorder_self ht
  have kept : ∀ n ∈ t.preorder, n.kind = .declarator ∨ n.kind = .forEachStatement →
      n.nameOrEmpty ∉ programGlobals :=
    fun n hn hk => free n hn (by rcases hk with hk | hk <;> simp [hk])
  have careful : Careful capture s.store t := accepted.careful ht (fun _ h => h.elim)
    (fun s hr hs => by simp [not_isReserved_of_mem_programGlobals hs] at hr) kept
    (fun h => by cases h) fun _ h => h.elim
  have secure := careful.secure hk fun p hp hpk =>
    free p (Node.mem_preorder_of_mem_nodes t.mem_preorder_self hp) (by simp [hpk])
  refine ⟨fun n hn => accepted.not_reserved (Node.preorder_trans htt hn), secure.parameters,
    fun n hn hk' => ?_, fun target arguments budget scopes name hname => ?_⟩
  · obtain ⟨body, -, guarded, program⟩ := guarded_quoteTemplate careful hk
    rw [program] at hn
    rcases Node.mem_preorder.1 hn with rfl | ⟨p, hp, hnp⟩
    · rcases hk' with hk' | hk' <;> cases hk'
    · rw [nodes_template, List.mem_append, List.mem_singleton] at hp
      rcases hp with hp | rfl
      · have hp := Node.mem_preorder_of_mem_nodes t.mem_preorder_self (List.mem_filter.1 hp).1
        exact kept n (Node.preorder_trans hp hnp) hk'
      · exact guarded.binders n hnp hk'
  · have named := EndsWell.named (secure.endsWell target arguments budget)
    by_contra found
    have binds := Machine.binds_iff.2 (Option.isSome_iff_ne_none.2 found)
    exact named.of_binds binds hname

theorem program_globals_reached_sheltered : ∃ g cl s gen t, compile .standard sheltered = .ok g ∧
    g.diagnostics = [] ∧
    Session.classification.run (.start sheltered .standard) = .ok (some cl, s) ∧
    g.generators = [gen] ∧ cl.tree.nodes = [t] ∧ LeavesGlobals t ∧
    (∀ n ∈ t.preorder, ¬Reserved.isReserved n.nameOrEmpty) ∧
    (∀ p ∈ gen.program.nodes, p.kind = .parameter → p.nameOrEmpty ∉ programGlobals) ∧
    (∀ n ∈ gen.program.preorder, n.kind = .declarator ∨ n.kind = .forEachStatement →
      n.nameOrEmpty ∉ programGlobals) ∧
    ∀ (target : Target) (arguments : List (String × Datum)) (budget : Nat) (scopes : Scoping),
      ∀ name ∈ programGlobals,
        (machineAfter (expansion target arguments budget gen.program)).valueOf? scopes name =
          none := by
  obtain ⟨g, cl, s, hg, hd, hs, one, asked⟩ := exists_sheltered
  obtain ⟨gen, t, hgen, hnodes, reached⟩ := exists_of_forall₂ (program_globals_reached hg hd hs) one
  obtain ⟨-, -, free⟩ := asked t (by simp [hnodes])
  exact ⟨g, cl, s, gen, t, hg, hd, hs, hgen, hnodes, free, reached free⟩

/-- The first call that the quoter inserted asks the parameter. -/
theorem captured_global_capturing : ∃ g gen, compile .standard capturing = .ok g ∧
    g.diagnostics = [] ∧ gen ∈ g.generators ∧
    expand ⟨"Target", .int, []⟩ [("Syntax", .int 1)] gen.program =
      .error (.fault (.noMember "int" "StatementList")) :=
  exists_stops.2.2

end Stencil
