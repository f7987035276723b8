import Stencil.Proofs.Quotation.Simulation

/-!
# Expanding a generator

A generator is a program of its own: its parameters are those of the template, and its body opens
the first accumulator, runs the quoted statements and returns the block of what they added. Started
on a fresh machine it follows the direct run of the template, so both give the same tree, with the
same numbers and spans, or stop for the same reason.

Results:

* `agree_addContext` – the machine that both runs start on agrees with itself;
* `expand_quoteTemplate` – the generator of a template that fits expands to its residual code.
-/
namespace Stencil.Quotation

open Expansion Layer

/-! ## Fresh machines -/

/-- Lists of plain values only. -/
def PlainLists (m : Machine) : Prop :=
  ∀ (place : Nat) (items : Array Value), m.lists[place]? = some items → ∀ v ∈ items, v.isPlain

mutual

theorem plain_load (m : Machine) (hm : PlainLists m) : (d : Datum) →
    (m.load d).1.isPlain ∧ PlainLists (m.load d).2 ∧ (m.load d).2.contexts = m.contexts
  | .null => ⟨rfl, hm, rfl⟩
  | .bool _ => ⟨rfl, hm, rfl⟩
  | .int _ => ⟨rfl, hm, rfl⟩
  | .float _ => ⟨rfl, hm, rfl⟩
  | .string _ => ⟨rfl, hm, rfl⟩
  | .list items => by
    obtain ⟨hv, hl, hc⟩ := plain_loadAll m hm items
    rw [Machine.load]
    refine ⟨rfl, fun place l h v hmem => ?_, hc⟩
    rw [Array.getElem?_push] at h
    split at h
    · cases h
      exact hv v (by simpa using hmem)
    · exact hl place l h v hmem

theorem plain_loadAll (m : Machine) (hm : PlainLists m) : (ds : List Datum) →
    (∀ v ∈ (m.loadAll ds).1, v.isPlain) ∧ PlainLists (m.loadAll ds).2 ∧
      (m.loadAll ds).2.contexts = m.contexts
  | [] => by
    rw [Machine.loadAll]
    exact ⟨by simp, hm, rfl⟩
  | d :: rest => by
    obtain ⟨hv, hl, hc⟩ := plain_load m hm d
    obtain ⟨hvs, hls, hcs⟩ := plain_loadAll (m.load d).2 hl rest
    rw [Machine.loadAll]
    exact ⟨List.forall_mem_cons.2 ⟨hv, hvs⟩, hls, hcs.trans hc⟩

end

/-- The arguments that the context `own` holds for parameters are plain. -/
def PlainArguments (own : Nat) (m : Machine) : Prop :=
  ∀ c, m.contexts[own]? = some c → ∀ e ∈ c.arguments, e.2.isPlain

/-- A fresh machine agrees with itself, and its arguments are plain. -/
theorem agree_addContext (target : Target) (arguments : List (String × Datum)) {own : Nat}
    {m : Machine} (h : Machine.initial.addContext target arguments = (own, m)) :
    Agree own [] m m ∧ PlainArguments own m := by
  obtain ⟨hv, hl, hc⟩ := plain_loadAll .initial (by simp [PlainLists, Machine.initial])
    (arguments.map Prod.snd)
  cases h
  refine ⟨⟨⟨rfl, rfl, rfl, rfl, hl, ?_⟩, trivial⟩, ?_⟩
  · simp
  · intro c hc' e he
    rw [Array.getElem?_push, if_pos rfl] at hc'
    cases hc'
    have := List.mem_reverse.1 he
    exact hv e.2 (List.of_mem_zip this).2

/-! ## Parameters -/

variable {own : Nat}

theorem bindParameter_eq {m : Machine} {c : Context} (hc : m.contexts[own]? = some c)
    (env : Scoping) (p : Node) :
    bindParameter own env p m = (match c.argument? p.nameOrEmpty with
      | some v => define env p.nameOrEmpty v
      | none => fail (.missingArgument p.nameOrEmpty)) m := by
  have found : contextAt own m = .ok c m := by
    change expect .noContext m.contexts[own]? m = _
    rw [hc]
    rfl
  cases hv : c.argument? p.nameOrEmpty <;> simp only [bindParameter, run_bind, found, hv]

theorem ends_bindParameters {f g : Nat} {ps : List Node}
    (hp : ∀ p ∈ ps, isOpenName p.nameOrEmpty) {m m' : Machine}
    (hm : Agree own [.both f g] m m') (ha : PlainArguments own m) :
    Ends (fun _ _ n n' => Agree own [.both f g] n n') (ps.forM (bindParameter own [f]) m)
      (ps.forM (bindParameter own [g]) m') := by
  induction ps generalizing m m' with
  | nil => exact hm
  | cons p ps ih =>
    change Ends _ ((bindParameter own [f] p >>= fun _ => ps.forM (bindParameter own [f])) m)
      ((bindParameter own [g] p >>= fun _ => ps.forM (bindParameter own [g])) m')
    obtain ⟨c, hc⟩ : ∃ c, m.contexts[own]? = some c :=
      ⟨_, Array.getElem?_eq_getElem hm.alike.owned⟩
    have hc' : m'.contexts[own]? = some c := by rw [hm.alike.contexts, hc]
    rw [run_bind, run_bind, bindParameter_eq hc, bindParameter_eq hc']
    cases hv : c.argument? p.nameOrEmpty with
    | none => exact rfl
    | some v =>
      have plain : v.isPlain := ha _ hc _ (mem_of_lookup hv)
      obtain ⟨-, agreed⟩ := Follows.defineBoth (L := []) (hp p List.mem_cons_self) plain m m' hm
      exact ih (fun q hq => hp q (List.mem_cons_of_mem _ hq)) agreed ha

/-! ## Templates -/

/-- The statements of a generator's body. -/
def bodyStatements (store : FactStore) (template body : Node) : List Node :=
  ((hostStatements store (provided? store template) body).run .initial).1

theorem program_quoteTemplate (store : FactStore) {t body : Node}
    (hb : t.nodeOfKind? .block = some body) :
    (quoteTemplate store t).1.program =
      .template (t.nameOrEmpty ++ generatorEnding) (t.nodes.filter (·.kind == .parameter))
        (.block (openAccumulator (accumulatorName 0) :: bodyStatements store t body ++ [
          Node.returnStatement (some (construct "Block" [.identifier (accumulatorName 0)]))])) := by
  unfold quoteTemplate bodyStatements
  simp only [hb]
  rfl

/-- What the simulation asks of a template with a body. -/
structure TemplateFits (store : FactStore) (t body : Node) : Prop where
  found : t.nodeOfKind? .block = some body
  fits : AllFit store body
  parameters : ∀ p ∈ t.nodes, p.kind = .parameter → isOpenName p.nameOrEmpty

theorem State.isPlain_initial : State.initial.IsPlain (accumulatorName 0) :=
  ⟨rfl, by simp [State.initial]⟩

/-- The generator returns the block of what its accumulator holds. -/
theorem follows_result {acc : String} (hr : Reserved.isReserved acc) {L : List Layer}
    {b place : Nat} (ha : accumulatorIn? L = some (acc, .list place))
    (hb : (construct "Block" [.identifier acc]).size ≤ b) :
    Follows own L L IsNode (eval own b (lefts L) (construct "Block" [.identifier acc]))
      (constructNode .block [.list place] >>= Residual.numbered) := by
  obtain ⟨b, rfl⟩ : ∃ c, b = c + 1 :=
    ⟨b - 1, by have := (construct "Block" [.identifier acc]).size_pos; omega⟩
  obtain ⟨hpos, -⟩ := size_of_mem_methodCall hb
  rw [construct, eval_methodCall]
  simp only [List.mapM_cons, List.mapM_nil, bind_assoc, pure_bind]
  rw [← pure_bind place fun place => constructNode .block [.list place] >>= Residual.numbered]
  refine .bind (follows_accumulator hr ha hpos) ?_
  rintro _ place rfl
  exact Follows.global (by decide) ofName?_syntax hpos (follows_blockOf place)

theorem nodes_template (name : String) (ps : List Node) (body : Node) :
    (Node.template name ps body).nodes = ps ++ [body] := by
  simp only [Node.template, Node.nodes_build, List.filterMap_cons, Child.node?_token,
    List.filterMap_map, Function.comp_def, Child.node?_node, List.filterMap_some]

/-- The parts of a generator program. -/
theorem parts_template (name : String) {ps : List Node} (code : List Node)
    (hp : ∀ p ∈ ps, p.kind = .parameter) :
    (Node.template name ps (.block code)).nodes.filter (·.kind == .parameter) = ps ∧
      (Node.template name ps (.block code)).nodeOfKind? .block = some (.block code) := by
  have hnodes := nodes_template name ps (.block code)
  have hblock : (Node.block code).kind = .block := rfl
  have hfilter : ps.filter (·.kind == .parameter) = ps :=
    List.filter_eq_self.2 fun p hm => by simp [hp p hm]
  have hfind : ps.find? (·.kind == .block) = none :=
    List.find?_eq_none.2 fun p hm => by simp [hp p hm]
  constructor
  · simp [hnodes, hfilter, hblock]
  · simp [Node.nodeOfKind?, hnodes, List.find?_append, hfind, hblock]

theorem follows_interpret {store : FactStore} {t body : Node} (h : TemplateFits store t body)
    {m : Machine} (hm : Agree own [] m m) (ha : PlainArguments own m) {b : Nat}
    (hb : (quoteTemplate store t).1.program.size ≤ b) :
    Ends (fun v n _ _ => IsNode v n) (interpret own b (quoteTemplate store t).1.program m)
      (Residual.block store own t m) := by
  rw [program_quoteTemplate store h.found] at hb ⊢
  have hkind : body.kind = .block := by simpa using List.find?_some h.found
  have sim : Simulated own store (provided? store t) body := simulated body h.fits
  obtain ⟨hperform, -⟩ := sim.block hkind _ (isReserved_accumulatorName 0) .initial
    State.isPlain_initial
  have hps : ∀ p ∈ t.nodes.filter (·.kind == .parameter), p.kind = .parameter := by simp
  obtain ⟨hparameters, hbody⟩ := parts_template (t.nameOrEmpty ++ generatorEnding)
    (openAccumulator (accumulatorName 0) :: bodyStatements store t body ++
      [Node.returnStatement (some (construct "Block" [.identifier (accumulatorName 0)]))]) hps
  have hsize := Nat.lt_of_lt_of_le (Node.size_lt_of_mem (Node.mem_of_nodeOfKind? hbody)) hb
  rw [interpret, Residual.block, hparameters, hbody, h.found]
  have bound := ends_bindParameters (fun p hp => h.parameters p (List.mem_filter.1 hp).1 (hps p hp))
    hm.openBoth ha
  refine Ends.bind (R := fun e e' n n' => e = [m.frames.size] ∧ e' = [m.frames.size] ∧
    n = m.openFrame ∧ n' = m.openFrame) ⟨rfl, rfl, rfl, rfl⟩ ?_
  rintro _ _ _ _ ⟨rfl, rfl, rfl, rfl⟩
  refine bound.bind fun _ _ n n' hn => ?_
  have built := follows_accumulating (isReserved_accumulatorName 0) hperform
    (fun _ _ _ => follows_result (isReserved_accumulatorName 0)) (Nat.le_of_lt hsize) n n' hn
  exact built.mono fun _ _ _ _ hr => hr.1

theorem ends_entering {α β : Type} {R : α → β → Prop} {f : Run α} {g : Run β} {context : Nat}
    {m : Machine}
    (h : Ends (fun a b _ _ => R a b) (f (m.enter context).2) (g (m.enter context).2)) :
    Ends (fun a b _ _ => R a b) (entering context f m) (entering context g m) := by
  change Ends _ (ensuring f (·.leave m.active.length) (m.enter context).2)
    (ensuring g (·.leave m.active.length) (m.enter context).2)
  unfold ensuring
  revert h
  cases f (m.enter context).2 <;> cases g (m.enter context).2 <;> exact id

/-- Expanding the generator of a template gives what running the template emits. -/
theorem expand_quoteTemplate {store : FactStore} {t body : Node} (h : TemplateFits store t body)
    (target : Target) (arguments : List (String × Datum)) :
    expand target arguments (quoteTemplate store t).1.program =
      residualize store target arguments t := by
  obtain ⟨own, m, hstart⟩ : ∃ own m, Machine.initial.addContext target arguments = (own, m) :=
    ⟨_, _, rfl⟩
  obtain ⟨hm, ha⟩ := agree_addContext target arguments hstart
  have hm' : Agree own [] (m.enter own).2 (m.enter own).2 :=
    ⟨⟨rfl, rfl, rfl, rfl, hm.alike.plain, hm.alike.owned⟩, trivial⟩
  have ran := follows_interpret h hm' ha (Nat.le_add_left _ budget)
  have flattened : Ends (fun n n' _ _ => n = n'.flatten)
      ((interpret own (budgetFor (quoteTemplate store t).1.program)
        (quoteTemplate store t).1.program >>= flattened) (m.enter own).2)
      (Residual.block store own t (m.enter own).2) := by
    rw [← bind_pure (Residual.block store own t)]
    refine ran.bind ?_
    rintro _ n _ _ rfl
    exact rfl
  have entered := ends_entering flattened
  unfold expand residualize
  rw [hstart]
  dsimp only
  rw [expandIn]
  revert entered
  cases entering own _ m <;> cases entering own (Residual.block store own t) m
  · rintro rfl
    rfl
  · exact False.elim
  · exact False.elim
  · rintro rfl
    rfl

end Stencil.Quotation
