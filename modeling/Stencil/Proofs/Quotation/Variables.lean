import Stencil.Proofs.Quotation.Names
import Stencil.Proofs.Quotation.Requests
import Stencil.Proofs.Session.Accepted

/-!
# The quoter's own variables

While a template is compiled, its quoter hands out accumulators and holders. The requests are
answered here once more by `Blocks`, a stack of frames that may be empty and refuses what only an
open block can answer. The quoter always finds its block open, leaves the blocks as it found them,
and numbers apart what it hands out.

Results:

* `serveAll_of_asks`, `kept_of_asks` – no request is refused, and what was open stays open;
* `Blocks.issues_serveAll` – the names that are handed out differ from each other and from all that
  can follow;
* `quoter_variables_unique` – so it is while any template of any tree is compiled, and none of the
  names is an identifier of a tree that passed validation.
-/
namespace Stencil.Quotation

variable {α : Type} {act : Quoter α} {s : State} {rs : List Request}

/-! ## A stack that may be empty -/

/-- The frames of the open blocks, innermost first, and the numbers that are next. -/
structure Blocks where
  frames : List Frame
  accumulators : Nat
  names : Nat

/-- Nothing was opened yet. -/
def Blocks.unopened : Blocks := ⟨[], 0, 0⟩

def State.blocks (s : State) : Blocks := ⟨s.frame :: s.outer, s.accumulators, s.names⟩

/-- The blocks after a request, if they answer it so. Unless a block is open, there is nothing to
close, no accumulator to tell and no place for a local. -/
def Blocks.serve (b : Blocks) : Request → Option Blocks
  | .openBlock name =>
    if name = accumulatorName b.accumulators then
      some ⟨⟨name, []⟩ :: b.frames, b.accumulators + 1, b.names⟩
    else none
  | .closeBlock =>
    match b.frames with
    | [] => none
    | _ :: outer => some { b with frames := outer }
  | .accumulator name => if b.frames.head?.map Frame.accumulator = some name then some b else none
  | .declare name v holder =>
    match b.frames with
    | [] => none
    | frame :: outer =>
      if holder = holderName name b.names then
        let locals := v.toList.map (·, holder) ++ frame.locals
        some ⟨⟨frame.accumulator, locals⟩ :: outer, b.accumulators, b.names + 1⟩
      else none

def Blocks.serveAll (b : Blocks) (rs : List Request) : Option Blocks := rs.foldlM Blocks.serve b

theorem Blocks.serveAll_append (b : Blocks) (rs qs : List Request) :
    b.serveAll (rs ++ qs) = (b.serveAll rs).bind (·.serveAll qs) := List.foldlM_append ..

@[simp] theorem Blocks.serveAll_cons (b : Blocks) (r : Request) (rs : List Request) :
    b.serveAll (r :: rs) = (b.serve r).bind (·.serveAll rs) := List.foldlM_cons ..

@[simp] theorem Blocks.serveAll_nil (b : Blocks) : b.serveAll [] = some b := rfl

/-! ## Balance -/

/-- The accumulators of the open blocks, innermost first. -/
def State.openAccumulators (s : State) : List String :=
  (s.frame :: s.outer).map Frame.accumulator

/-- The same blocks are open. Only the innermost one may have got more locals. -/
structure State.Kept (s s' : State) : Prop where
  accumulator : s'.frame.accumulator = s.frame.accumulator
  outer : s'.outer = s.outer

theorem State.Kept.openAccumulators {s' : State} (h : s.Kept s') :
    s'.openAccumulators = s.openAccumulators := by
  rw [State.openAccumulators, State.openAccumulators, List.map_cons, List.map_cons, h.accumulator,
    h.outer]

/-- A block that was opened is the one to be closed. -/
theorem State.Kept.leave {s' : State} (h : s.enter.Kept s') :
    s'.leave = { s' with frame := s.frame, outer := s.outer } := by
  have outer : s'.outer = s.frame :: s.outer := h.outer
  rw [State.leave, outer]

theorem State.Kept.serve_closeBlock {s' : State} (h : s.enter.Kept s') :
    s'.blocks.serve .closeBlock = some s'.leave.blocks := by
  have outer : s'.outer = s.frame :: s.outer := h.outer
  rw [h.leave]
  simp only [Blocks.serve, State.blocks, outer]

theorem kept_of_asks (h : Asks act s rs) : s.Kept (act.run s).2 := by
  induction h with
  | pure | accumulator | declare | report => exact ⟨rfl, rfl⟩
  | bind _ _ ih ih' => exact ⟨ih'.accumulator.trans ih.accumulator, ih'.outer.trans ih.outer⟩
  | nested _ ih =>
    rw [run_nested, ih.leave]
    exact ⟨rfl, rfl⟩
  | held h =>
    rw [run_heldOr_some h]
    exact ⟨rfl, rfl⟩
  | notHeld h _ ih =>
    rw [run_heldOr_none h]
    exact ih

/-- Quoting leaves as many blocks open as before, with the same accumulators. -/
theorem Asking.openAccumulators (h : Asking act) (s : State) :
    (act.run s).2.openAccumulators = s.openAccumulators := by
  obtain ⟨rs, hrs⟩ := h s
  exact (kept_of_asks hrs).openAccumulators

/-- The stack answers every request as the quoter is answered, and goes through the same frames. -/
theorem serveAll_of_asks (h : Asks act s rs) : s.blocks.serveAll rs = some (act.run s).2.blocks := by
  induction h with
  | pure | report => rfl
  | accumulator s =>
    have answered : Quotation.accumulator.run s = (s.frame.accumulator, s) := rfl
    simp [answered, Blocks.serve, State.blocks]
  | declare name v s =>
    have answer : ((Quotation.declare name v).run s).1 = holderName name s.names := rfl
    simp only [answer, Blocks.serveAll_cons, Blocks.serve, State.blocks, if_pos]
    cases v <;> rfl
  | bind _ _ ih ih' => rw [Blocks.serveAll_append, ih, Option.bind_some, ih']; rfl
  | @nested α build s rs h ih =>
    have opened : s.blocks.serve (.openBlock s.enter.frame.accumulator) = some s.enter.blocks := by
      simp [Blocks.serve, State.blocks, State.enter]
    rw [Blocks.serveAll_cons, opened, Option.bind_some, Blocks.serveAll_append, ih,
      Option.bind_some, Blocks.serveAll_cons, (kept_of_asks h).serve_closeBlock]
    rfl
  | held h =>
    rw [run_heldOr_some h]
    rfl
  | notHeld h _ ih =>
    rw [run_heldOr_none h]
    exact ih

/-! ## Names -/

/-- The name of the variable, if any, that is handed out by answering the request. -/
def Request.issued : Request → List String
  | .openBlock name => [name]
  | .declare _ _ holder => [holder]
  | .closeBlock | .accumulator _ => []

/-- The names of the variables that are handed out, in order. -/
def issued (rs : List Request) : List String := rs.flatMap Request.issued

namespace Blocks

variable {b b' b'' : Blocks} {name : String}

/-- The name can still be handed out, since its number was not reached. -/
def Ahead (b : Blocks) (name : String) : Prop :=
  (∃ k, b.accumulators ≤ k ∧ name = accumulatorName k) ∨
    ∃ hint k, b.names ≤ k ∧ name = holderName hint k

theorem Ahead.isReserved (h : b.Ahead name) : Reserved.isReserved name := by
  obtain ⟨k, -, rfl⟩ | ⟨hint, k, -, rfl⟩ := h
  · exact isReserved_accumulatorName k
  · exact isReserved_holderName hint k

theorem Ahead.mono (h : b'.Ahead name) (ha : b.accumulators ≤ b'.accumulators)
    (hn : b.names ≤ b'.names) : b.Ahead name := by
  obtain ⟨k, hk, rfl⟩ | ⟨hint, k, hk, rfl⟩ := h
  · exact .inl ⟨k, by omega, rfl⟩
  · exact .inr ⟨hint, k, by omega, rfl⟩

/-- An accumulator is behind once its number was passed, whatever holders are called. -/
theorem not_ahead_accumulatorName {k : Nat} (h : k < b.accumulators) :
    ¬b.Ahead (accumulatorName k) := by
  intro ahead
  obtain ⟨i, hi, heq⟩ | ⟨hint, i, -, heq⟩ := ahead
  · have := accumulatorName_injective heq
    omega
  · exact holderName_ne_accumulatorName hint i k heq.symm

theorem not_ahead_holderName {hint : String} {k : Nat} (h : k < b.names) :
    ¬b.Ahead (holderName hint k) := by
  intro ahead
  obtain ⟨i, -, heq⟩ | ⟨other, i, hi, heq⟩ := ahead
  · exact holderName_ne_accumulatorName hint k i heq
  · have := holderName_injective heq
    omega

/-- Between `b` and `b'` these names were handed out, each once: all of them were ahead and are
behind now, and the numbers count them. -/
structure Issues (b b' : Blocks) (given : List String) : Prop where
  accumulators_le : b.accumulators ≤ b'.accumulators
  names_le : b.names ≤ b'.names
  ahead : ∀ name ∈ given, b.Ahead name
  behind : ∀ name ∈ given, ¬b'.Ahead name
  distinct : given.Nodup
  count : b.accumulators + b.names + given.length = b'.accumulators + b'.names

theorem Issues.of_eq (ha : b'.accumulators = b.accumulators) (hn : b'.names = b.names) :
    b.Issues b' [] :=
  ⟨Nat.le_of_eq ha.symm, Nat.le_of_eq hn.symm, nofun, nofun, List.nodup_nil, by rw [ha, hn]; rfl⟩

theorem Issues.trans {given given' : List String} (h : b.Issues b' given)
    (h' : b'.Issues b'' given') : b.Issues b'' (given ++ given') where
  accumulators_le := Nat.le_trans h.accumulators_le h'.accumulators_le
  names_le := Nat.le_trans h.names_le h'.names_le
  ahead := List.forall_mem_append.2
    ⟨h.ahead, fun name hm => (h'.ahead name hm).mono h.accumulators_le h.names_le⟩
  behind := List.forall_mem_append.2
    ⟨fun name hm later => h.behind name hm (later.mono h'.accumulators_le h'.names_le), h'.behind⟩
  distinct := by
    -- what is handed out later is ahead where the earlier names are behind
    refine List.nodup_append.2 ⟨h.distinct, h'.distinct, fun name hm other hm' heq => ?_⟩
    exact h.behind name hm (heq ▸ h'.ahead other hm')
  count := by
    have first := h.count
    have second := h'.count
    rw [List.length_append]
    omega

/-- One request. -/
theorem issues_serve {r : Request} (h : b.serve r = some b') : b.Issues b' r.issued := by
  cases r with
  | openBlock name =>
    obtain ⟨rfl, rfl⟩ : name = accumulatorName b.accumulators ∧ _ = b' := by simpa [serve] using h
    refine ⟨Nat.le_succ _, Nat.le_refl _, ?_, ?_, List.nodup_singleton _, ?_⟩
    · exact List.forall_mem_singleton.2 (.inl ⟨_, Nat.le_refl _, rfl⟩)
    · exact List.forall_mem_singleton.2 (not_ahead_accumulatorName (Nat.lt_succ_self _))
    · exact Nat.add_right_comm ..
  | closeBlock =>
    simp only [serve] at h
    split at h <;> cases h
    exact .of_eq rfl rfl
  | accumulator name =>
    obtain ⟨-, rfl⟩ : b.frames.head?.map Frame.accumulator = some name ∧ b = b' := by
      simpa [serve] using h
    exact .of_eq rfl rfl
  | declare name v holder =>
    simp only [serve] at h
    split at h
    · cases h
    · next frame outer _ =>
      obtain ⟨rfl, rfl⟩ : holder = holderName name b.names ∧ _ = b' := by simpa using h
      refine ⟨Nat.le_refl _, Nat.le_succ _, ?_, ?_, List.nodup_singleton _, Nat.add_assoc ..⟩
      · exact List.forall_mem_singleton.2 (.inr ⟨_, _, Nat.le_refl _, rfl⟩)
      · exact List.forall_mem_singleton.2 (not_ahead_holderName (Nat.lt_succ_self _))

/-- Any number of requests. -/
theorem issues_serveAll (h : b.serveAll rs = some b') : b.Issues b' (issued rs) := by
  induction rs generalizing b with
  | nil =>
    cases h
    exact .of_eq rfl rfl
  | cons r rs ih =>
    obtain ⟨next, hr, hrs⟩ := Option.bind_eq_some_iff.1 (serveAll_cons b r rs ▸ h)
    exact (issues_serve hr).trans (ih hrs)

end Blocks

/-! ## Templates -/

/-- The statements of the generator for the body of a template. -/
def quoteBody (store : FactStore) (t : Node) : Quoter (List Node) :=
  match t.nodeOfKind? .block with
  | some body => hostStatements store (provided? store t) body
  | none => pure []

/-- The generator of a template that has these statements in the template's own block. -/
def generatorOf (t : Node) (statements : List Node) : Generator :=
  let accumulator := accumulatorName 0
  let result := Node.returnStatement (some (construct "Block" [.identifier accumulator]))
  let name := t.nameOrEmpty ++ generatorEnding
  ⟨t.nameOrEmpty, name, .template name (t.nodes.filter (·.kind == .parameter))
    (.block (openAccumulator accumulator :: statements ++ [result]))⟩

/-- The templates that are compiled from a tree, which may itself be one. -/
def templatesOf (tree : Node) : List Node :=
  if tree.kind = .template then [tree] else tree.nodes.filter (·.kind == .template)

theorem mem_preorder_of_mem_templatesOf {tree t : Node} (h : t ∈ templatesOf tree) :
    t ∈ tree.preorder := by
  unfold templatesOf at h
  split at h
  · rw [List.mem_singleton.1 h]
    exact tree.mem_preorder_self
  · exact Node.mem_preorder_of_mem_nodes tree.mem_preorder_self (List.mem_filter.1 h).1

theorem generators_quoteTemplates (store : FactStore) (tree : Node) :
    (quoteTemplates store tree).generators =
      (templatesOf tree).map fun t => generatorOf t ((quoteBody store t).run .initial).1 := by
  rw [quoteTemplates, templatesOf, List.map_map]
  rfl

theorem asking_quoteBody (store : FactStore) (t : Node) : Asking (quoteBody store t) := by
  unfold quoteBody
  split
  · exact (asked ..).statements
  · exact .pure

/-- The requests made while a template is compiled, from the opening of its own block to its end. -/
def Requests (store : FactStore) (t : Node) (rs : List Request) : Prop :=
  ∃ inner, Asks (quoteBody store t) .initial inner ∧
    rs = .openBlock (accumulatorName 0) :: (inner ++ [.closeBlock])

theorem exists_requests (store : FactStore) (t : Node) : ∃ rs, Requests store t rs := by
  obtain ⟨inner, h⟩ := asking_quoteBody store t .initial
  exact ⟨_, inner, h, rfl⟩

/-- Compiling a template begins and ends with no open block, and every request in between finds one
that answers it. -/
theorem Requests.serveAll {store : FactStore} {t : Node} (h : Requests store t rs) :
    Blocks.unopened.serveAll rs = some ⟨[], ((quoteBody store t).run .initial).2.accumulators,
      ((quoteBody store t).run .initial).2.names⟩ := by
  obtain ⟨inner, hinner, rfl⟩ := h
  have opened : Blocks.unopened.serve (.openBlock (accumulatorName 0)) = some State.initial.blocks :=
    rfl
  have outer : ((quoteBody store t).run .initial).2.outer = [] := (kept_of_asks hinner).outer
  rw [Blocks.serveAll_cons, opened, Option.bind_some, Blocks.serveAll_append,
    serveAll_of_asks hinner, Option.bind_some, Blocks.serveAll_cons]
  simp only [Blocks.serve, State.blocks, outer, Option.bind_some, Blocks.serveAll_nil]

/-- Whatever tree is compiled, quoting a statement leaves as many blocks open as before, with the
same accumulators. While a template is compiled, from no open block to no open block, each request
finds the block that it is about. The names handed out on the way are as many as the quoter counts
and pairwise distinct, and if the tree passed validation, no identifier of the template is one of
them. -/
theorem quoter_variables_unique (store : FactStore) (tree : Node) :
    (quoteTemplates store tree).generators =
      (templatesOf tree).map (fun t => generatorOf t ((quoteBody store t).run .initial).1) ∧
    (∀ (provided : Option (Nat × CallForm)) (n : Node) (s : State),
      ((hostStatement store provided n).run s).2.openAccumulators = s.openAccumulators ∧
      ((embedded store provided n).run s).2.openAccumulators = s.openAccumulators) ∧
    ∀ t ∈ templatesOf tree, (∃ rs, Requests store t rs) ∧ ∀ rs, Requests store t rs →
      let s := ((quoteBody store t).run .initial).2
      Blocks.unopened.serveAll rs = some ⟨[], s.accumulators, s.names⟩ ∧
      (issued rs).length = s.accumulators + s.names ∧ (issued rs).Nodup ∧
      (Reserved.check tree = [] → ∀ m ∈ t.preorder, ∀ token ∈ m.tokens,
        token.kind = .identifier → token.text ∉ issued rs) := by
  refine ⟨generators_quoteTemplates store tree, fun provided n s => ?_, fun t ht => ?_⟩
  · have quoted := asked store provided n
    exact ⟨quoted.statement.openAccumulators s, quoted.embedded.openAccumulators s⟩
  · refine ⟨exists_requests store t, fun rs hrs => ?_⟩
    have served := hrs.serveAll
    have issues := Blocks.issues_serveAll served
    have count := issues.count
    refine ⟨served, by simpa [Blocks.unopened] using count, issues.distinct, ?_⟩
    intro valid m hm token htoken hk own
    have inside := Node.preorder_trans (mem_preorder_of_mem_templatesOf ht) hm
    exact not_reserved_of_check valid inside htoken hk (issues.ahead _ own).isReserved

/-- Names that look like numbered ones, with a declaration in a block that needs an accumulator of
its own. -/
def imitating : String :=
  "template T(int s0) \x7b var s0_0 = this.F; if (this.R) \x7b var s = s0_0, x_1 = s; \x7d \x7d"

/-- Two accumulators and three holders are handed out for it. -/
theorem quoter_variables_unique_imitating :
    ∃ tree t rs, Source.parseUnit imitating = .ok tree ∧ Reserved.check tree = [] ∧
      t ∈ templatesOf tree ∧ Requests .empty t rs ∧ (issued rs).length = 5 ∧ (issued rs).Nodup ∧
      ∀ m ∈ t.preorder, ∀ token ∈ m.tokens, token.kind = .identifier → token.text ∉ issued rs := by
  have parses : (Source.parseUnit imitating).toOption.any fun tree =>
      (Reserved.check tree).isEmpty && (templatesOf tree).any fun t =>
        let s := ((quoteBody .empty t).run .initial).2
        s.accumulators + s.names == 5 := by
    decide +kernel
  obtain ⟨tree, hread, checked⟩ := (Option.any_eq_true _ _).1 parses
  simp only [Bool.and_eq_true, List.isEmpty_iff, List.any_eq_true, beq_iff_eq] at checked
  obtain ⟨valid, t, ht, count⟩ := checked
  obtain ⟨-, -, each⟩ := quoter_variables_unique .empty tree
  obtain ⟨⟨rs, hrs⟩, every⟩ := each t ht
  obtain ⟨-, length, distinct, outside⟩ := every rs hrs
  exact ⟨tree, t, rs, eq_ok_of_toOption hread, valid, ht, hrs, length.trans count, distinct,
    outside valid⟩

end Stencil.Quotation
