import Stencil.Quotation.Quoter

/-!
# What quoting asks of the frames

The quoter knows the blocks under construction only through their frames: it opens and closes
blocks, asks for the accumulator of the innermost one, and declares variables that hold names.
`Asks act s rs` says that `act`, run in `s`, makes the requests `rs`, each noted with its answer. It
is defined by the steps that computations are put together from, so what every step keeps, all of
quoting keeps, and the tree is followed only once.

Results:

* `Asking.nested`, `Asking.mapM` and so on – computations put together from steps;
* `asking_structural`, `asking_hostLevel` and so on – the functions of the quoter are;
* `asked` – so quoting any part of any tree consists of such steps.
-/
namespace Stencil.Quotation

/-- The state in which a nested block is built. -/
def State.enter (s : State) : State :=
  { s with
    frame := ⟨accumulatorName s.accumulators, []⟩
    outer := s.frame :: s.outer
    accumulators := s.accumulators + 1 }

theorem run_nested {α : Type} (build : Quoter α) (s : State) :
    (nested build).run s = ((build.run s.enter).1, (build.run s.enter).2.leave) := rfl

section

variable {v : Option Symbol} {otherwise : Quoter Node} {s : State}

theorem run_heldOr_some {holder : String} (h : v.bind s.holder? = some holder) :
    (heldOr v otherwise).run s = (construct "IdentifierName" [.identifier holder], s) := by
  rw [heldOr, StateT.run_bind, StateT.run_get, pure_bind, h]
  rfl

theorem run_heldOr_none (h : v.bind s.holder? = none) :
    (heldOr v otherwise).run s = otherwise.run s := by
  rw [heldOr, StateT.run_bind, StateT.run_get, pure_bind, h]

/-- A holder that is found stands among the locals of a block that is open. -/
theorem exists_of_holder? {holder : String} (h : v.bind s.holder? = some holder) :
    ∃ f ∈ s.frame :: s.outer, ∃ w, (w, holder) ∈ f.locals := by
  obtain ⟨w, -, hw⟩ := Option.bind_eq_some_iff.1 h
  obtain ⟨f, hf, hl⟩ := List.exists_of_findSome?_eq_some hw
  obtain ⟨_, _, hlocals, -⟩ := List.lookup_eq_some_iff.1 hl
  exact ⟨f, hf, w, by simp [hlocals]⟩

end

/-- A request to the frames, with its answer. -/
inductive Request where
  /-- opens a nested block, which gets this accumulator -/
  | openBlock (accumulator : String)
  /-- closes the innermost block -/
  | closeBlock
  /-- asks for the accumulator of the innermost block -/
  | accumulator (name : String)
  /-- declares a local in the innermost block, whose name `holder` will hold -/
  | declare (name : String) (v : Option Symbol) (holder : String)

/-- The computation, run in the state `s`, makes these requests. -/
inductive Asks : {α : Type} → Quoter α → State → List Request → Prop
  | pure {α : Type} (x : α) (s : State) : Asks (pure x) s []
  | bind {α β : Type} {act : Quoter α} {k : α → Quoter β} {s : State} {rs qs : List Request}
    (h : Asks act s rs) (hk : Asks (k (act.run s).1) (act.run s).2 qs) :
    Asks (act >>= k) s (rs ++ qs)
  | accumulator (s : State) : Asks accumulator s [.accumulator (accumulator.run s).1]
  | declare (name : String) (v : Option Symbol) (s : State) :
    Asks (declare name v) s [.declare name v ((declare name v).run s).1]
  | nested {α : Type} {build : Quoter α} {s : State} {rs : List Request}
    (h : Asks build s.enter rs) :
    Asks (nested build) s (.openBlock s.enter.frame.accumulator :: (rs ++ [.closeBlock]))
  -- looking for a holder goes through the frames that there are and asks nothing of them
  | held {v : Option Symbol} {otherwise : Quoter Node} {s : State} {holder : String}
    (h : v.bind s.holder? = some holder) : Asks (heldOr v otherwise) s []
  | notHeld {v : Option Symbol} {otherwise : Quoter Node} {s : State} {rs : List Request}
    (h : v.bind s.holder? = none) (ho : Asks otherwise s rs) : Asks (heldOr v otherwise) s rs
  | report {d : Diagnostic} (hd : d.complaint = .notSerializable) (s : State) :
    Asks (report d) s []

/-- The computation consists of steps, wherever it runs. -/
def Asking {α : Type} (act : Quoter α) : Prop := ∀ s, ∃ rs, Asks act s rs

/-! ## Computations -/

namespace Asking

variable {α β γ : Type}

theorem pure {x : α} : Asking (pure x : Quoter α) := fun s => ⟨[], .pure x s⟩

theorem bind {act : Quoter α} {k : α → Quoter β} (h : Asking act) (hk : ∀ x, Asking (k x)) :
    Asking (act >>= k) := by
  intro s
  obtain ⟨rs, hrs⟩ := h s
  obtain ⟨qs, hqs⟩ := hk (act.run s).1 (act.run s).2
  exact ⟨rs ++ qs, .bind hrs hqs⟩

theorem mapM {f : γ → Quoter α} (xs : List γ) (h : ∀ x ∈ xs, Asking (f x)) :
    Asking (xs.mapM f) := by
  induction xs with
  | nil => exact .pure
  | cons x xs ih =>
    rw [List.mapM_cons]
    refine .bind (h x List.mem_cons_self) fun y => ?_
    exact .bind (ih fun x' hx => h x' (List.mem_cons_of_mem _ hx)) fun _ => .pure

theorem accumulator : Asking Quotation.accumulator := fun s => ⟨_, .accumulator s⟩

theorem declare (name : String) (v : Option Symbol) : Asking (Quotation.declare name v) :=
  fun s => ⟨_, .declare name v s⟩

theorem nested {build : Quoter α} (h : Asking build) : Asking (Quotation.nested build) := by
  intro s
  obtain ⟨rs, hrs⟩ := h s.enter
  exact ⟨_, .nested hrs⟩

theorem heldOr {otherwise : Quoter Node} (v : Option Symbol) (h : Asking otherwise) :
    Asking (Quotation.heldOr v otherwise) := by
  intro s
  cases hv : v.bind s.holder? with
  | some holder => exact ⟨[], .held hv⟩
  | none =>
    obtain ⟨rs, hrs⟩ := h s
    exact ⟨rs, .notHeld hv hrs⟩

theorem report {d : Diagnostic} (hd : d.complaint = .notSerializable) :
    Asking (Quotation.report d) := fun s => ⟨[], .report hd s⟩

theorem append (q : Node) : Asking (Quotation.append q) := .bind .accumulator fun _ => .pure

theorem freshLocal (store : FactStore) (n : Node) : Asking (Quotation.freshLocal store n) :=
  .bind (.declare _ _) fun _ => .pure

theorem lift (store : FactStore) (n : Node) : Asking (Quotation.lift store n) := by
  unfold Quotation.lift
  split
  · exact .pure
  · exact .pure
  · split
    · exact .pure
    · exact .bind (.report rfl) fun _ => .pure

theorem closure {act : Quoter (List Node)} (h : Asking act) :
    Asking (Quotation.nested do Quotation.closure (← act)) :=
  .nested (.bind h fun _ => .bind .accumulator fun _ => .pure)

end Asking

/-! ## Following the tree -/

/-- Whatever is made of the node, quoting it consists of steps. -/
structure Asked (store : FactStore) (provided : Option (Nat × CallForm)) (n : Node) : Prop where
  quote : Asking (quote store provided n)
  callee : Asking (quoteCallee store provided n)
  embedded : Asking (embedded store provided n)
  statement : Asking (hostStatement store provided n)
  statements : Asking (hostStatements store provided n)

section

variable {store : FactStore} {provided : Option (Nat × CallForm)} {n : Node}

theorem Asked.hostBlock (h : Asked store provided n) : Asking (hostBlock store provided n) := by
  rw [Quotation.hostBlock]
  split
  · exact .bind h.statements fun _ => .pure
  · exact .bind h.statement fun _ => .pure

variable (ih : ∀ m : Node, m.size < n.size → Asked store provided m)

include ih

theorem asking_structural : Asking (structural store provided n) := by
  rw [structural]
  refine .bind (.mapM _ ?_) fun _ => .pure
  rintro ⟨⟨c, hc⟩, index⟩ -
  cases c with
  | token t => exact .pure
  | node m =>
    have part := ih m (Node.size_lt_of_mem (Node.mem_nodes.2 hc))
    dsimp only
    split
    · exact part.embedded
    · split
      · exact part.callee
      · exact part.quote

theorem asking_hostIf : Asking (hostIf store provided n) := by
  rw [hostIf]
  split
  · next condition thenBranch hc ht =>
    have branch := (ih _ (Node.size_lt_of_mem (Node.mem_of_node? ht))).hostBlock
    refine .bind branch fun _ => ?_
    split
    · next clause hclause =>
      split
      · next other hother =>
        have smaller := Nat.lt_trans (Node.size_lt_of_mem (Node.mem_of_node? hother))
          (Node.size_lt_of_mem (Node.mem_of_nodeOfKind? hclause))
        exact .bind (ih _ smaller).hostBlock fun _ => .pure
      · exact .pure
    · exact .pure
  · exact .pure

theorem asking_hostForEach : Asking (hostForEach store provided n) := by
  rw [hostForEach]
  split
  · next body hbody =>
    exact .bind (ih _ (Node.size_lt_of_mem (Node.mem_of_node? hbody))).hostBlock fun _ => .pure
  · exact .pure

theorem asking_generatedDeclaration : Asking (generatedDeclaration store provided n) := by
  rw [generatedDeclaration]
  dsimp only
  split
  · refine .bind (.freshLocal _ _) ?_
    rintro ⟨declaration, holder⟩
    exact .bind (.append _) fun _ => .pure
  · refine .bind (.mapM _ fun d _ => .bind (.freshLocal _ _) ?_) fun _ =>
      .bind (.append _) fun _ => .pure
    rintro ⟨declaration, holder⟩
    dsimp only
    split
    · next value hvalue =>
      have smaller := Nat.lt_trans (Node.size_lt_of_mem (Node.mem_of_node? hvalue))
        (Node.size_lt_of_mem d.2)
      exact .bind (ih _ smaller).quote fun _ => .pure
    · exact .pure

theorem asking_generatedForEach : Asking (generatedForEach store provided n) := by
  rw [generatedForEach]
  refine .bind (.freshLocal _ _) ?_
  rintro ⟨declaration, holder⟩
  refine .bind (.mapM _ ?_) fun _ => .bind (.append _) fun _ => .pure
  rintro ⟨m, hm⟩ -
  have part := ih m (Node.size_lt_of_mem hm)
  dsimp only
  split
  · exact part.embedded
  · exact part.quote

theorem asking_hostLevel : Asking (hostLevel store provided n) := by
  rw [hostLevel]
  split
  · split
    · exact .bind (asking_hostIf ih) fun _ => .pure
    · exact .bind (asking_hostForEach ih) fun _ => .pure
    · exact .pure
  · split
    · exact asking_generatedForEach ih
    · exact asking_generatedDeclaration ih

theorem asking_quoteStatement : Asking (quoteStatement store provided n) := by
  rw [quoteStatement]
  split
  · exact asking_structural ih
  · split
    · exact .pure
    · next value hvalue =>
      split
      · exact .pure
      · exact .bind (ih value (Node.size_lt_of_mem (Node.mem_of_node? hvalue))).quote
          fun _ => .pure

end

/-- Quoting consists of steps, for every node: nothing is asked of its kind, children or marks. -/
theorem asked (store : FactStore) (provided : Option (Nat × CallForm)) (n : Node) :
    Asked store provided n := by
  have ih : ∀ m : Node, m.size < n.size → Asked store provided m :=
    fun m _ => asked store provided m
  have statements : Asking (hostStatements store provided n) := by
    rw [hostStatements]
    exact .bind (.mapM _ fun m _ => (ih m (Node.size_lt_of_mem m.2)).statement) fun _ => .pure
  have embedded : Asking (embedded store provided n) := by
    rw [Quotation.embedded]
    split
    · split
      · exact .bind (.closure statements) fun _ => .pure
      · exact asking_quoteStatement ih
    · split
      · exact .bind (.closure (asking_hostLevel ih)) fun _ => .pure
      · exact asking_quoteStatement ih
  have quote : Asking (quote store provided n) := by
    rw [Quotation.quote]
    split
    · exact .pure
    split
    · exact asking_structural ih
    split
    · exact .pure
    split
    · exact .lift store n
    split
    · exact .heldOr _ (asking_structural ih)
    · exact asking_structural ih
  refine ⟨quote, ?_, embedded, ?_, statements⟩
  · rw [quoteCallee]
    split
    · exact asking_structural ih
    · exact quote
  · rw [hostStatement]
    split
    · exact asking_hostLevel ih
    · exact .bind embedded fun _ => .bind (.append _) fun _ => .pure
termination_by n.size

end Stencil.Quotation
