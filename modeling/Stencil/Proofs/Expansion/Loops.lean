import Stencil.Proofs.Expansion.Computing

/-!
# Lists and loops

Generators collect in lists of the machine what they emit, and go over the items of lists and
strings in loops. Running a template directly is made of the same elementary runs, so what these do
is stated on its own.

Results:

* `newPlace_spec`, `appendTo_spec`, `itemsOf_cases` – a list has the items that it was made with
  and those that were added to it, in that order, and whoever goes over it sees them;
* `inOrder_cases` – items are run in order up to the first that does not go on;
* `forEachItem_eq` – a loop runs its turns in order; `continue` ends the turn and `break` the loop.
-/
namespace Stencil.Expansion

/-! ## Lists -/

/-- The items of a list as they are now. -/
def Machine.items (m : Machine) (place : Nat) : List Value := ((m.lists[place]?).getD #[]).toList

theorem Machine.items_eq (m : Machine) (place : Nat) :
    m.items place = ((m.lists[place]?).map Array.toList).getD [] := by
  unfold Machine.items
  cases m.lists[place]? <;> rfl

theorem toList_appended (lists : Array (Array Value)) (place : Nat) (items : List Value) (q : Nat) :
    ((lists.modify place (·.appendList items))[q]?).map Array.toList =
      (lists[q]?).map fun l => if q = place then l.toList ++ items else l.toList := by
  rw [Array.getElem?_modify]
  by_cases h : place = q
  · subst h
    rw [if_pos rfl, Option.map_map]
    exact congrArg (Option.map · _) (funext fun l => by simp)
  · rw [if_neg h]
    exact congrArg (Option.map · _) (funext fun l => by simp [Ne.symm h])

/-- What a list holds after an addition it held before, or it was added. -/
theorem mem_of_appended {lists : Array (Array Value)} {place q : Nat} {items : List Value}
    {l : Array Value} (hl : (lists.modify place (·.appendList items))[q]? = some l) {v : Value}
    (hv : v ∈ l) : (∃ old, lists[q]? = some old ∧ v ∈ old) ∨ q = place ∧ v ∈ items := by
  have same := toList_appended lists place items q
  rw [hl, Option.map_some] at same
  obtain ⟨old, ho, hitems⟩ := Option.map_eq_some_iff.1 same.symm
  rw [← Array.mem_toList_iff, ← hitems] at hv
  split at hv
  · next hq =>
    rcases List.mem_append.1 hv with hv | hv
    · exact .inl ⟨old, ho, Array.mem_toList_iff.1 hv⟩
    · exact .inr ⟨hq, hv⟩
  · exact .inl ⟨old, ho, Array.mem_toList_iff.1 hv⟩

/-- A new list gets the next place, and no other list changes. -/
theorem newPlace_spec (items : Array Value) (m : Machine) :
    ∃ n, newPlace items m = .ok m.lists.size n ∧ n.items m.lists.size = items.toList ∧
      (∀ q, q ≠ m.lists.size → n.items q = m.items q) ∧ n = { m with lists := n.lists } := by
  refine ⟨_, rfl, ?_, fun q hq => ?_, rfl⟩
  · simp [Machine.items]
  · simp only [Machine.items, Array.getElem?_push, if_neg hq]

/-- Items are added at the end of one list, and no other list changes. -/
theorem appendTo_spec {place : Nat} {m : Machine} (h : place < m.lists.size) (items : List Value) :
    ∃ n, appendTo place items m = .ok () n ∧ n.items place = m.items place ++ items ∧
      (∀ q, q ≠ place → n.items q = m.items q) ∧ n = { m with lists := n.lists } := by
  have same := toList_appended m.lists place items
  refine ⟨_, rfl, ?_, fun q hq => ?_, rfl⟩
  · rw [Machine.items_eq, Machine.items_eq]
    refine (congrArg (·.getD []) (same place)).trans ?_
    rw [Array.getElem?_eq_getElem h]
    simp
  · rw [Machine.items_eq, Machine.items_eq]
    refine (congrArg (·.getD []) (same q)).trans ?_
    simp only [if_neg hq]

/-- A list has items and a string has characters; all other values are refused. -/
theorem itemsOf_cases (v : Value) (m : Machine) :
    (∃ place, v = .list place ∧ itemsOf v m = .ok (m.items place) m) ∨
    (∃ s, v = .string s ∧ itemsOf v m = .ok (s.toList.map .char) m) ∨
    itemsOf v m = .error (.fault (.type (.cannotIterate v.typeName))) m ∧
      (∀ place, v ≠ .list place) ∧ ∀ s, v ≠ .string s := by
  cases v with
  | list place => exact .inl ⟨place, rfl, rfl⟩
  | string s => exact .inr (.inl ⟨s, rfl, rfl⟩)
  | _ => exact .inr (.inr ⟨rfl, by simp, by simp⟩)

/-! ## Items in order -/

variable {α : Type}

/-- Running the items one after another leads from one machine to another, and each goes on. -/
inductive Passes (run : α → Run Flow) : List α → Machine → Machine → Prop
  | nil (m : Machine) : Passes run [] m m
  | cons {x : α} {xs : List α} {m k n : Machine} (head : run x m = .ok .ongoing k)
      (tail : Passes run xs k n) : Passes run (x :: xs) m n

/-- Items are run in order until all went on or one does not: then the run ends as that one does,
and those after it are not run. -/
theorem inOrder_cases (run : α → Run Flow) (xs : List α) (m : Machine) :
    (∃ n, Passes run xs m n ∧ inOrder run xs m = .ok .ongoing n) ∨
    ∃ pre x post k, xs = pre ++ x :: post ∧ Passes run pre m k ∧
      (∀ n, run x k ≠ .ok .ongoing n) ∧ inOrder run xs m = run x k := by
  induction xs generalizing m with
  | nil => exact .inl ⟨m, .nil m, rfl⟩
  | cons x xs ih =>
    by_cases going : ∃ k, run x m = .ok .ongoing k
    · obtain ⟨k, hx⟩ := going
      have step : inOrder run (x :: xs) m = inOrder run xs k := by rw [inOrder, run_bind, hx]
      obtain ⟨n, passes, ends⟩ | ⟨pre, y, post, l, rfl, passes, stops, ends⟩ := ih k
      · exact .inl ⟨n, .cons hx passes, step.trans ends⟩
      · exact .inr ⟨x :: pre, y, post, l, rfl, .cons hx passes, stops, step.trans ends⟩
    · have stops (n : Machine) : run x m ≠ .ok .ongoing n := fun hx => going ⟨n, hx⟩
      refine .inr ⟨[], x, xs, m, rfl, .nil m, stops, ?_⟩
      rw [inOrder, run_bind]
      cases hx : run x m with
      | error e k => rfl
      | ok flow k =>
        cases flow with
        | ongoing => exact absurd hx (stops k)
        | _ => rfl

theorem inOrder_append (run : α → Run Flow) (xs ys : List α) :
    inOrder run (xs ++ ys) = inOrder run xs >>= fun
      | .ongoing => inOrder run ys
      | flow => pure flow := by
  induction xs with
  | nil => rfl
  | cons x xs ih =>
    rw [List.cons_append, inOrder, inOrder, bind_assoc]
    exact congrArg _ (funext fun flow => by cases flow <;> first | exact ih | rfl)

/-! ## Loops -/

namespace Flow

/-- A `continue` ends the turn of a loop and nothing else. -/
def afterTurn : Flow → Flow
  | continued => ongoing
  | flow => flow

/-- A `break` ends the loop and nothing else. -/
def afterLoop : Flow → Flow
  | broken => ongoing
  | flow => flow

@[simp]
theorem afterTurn_eq_returned {flow : Flow} {v : Value} :
    flow.afterTurn = .returned v ↔ flow = .returned v := by
  cases flow <;> simp [afterTurn]

@[simp]
theorem afterLoop_eq_returned {flow : Flow} {v : Value} :
    flow.afterLoop = .returned v ↔ flow = .returned v := by
  cases flow <;> simp [afterLoop]

end Flow

/-- A loop runs its turns in order. -/
theorem forEachItem_eq (turn : Value → Run Flow) (items : List Value) :
    forEachItem turn items =
      (do return (← inOrder (fun v => do return (← turn v).afterTurn) items).afterLoop) := by
  induction items with
  | nil => rfl
  | cons v items ih =>
    rw [forEachItem, inOrder, bind_assoc, bind_assoc]
    refine congrArg _ (funext fun flow => ?_)
    cases flow with
    | ongoing => exact ih
    | returned w => rfl
    | broken => rfl
    | continued => exact ih

end Stencil.Expansion
