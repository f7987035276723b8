import Mathlib.Logic.Relation
import Stencil.Proofs.Expansion.FreshNames

/-!
# Names made up in the course of a history

Scopes are opened inside others, names are recorded and names are made up, in any order. Whatever
was done before, a name that is made up for a scope is the first of its spellings that no scope on
the way up from it, and none below it, holds. So two scopes of which one lies inside the other never
get the same name, whichever of them asked first.

Results:

* `Linked.mem_around` – the scopes that a scope lists around it are its parents' parents;
* `Linked.isTaken_iff_held` – a name is taken where it is held on a path through the scope;
* `not_taken_of_given` – a name that is held is never made up again on such a path;
* `names_never_collide` – every history.
-/
namespace Stencil.Expansion.Scopes

/-! ## Histories -/

/-- What is done with scopes. -/
inductive Action where
  | push (parent : Nat)
  | reserve (scope : Nat) (name : String)
  | define (scope : Nat) (name : String)
deriving DecidableEq, Repr

/-- The scope that an action is about. -/
def Action.scope : Action → Nat
  | push parent => parent
  | reserve scope _ => scope
  | define scope _ => scope

def act (s : Scopes) : Action → Scopes
  | .push parent => (s.push parent).2
  | .reserve scope name => s.reserve scope name
  | .define scope name => (s.define scope name).2

def actAll (s : Scopes) (actions : List Action) : Scopes := actions.foldl act s

/-- Every action is about a scope that is open by then. -/
def Legal (s : Scopes) : List Action → Prop
  | [] => True
  | a :: rest => a.scope < s.scopes.length ∧ Legal (s.act a) rest

/-- The names that are made up, in order, with the scopes that they are made up for. -/
def given (s : Scopes) : List Action → List (Nat × String)
  | [] => []
  | .define scope name :: rest =>
    (scope, (s.define scope name).1) :: given (s.define scope name).2 rest
  | a :: rest => given (s.act a) rest

/-! ## Paths from scope to scope -/

/-- `outer` is `inner`, or is reached from it from parent to parent. -/
def Encloses (s : Scopes) (outer inner : Nat) : Prop :=
  Relation.ReflTransGen (fun a b => s.parent? b = some a) outer inner

/-- One of the scopes lies inside the other. -/
def Aligned (s : Scopes) (a b : Nat) : Prop := s.Encloses a b ∨ s.Encloses b a

/-- A scope on a path through `scope` has the name. -/
def Held (s : Scopes) (scope : Nat) (name : String) : Prop :=
  ∃ other, s.Aligned other scope ∧ name ∈ s.namesOf other

/-- The scopes around a scope are its parent and those around the parent, all of them open. -/
structure Linked (s : Scopes) : Prop where
  nested : s.Nested
  parents : ∀ i p rest, s.around i = p :: rest → rest = s.around p

variable {s s' : Scopes} {scope : Nat} {name : String}

theorem linked_initial : Linked initial := by
  refine ⟨nested_initial, fun i p rest h => ?_⟩
  cases i <;> simp [around, initial] at h

theorem Linked.push (h : s.Linked) {parent : Nat} (hp : parent < s.scopes.length) :
    (s.push parent).2.Linked := by
  refine ⟨h.nested.push hp, fun i p rest hi => ?_⟩
  by_cases old : i < s.scopes.length
  · rw [around_push old] at hi
    have inside := (h.nested i p (by simp [hi])).1
    rw [around_push inside]
    exact h.parents i p rest hi
  · obtain rfl : i = (s.push parent).1 := by
      have := lt_of_mem_around (show p ∈ (s.push parent).2.around i by simp [hi])
      have own : (s.push parent).1 = s.scopes.length := rfl
      rw [length_push] at this
      omega
    rw [around_push_self] at hi
    cases hi
    rw [around_push hp]

theorem Linked.reserve (h : s.Linked) : (s.reserve scope name).Linked := by
  refine ⟨h.nested.reserve, fun i p rest hi => ?_⟩
  rw [around_reserve] at hi ⊢
  exact h.parents i p rest hi

/-- The scopes around a scope are those on the way up from it. -/
theorem Linked.mem_around (h : s.Linked) {outer inner : Nat} :
    outer = inner ∨ outer ∈ s.around inner ↔ s.Encloses outer inner := by
  have parent {a b : Nat} : s.parent? b = some a ↔ ∃ rest, s.around b = a :: rest := by
    rw [parent?, List.head?_eq_some_iff]
  constructor
  · intro hm
    -- along the list of scopes around, which begins with the parent
    generalize hl : s.around inner = l at hm
    induction l generalizing inner with
    | nil =>
      obtain rfl : outer = inner := by simpa using hm
      exact .refl
    | cons p rest ih =>
      have up : s.Encloses p inner := .single (parent.2 ⟨rest, hl⟩)
      have rest_eq := h.parents inner p rest hl
      rcases hm with rfl | hm
      · exact .refl
      · exact (ih rest_eq.symm (by simpa using hm)).trans up
  · intro hm
    induction hm with
    | refl => exact .inl rfl
    | @tail b c _ hc ih =>
      obtain ⟨rest, hl⟩ := parent.1 hc
      have rest_eq := h.parents c b rest hl
      right
      rw [hl, rest_eq]
      simpa using ih

theorem Linked.isTaken_iff_held (h : s.Linked) : s.isTaken scope name ↔ s.Held scope name := by
  rw [isTaken_iff, Around, Within, Held]
  simp only [Aligned, ← h.mem_around]
  constructor
  · rintro (⟨i, hi, hx⟩ | ⟨i, hi, hx⟩)
    · exact ⟨i, .inl hi, hx⟩
    · exact ⟨i, .inr (hi.imp_left Eq.symm), hx⟩
  · rintro ⟨i, hi | hi, hx⟩
    · exact .inl ⟨i, hi, hx⟩
    · exact .inr ⟨i, hi.imp_left Eq.symm, hx⟩

/-! ## One name -/

/-- The name that is made up is the first spelling that is not taken. -/
theorem exists_candidate (s : Scopes) (scope : Nat) (name : String) :
    ∃ k, s.freshName scope name = candidate name k ∧
      ∀ j < k, s.isTaken scope (candidate name j) = true := by
  unfold freshName
  rw [List.find?_map]
  cases hf : (List.range (s.nameCount + 1)).find?
      ((fun c => !s.isTaken scope c) ∘ candidate name) with
  | none => exact ⟨0, rfl, fun j hj => absurd hj (Nat.not_lt_zero j)⟩
  | some k =>
    obtain ⟨-, -, before⟩ := List.find?_range_eq_some.1 hf
    exact ⟨k, rfl, fun j hj => by simpa using before j hj⟩

/-- What making up a name changes. -/
theorem namesOf_define (h : scope < s.scopes.length) (i : Nat) :
    (s.define scope name).2.namesOf i =
      if i = scope then (s.define scope name).1 :: s.namesOf i else s.namesOf i := by
  unfold define
  rw [namesOf_reserve i h]
  by_cases hi : i = scope
  · simp [hi]
  · simp [hi, Ne.symm hi]

theorem parent?_define (i : Nat) : (s.define scope name).2.parent? i = s.parent? i := by
  unfold define parent?
  rw [around_reserve]

theorem length_define : (s.define scope name).2.scopes.length = s.scopes.length := length_reserve

/-! ## One action after the other -/

theorem Linked.act (h : s.Linked) {a : Action} (ha : a.scope < s.scopes.length) :
    (s.act a).Linked := by
  cases a with
  | push parent => exact h.push ha
  | reserve scope name => exact h.reserve
  | define scope name => exact h.reserve

theorem grows_act {a : Action} (ha : a.scope < s.scopes.length) : s.Grows (s.act a) := by
  cases a with
  | push parent => exact grows_push
  | reserve scope name => exact grows_reserve ha
  | define scope name => exact grows_reserve ha

theorem Linked.actAll {actions : List Action} (h : s.Linked) (hl : s.Legal actions) :
    (s.actAll actions).Linked := by
  induction actions generalizing s with
  | nil => exact h
  | cons a rest ih => exact ih (h.act hl.1) hl.2

theorem grows_actAll {actions : List Action} (hl : s.Legal actions) :
    s.Grows (s.actAll actions) := by
  induction actions generalizing s with
  | nil => exact .refl s
  | cons a rest ih => exact (grows_act hl.1).trans (ih hl.2)

/-- Scopes that are open already lie inside each other as they did. -/
theorem Aligned.of_grows (h : s.Linked) (h' : s'.Linked) (hg : s.Grows s') {a b : Nat}
    (ha : a < s.scopes.length) (hb : b < s.scopes.length) (hab : s'.Aligned a b) :
    s.Aligned a b := by
  simp only [Aligned, ← h'.mem_around, ← h.mem_around] at hab ⊢
  rwa [hg.around a ha, hg.around b hb] at hab

/-- A name that is held is never made up again on a path through the scope that holds it. -/
theorem not_taken_of_given {actions : List Action} (h : s.Linked) (hl : s.Legal actions)
    {a : Nat} (ha : a < s.scopes.length) (hx : name ∈ s.namesOf a) :
    ∀ entry ∈ s.given actions, (s.actAll actions).Aligned a entry.1 → name ≠ entry.2 := by
  induction actions generalizing s with
  | nil => exact fun entry he => absurd he List.not_mem_nil
  | cons action rest ih =>
    obtain ⟨here, later⟩ := hl
    have grows := grows_act here
    have after := ih (h.act here) later (Nat.lt_of_lt_of_le ha grows.length) (grows.names a hx)
    cases action with
    | push parent => exact after
    | reserve scope hint => exact after
    | define scope hint =>
      refine List.forall_mem_cons.2 ⟨fun aligned same => ?_, after⟩
      have legal : s.Legal (.define scope hint :: rest) := ⟨here, later⟩
      have aligned := aligned.of_grows h (h.actAll legal) (grows_actAll legal) ha here
      have same : name = s.freshName scope hint := same
      rw [same] at hx
      have taken : s.isTaken scope (s.freshName scope hint) = true :=
        h.isTaken_iff_held.2 ⟨a, aligned, hx⟩
      have free := s.not_isTaken_freshName scope hint
      rw [taken] at free
      cases free

theorem pairwise_given {actions : List Action} (h : s.Linked) (hl : s.Legal actions) :
    (s.given actions).Pairwise fun x y => (s.actAll actions).Aligned x.1 y.1 → x.2 ≠ y.2 := by
  induction actions generalizing s with
  | nil => exact .nil
  | cons action rest ih =>
    obtain ⟨here, later⟩ := hl
    have after := ih (h.act here) later
    cases action with
    | push parent => exact after
    | reserve scope name => exact after
    | define scope name =>
      refine List.pairwise_cons.2 ⟨?_, after⟩
      have held : (s.define scope name).1 ∈ (s.define scope name).2.namesOf scope :=
        mem_namesOf_reserve here
      exact not_taken_of_given (h.act here) later (by rwa [act, length_define]) held

/-- After any history a name made up for a scope is the first of its spellings that is not held on a
path through the scope, and is recorded there and nowhere else; and no two names made up in the
history for scopes of which one lies inside the other are the same. -/
theorem names_never_collide {actions : List Action} (hl : initial.Legal actions) :
    (∀ scope < (initial.actAll actions).scopes.length, ∀ name,
      let s := initial.actAll actions
      let (fresh, s') := s.define scope name
      (∃ k, fresh = candidate name k ∧ ¬s.Held scope (candidate name k) ∧
        ∀ j < k, s.Held scope (candidate name j)) ∧
      s'.scopes.length = s.scopes.length ∧ (∀ i, s'.parent? i = s.parent? i) ∧
      ∀ i, s'.namesOf i = if i = scope then fresh :: s.namesOf i else s.namesOf i) ∧
    (initial.given actions).Pairwise fun x y =>
      (initial.actAll actions).Aligned x.1 y.1 → x.2 ≠ y.2 := by
  refine ⟨fun scope hs name => ?_, pairwise_given linked_initial hl⟩
  have linked := linked_initial.actAll hl
  generalize initial.actAll actions = s at hs linked
  obtain ⟨k, hk, before⟩ := s.exists_candidate scope name
  refine ⟨⟨k, hk, fun held => ?_, fun j hj => linked.isTaken_iff_held.1 (before j hj)⟩,
    length_define, parent?_define, namesOf_define hs⟩
  have free := s.not_isTaken_freshName scope name
  rw [hk, linked.isTaken_iff_held.2 held] at free
  cases free

/-- An outer scope asks after an inner one, for a name that looks as if it were numbered. -/
theorem names_never_collide_inward :
    let actions : List Action := [.push 0, .push 1, .reserve 0 "p", .define 2 "item",
      .define 1 "item", .define 2 "item_1", .define 1 "p"]
    initial.Legal actions ∧
    initial.given actions = [(2, "item"), (1, "item_1"), (2, "item_1_1"), (1, "p_1")] ∧
    (initial.given actions).Pairwise fun x y =>
      (initial.actAll actions).Aligned x.1 y.1 → x.2 ≠ y.2 := by
  intro actions
  have legal : initial.Legal actions := by
    simp [actions, Legal, act, initial, push, reserve, define, Action.scope]
  exact ⟨legal, by decide +kernel, (names_never_collide legal).2⟩

end Stencil.Expansion.Scopes
