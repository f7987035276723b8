import Mathlib.Data.List.Nodup
import Mathlib.Data.List.Perm.Subperm
import Stencil.Expansion.Context

/-!
# Names that are free

A name made up for a scope is not in use there, around it or inside it. More spellings are tried
than there are names, so one of them is free; and scopes only grow, so a name that was found in
use stays in use.

Results:

* `Scopes.not_isTaken_freshName` – the name that is made up is free;
* `Scopes.Grows` – what opening scopes and recording names keep;
* `Scopes.within_of_push` – what is inside a nested scope is inside the scope around it.
-/
namespace Stencil.Expansion.Scopes

/-! ## Names in use -/

def namesOf (s : Scopes) (i : Nat) : List String := ((s.scopes[i]?).map Scope.names).getD []

/-- The scope or one around it has the name. -/
def Around (s : Scopes) (scope : Nat) (x : String) : Prop :=
  ∃ i, (i = scope ∨ i ∈ s.around scope) ∧ x ∈ s.namesOf i

/-- The scope or one inside it has the name. -/
def Within (s : Scopes) (scope : Nat) (x : String) : Prop :=
  ∃ i, (i = scope ∨ scope ∈ s.around i) ∧ x ∈ s.namesOf i

theorem lt_of_mem_namesOf {s : Scopes} {i : Nat} {x : String} (h : x ∈ s.namesOf i) :
    i < s.scopes.length := by
  unfold namesOf at h
  by_contra hi
  rw [List.getElem?_eq_none (by omega)] at h
  simp at h

theorem lt_of_mem_around {s : Scopes} {i j : Nat} (h : j ∈ s.around i) : i < s.scopes.length := by
  unfold around at h
  by_contra hi
  rw [List.getElem?_eq_none (by omega)] at h
  simp at h

theorem isTaken_iff {s : Scopes} {scope : Nat} {x : String} :
    s.isTaken scope x ↔ s.Around scope x ∨ s.Within scope x := by
  have entry (i : Nat) (sc : Scope) (h : s.scopes[i]? = some sc) : s.namesOf i = sc.names := by
    simp [namesOf, h]
  simp only [isTaken, List.any_eq_true, Prod.exists, Bool.and_eq_true, List.contains_iff_mem,
    Bool.or_eq_true, isWithin, beq_iff_eq, List.mem_zipIdx_iff_getElem?]
  constructor
  · rintro ⟨sc, i, hi, hx, h | h⟩
    · exact .inl ⟨i, h.imp_left Eq.symm, entry i sc hi ▸ hx⟩
    · exact .inr ⟨i, h, entry i sc hi ▸ hx⟩
  · rintro (⟨i, h, hx⟩ | ⟨i, h, hx⟩)
    · have hi := List.getElem?_eq_getElem (lt_of_mem_namesOf hx)
      exact ⟨_, i, hi, entry i _ hi ▸ hx, .inl (h.imp_left Eq.symm)⟩
    · have hi := List.getElem?_eq_getElem (lt_of_mem_namesOf hx)
      exact ⟨_, i, hi, entry i _ hi ▸ hx, .inr h⟩

/-! ## A free spelling -/

theorem toString_injective {i j : Nat} (h : toString i = toString j) : i = j := by
  rw [Nat.toString_eq_ofList_toDigits, Nat.toString_eq_ofList_toDigits] at h
  have digits := String.ofList_injective h
  have read := congrArg (fun ds => Nat.ofDigitChars 10 ds 0) digits
  simpa using read

theorem toList_candidate (name : String) (k : Nat) :
    (candidate name (k + 1)).toList = name.toList ++ '_' :: (toString (k + 1)).toList := by
  have parts : candidate name (k + 1) = name ++ "_" ++ toString (k + 1) := rfl
  simp [parts]

theorem candidate_injective (name : String) {i j : Nat} (h : candidate name i = candidate name j) :
    i = j := by
  have bare (k : Nat) : candidate name (k + 1) ≠ name := by
    intro h
    have lengths := congrArg List.length (congrArg String.toList h)
    rw [toList_candidate] at lengths
    simp at lengths
  match i, j, h with
  | 0, 0, _ => rfl
  | 0, j + 1, h => exact absurd h.symm (bare j)
  | i + 1, 0, h => exact absurd h (bare i)
  | i + 1, j + 1, h =>
    have chars := congrArg String.toList h
    rw [toList_candidate, toList_candidate] at chars
    have numbers := List.append_cancel_left chars
    simp only [List.cons.injEq, true_and] at numbers
    exact toString_injective (String.toList_inj.1 numbers)

/-- All names of all scopes. -/
def allNames (s : Scopes) : List String := s.scopes.flatMap Scope.names

theorem nameCount_eq (s : Scopes) : s.nameCount = s.allNames.length := by
  have total (scs : List Scope) (k : Nat) :
      scs.foldl (fun total sc => total + sc.names.length) k =
        k + (scs.flatMap Scope.names).length := by
    induction scs generalizing k with
    | nil => rfl
    | cons sc scs ih =>
      rw [List.foldl_cons, ih, List.flatMap_cons, List.length_append]
      omega
  rw [nameCount, total, Nat.zero_add]
  rfl

theorem mem_allNames_of_isTaken {s : Scopes} {scope : Nat} {x : String} (h : s.isTaken scope x) :
    x ∈ s.allNames := by
  obtain ⟨⟨sc, i⟩, hsc, h⟩ := List.any_eq_true.1 h
  simp only [Bool.and_eq_true, List.contains_iff_mem] at h
  exact List.mem_flatMap.2 ⟨sc, (List.mem_zipIdx' hsc).2 ▸ List.getElem_mem _, h.1⟩

/-- The name made up for a scope is free there. -/
theorem not_isTaken_freshName (s : Scopes) (scope : Nat) (name : String) :
    s.isTaken scope (s.freshName scope name) = false := by
  unfold freshName
  cases hf : ((List.range (s.nameCount + 1)).map (candidate name)).find? fun c =>
      !s.isTaken scope c with
  | some c => simpa using List.find?_some hf
  | none =>
    -- all spellings are in use, but they are more than the names
    have taken := List.find?_eq_none.1 hf
    have subset : (List.range (s.nameCount + 1)).map (candidate name) ⊆ s.allNames := by
      intro c hc
      exact mem_allNames_of_isTaken (by simpa using taken c hc)
    have nodup : ((List.range (s.nameCount + 1)).map (candidate name)).Nodup :=
      List.nodup_range.map fun _ _ => candidate_injective name
    have := (List.subperm_of_subset nodup subset).length_le
    rw [List.length_map, List.length_range, nameCount_eq] at this
    omega

/-! ## Scopes grow -/

/-- Every scope around another lies in the same scopes as that one. -/
def Nested (s : Scopes) : Prop :=
  ∀ i, ∀ j ∈ s.around i, j < s.scopes.length ∧ s.around j ⊆ s.around i

theorem nested_initial : Nested initial := by
  intro i j hj
  cases i <;> simp [around, initial] at hj

/-- `s'` has the scopes of `s`, where they were, with at least their names. -/
structure Grows (s s' : Scopes) : Prop where
  length : s.scopes.length ≤ s'.scopes.length
  around : ∀ i < s.scopes.length, s'.around i = s.around i
  names : ∀ i, s.namesOf i ⊆ s'.namesOf i

theorem Grows.refl (s : Scopes) : s.Grows s := ⟨Nat.le_refl _, fun _ _ => rfl, fun _ _ hx => hx⟩

theorem Grows.trans {s t u : Scopes} (h : s.Grows t) (h' : t.Grows u) : s.Grows u :=
  ⟨Nat.le_trans h.length h'.length,
    fun i hi => (h'.around i (Nat.lt_of_lt_of_le hi h.length)).trans (h.around i hi),
    fun i _ hx => h'.names i (h.names i hx)⟩

section

variable {s s' : Scopes} {scope : Nat} {x : String}

theorem Around.grow (h : s.Around scope x) (hg : s.Grows s') : s'.Around scope x := by
  obtain ⟨i, hi, hx⟩ := h
  refine ⟨i, hi.imp_right fun hi => ?_, hg.names i hx⟩
  rw [hg.around scope (lt_of_mem_around hi)]
  exact hi

theorem Within.grow (h : s.Within scope x) (hg : s.Grows s') : s'.Within scope x := by
  obtain ⟨i, hi, hx⟩ := h
  refine ⟨i, hi.imp_right fun hi => ?_, hg.names i hx⟩
  rw [hg.around i (lt_of_mem_namesOf hx)]
  exact hi

theorem Around.of_mem (h : x ∈ s.namesOf scope) : s.Around scope x := ⟨scope, .inl rfl, h⟩

theorem Within.of_mem (h : x ∈ s.namesOf scope) : s.Within scope x := ⟨scope, .inl rfl, h⟩

end

/-! ## Recording a name -/

section

variable {s : Scopes} {scope : Nat} {x : String}

theorem around_reserve (i : Nat) : (s.reserve scope x).around i = s.around i := by
  unfold reserve around
  rw [List.getElem?_modify]
  split
  · next h =>
    subst h
    cases s.scopes[scope]? <;> rfl
  · cases s.scopes[i]? <;> rfl

theorem namesOf_reserve (i : Nat) (h : scope < s.scopes.length) :
    (s.reserve scope x).namesOf i = if scope = i then x :: s.namesOf i else s.namesOf i := by
  unfold reserve namesOf
  rw [List.getElem?_modify]
  split
  · next hi =>
    subst hi
    rw [List.getElem?_eq_getElem h]
    rfl
  · cases s.scopes[i]? <;> rfl

theorem length_reserve : (s.reserve scope x).scopes.length = s.scopes.length :=
  List.length_modify ..

theorem grows_reserve (h : scope < s.scopes.length) : s.Grows (s.reserve scope x) := by
  refine ⟨Nat.le_of_eq length_reserve.symm, fun i _ => around_reserve i, fun i y hy => ?_⟩
  rw [namesOf_reserve i h]
  split
  · exact List.mem_cons_of_mem _ hy
  · exact hy

theorem Nested.reserve (h : s.Nested) : (s.reserve scope x).Nested := by
  intro i j hj
  rw [length_reserve, around_reserve, around_reserve]
  exact h i j (around_reserve i ▸ hj)

theorem mem_namesOf_reserve (h : scope < s.scopes.length) :
    x ∈ (s.reserve scope x).namesOf scope := by
  rw [namesOf_reserve scope h, if_pos rfl]
  exact List.mem_cons_self

end

/-! ## Opening a scope -/

section

variable {s : Scopes} {outer : Nat}

theorem around_push_self : (s.push outer).2.around (s.push outer).1 = outer :: s.around outer := by
  simp [push, around]

theorem getElem?_push {i : Nat} (h : i < s.scopes.length) :
    (s.push outer).2.scopes[i]? = s.scopes[i]? :=
  List.getElem?_append_left h

theorem around_push {i : Nat} (h : i < s.scopes.length) :
    (s.push outer).2.around i = s.around i := by
  rw [around, getElem?_push h]
  rfl

theorem length_push : (s.push outer).2.scopes.length = s.scopes.length + 1 := by
  simp [push]

theorem grows_push : s.Grows (s.push outer).2 := by
  refine ⟨by rw [length_push]; omega, fun i hi => around_push hi, fun i x hx => ?_⟩
  rw [namesOf, getElem?_push (lt_of_mem_namesOf hx)]
  exact hx

theorem Nested.push (h : s.Nested) (ho : outer < s.scopes.length) : (s.push outer).2.Nested := by
  intro i j hj
  rw [length_push]
  by_cases hi : i < s.scopes.length
  · rw [around_push hi] at hj ⊢
    obtain ⟨hlt, hsub⟩ := h i j hj
    rw [around_push hlt]
    exact ⟨by omega, hsub⟩
  · obtain rfl : i = (s.push outer).1 := by
      have hlt := lt_of_mem_around hj
      have hfirst : (s.push outer).1 = s.scopes.length := rfl
      rw [length_push] at hlt
      omega
    rw [around_push_self] at hj ⊢
    rcases List.mem_cons.1 hj with rfl | hj
    · rw [around_push ho]
      exact ⟨by omega, List.subset_cons_self _ _⟩
    · obtain ⟨hlt, hsub⟩ := h outer j hj
      rw [around_push hlt]
      exact ⟨by omega, List.subset_cons_of_subset _ hsub⟩

/-- What is in use around a scope is in use around a scope opened in it. -/
theorem Around.push {x : String} (h : s.Around outer x) :
    (s.push outer).2.Around (s.push outer).1 x := by
  obtain ⟨i, hi, hx⟩ := h
  refine ⟨i, .inr ?_, grows_push.names i hx⟩
  rw [around_push_self]
  rcases hi with rfl | hi
  · exact List.mem_cons_self
  · exact List.mem_cons_of_mem _ hi

/-- What is inside a scope opened in another is inside that other. -/
theorem within_of_push {s' : Scopes} {x : String} (hg : (s.push outer).2.Grows s')
    (hn : s'.Nested) (h : s'.Within (s.push outer).1 x) : s'.Within outer x := by
  have inside : outer ∈ s'.around (s.push outer).1 := by
    rw [hg.around _ (by rw [length_push]; exact Nat.lt_succ_self _), around_push_self]
    exact List.mem_cons_self
  obtain ⟨i, hi, hx⟩ := h
  refine ⟨i, .inr ?_, hx⟩
  rcases hi with rfl | hi
  · exact inside
  · exact (hn i _ hi).2 inside

end

end Stencil.Expansion.Scopes
