/-!
# Tables sorted by name

A table maps names to values and lists its entries in the order of their names, character by
character. Inserting under a name that is present replaces its value. A table that was made by
inserting is sorted (`sorted_insert`, `sorted_ofList`, `sorted_merge`).
-/
namespace Stencil

abbrev Table (α : Type) := List (String × α)

namespace Table

variable {α : Type}

def insert (name : String) (value : α) : Table α → Table α
  | [] => [(name, value)]
  | (key, old) :: rest =>
    if name < key then (name, value) :: (key, old) :: rest
    else if name = key then (name, value) :: rest
    else (key, old) :: insert name value rest

def get? (t : Table α) (name : String) : Option α := t.lookup name

/-- The table of a list of entries; of two entries with one name the later wins. -/
def ofList (entries : List (String × α)) : Table α :=
  entries.foldl (fun t (name, value) => t.insert name value) []

/-- Adds the entries of `other`, which win over those of `t`. -/
def merge (t other : Table α) : Table α :=
  other.foldl (fun t (name, value) => t.insert name value) t

def names (t : Table α) : List String := t.map Prod.fst

@[simp] theorem get?_nil (name : String) : get? ([] : Table α) name = none := rfl

theorem get?_cons (t : Table α) (key name : String) (value : α) :
    get? ((key, value) :: t) name = if name = key then some value else t.get? name := by
  by_cases h : name = key
  · simp [get?, h]
  · simp [get?, List.lookup_cons, beq_false_of_ne h, h]

@[simp] theorem get?_insert (t : Table α) (name other : String) (value : α) :
    (t.insert name value).get? other = if other = name then some value else t.get? other := by
  induction t with
  | nil => exact get?_cons [] name other value
  | cons entry rest ih =>
    obtain ⟨key, old⟩ := entry
    simp only [insert]
    split
    · rw [get?_cons]
    · split
      · next hk => subst hk; rw [get?_cons, get?_cons]; split <;> rfl
      · next hk =>
        rw [get?_cons, get?_cons, ih]
        by_cases h : other = key
        · simp [h, Ne.symm hk]
        · simp [h]

/-! ## Order -/

/-- The entries stand in the order of their names, each name once. -/
def Sorted (t : Table α) : Prop := t.names.Pairwise (· < ·)

theorem Sorted.nodup {t : Table α} (h : t.Sorted) : t.names.Nodup :=
  List.Pairwise.imp (R := (· < ·)) (fun hlt => by rintro rfl; exact String.lt_irrefl _ hlt) h

theorem mem_insert {t : Table α} {name : String} {value : α} {entry : String × α}
    (h : entry ∈ t.insert name value) : entry = (name, value) ∨ entry ∈ t := by
  induction t with
  | nil => exact .inl (List.mem_singleton.1 h)
  | cons first rest ih =>
    obtain ⟨key, old⟩ := first
    unfold insert at h
    split at h
    · exact List.mem_cons.1 h
    · split at h
      · exact (List.mem_cons.1 h).imp_right (List.mem_cons_of_mem _)
      · rcases List.mem_cons.1 h with rfl | h
        · exact .inr List.mem_cons_self
        · exact (ih h).imp_right (List.mem_cons_of_mem _)

theorem sorted_insert {t : Table α} (h : t.Sorted) (name : String) (value : α) :
    (t.insert name value).Sorted := by
  induction t with
  | nil => exact List.pairwise_singleton _ _
  | cons entry rest ih =>
    obtain ⟨key, old⟩ := entry
    obtain ⟨first, later⟩ := List.pairwise_cons.1 (show (key :: names rest).Pairwise (· < ·) from h)
    unfold insert
    split
    · next hlt =>
      refine List.pairwise_cons.2 ⟨fun other ho => ?_, h⟩
      rcases List.mem_cons.1 ho with rfl | ho
      · exact hlt
      · exact String.lt_trans hlt (first other ho)
    · next hlt =>
      split
      · next heq =>
        subst heq
        exact h
      · next hne =>
        refine List.pairwise_cons.2 ⟨fun other ho => ?_, ih later⟩
        obtain ⟨entry, he, rfl⟩ := List.mem_map.1 ho
        rcases mem_insert he with rfl | he
        · exact Std.lt_of_le_of_ne hlt (Ne.symm hne)
        · exact first _ (List.mem_map_of_mem he)

theorem sorted_merge {t : Table α} (h : t.Sorted) (t' : Table α) : (t.merge t').Sorted := by
  unfold merge
  induction t' generalizing t with
  | nil => exact h
  | cons entry rest ih => exact ih (sorted_insert h _ _)

theorem sorted_ofList (entries : List (String × α)) : (ofList entries).Sorted :=
  sorted_merge (t := []) .nil entries

/-! ## Values -/

theorem forall_mem_insert {P : α → Prop} {t : Table α} (h : ∀ entry ∈ t, P entry.2)
    (name : String) {value : α} (hv : P value) : ∀ entry ∈ t.insert name value, P entry.2 := by
  intro entry he
  rcases mem_insert he with rfl | he
  · exact hv
  · exact h entry he

/-- What holds of all values that are listed holds of all values of the table. -/
theorem forall_mem_ofList {P : α → Prop} {entries : List (String × α)}
    (h : ∀ entry ∈ entries, P entry.2) : ∀ entry ∈ ofList entries, P entry.2 := by
  have step (t : Table α) (ht : ∀ entry ∈ t, P entry.2) :
      ∀ entry ∈ entries.foldl (fun t (name, value) => t.insert name value) t, P entry.2 := by
    induction entries generalizing t with
    | nil => exact ht
    | cons first rest ih =>
      obtain ⟨here, there⟩ := List.forall_mem_cons.1 h
      exact ih there _ (forall_mem_insert ht _ here)
  exact step [] fun _ h => by cases h

theorem mem_of_get? {t : Table α} {name : String} {value : α} (h : t.get? name = some value) :
    (name, value) ∈ t := by
  obtain ⟨before, after, split, -⟩ := List.lookup_eq_some_iff.1 h
  exact split ▸ List.mem_append_right _ List.mem_cons_self

end Table

end Stencil
