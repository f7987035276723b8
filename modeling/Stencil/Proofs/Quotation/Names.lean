import Stencil.Proofs.Expansion.FreshNames
import Stencil.Quotation.Frame
import Stencil.Reserved

/-!
# The variables of generator programs

A generator names its own variables by number: accumulators, and variables that hold the name of a
generated local. All of them are reserved, no holder is an accumulator, and holders with different
numbers have different names.
-/
namespace Stencil.Quotation

theorem isReserved_of_toList {name : String} {rest : List Char}
    (h : name.toList = '_' :: '_' :: rest) : Reserved.isReserved name := by
  refine String.startsWith_string_iff.2 ⟨rest, ?_⟩
  rw [h]
  simp [Reserved.mark]

theorem toList_accumulatorName (k : Nat) :
    (accumulatorName k).toList = '_' :: '_' :: 's' :: (toString k).toList := by
  have parts : accumulatorName k = "__s" ++ toString k := rfl
  rw [parts, String.toList_append]
  rfl

theorem toList_holderName (hint : String) (k : Nat) :
    (holderName hint k).toList = '_' :: '_' :: (hint.toList ++ '_' :: (toString k).toList) := by
  have parts : holderName hint k = "__" ++ hint ++ "_" ++ toString k := rfl
  simp [parts]

theorem isReserved_accumulatorName (k : Nat) : Reserved.isReserved (accumulatorName k) :=
  isReserved_of_toList (toList_accumulatorName k)

theorem isReserved_holderName (hint : String) (k : Nat) :
    Reserved.isReserved (holderName hint k) :=
  isReserved_of_toList (toList_holderName hint k)

/-- The characters after the last underscore. -/
def ending (name : String) : List Char := (name.toList.reverse.takeWhile (· ≠ '_')).reverse

theorem isDigit_of_mem_toString {k : Nat} {c : Char} (h : c ∈ (toString k).toList) : c.isDigit := by
  rw [Nat.toString_eq_ofList_toDigits] at h
  exact Nat.isDigit_of_mem_toDigits (b := 10) (by decide) (by decide) (by simpa using h)

theorem ending_eq {name : String} (before : List Char) {after : List Char}
    (h : name.toList = before ++ '_' :: after) (hafter : '_' ∉ after) : ending name = after := by
  have every : ∀ c ∈ after.reverse, decide (c ≠ '_') = true := by
    intro c hc
    simp only [decide_eq_true_eq]
    rintro rfl
    exact hafter (List.mem_reverse.1 hc)
  have cut : (after.reverse ++ '_' :: before.reverse).takeWhile (· ≠ '_') = after.reverse := by
    rw [List.takeWhile_append_of_pos every]
    simp
  rw [ending, h, List.reverse_append, List.reverse_cons, List.append_assoc, List.singleton_append,
    cut, List.reverse_reverse]

theorem not_mem_toString (k : Nat) : '_' ∉ (toString k).toList :=
  fun h => absurd (isDigit_of_mem_toString h) (by decide)

theorem ending_holderName (hint : String) (k : Nat) :
    ending (holderName hint k) = (toString k).toList :=
  ending_eq ('_' :: '_' :: hint.toList) (toList_holderName hint k) (not_mem_toString k)

theorem ending_accumulatorName (k : Nat) :
    ending (accumulatorName k) = 's' :: (toString k).toList := by
  refine ending_eq ['_'] (toList_accumulatorName k) ?_
  rw [List.mem_cons, not_or]
  exact ⟨by decide, not_mem_toString k⟩

/-- The name of a holder tells its number. -/
theorem holderName_injective {hint hint' : String} {k k' : Nat}
    (h : holderName hint k = holderName hint' k') : k = k' := by
  have endings := congrArg ending h
  rw [ending_holderName, ending_holderName] at endings
  exact Expansion.Scopes.toString_injective (String.toList_inj.1 endings)

theorem accumulatorName_injective {k k' : Nat} (h : accumulatorName k = accumulatorName k') :
    k = k' := by
  have endings := congrArg ending h
  rw [ending_accumulatorName, ending_accumulatorName] at endings
  exact Expansion.Scopes.toString_injective (String.toList_inj.1 (List.cons.inj endings).2)

theorem holderName_ne_accumulatorName (hint : String) (k k' : Nat) :
    holderName hint k ≠ accumulatorName k' := by
  intro h
  have endings := congrArg ending h
  rw [ending_holderName, ending_accumulatorName] at endings
  have digit : 's'.isDigit := isDigit_of_mem_toString (endings ▸ List.mem_cons_self)
  exact absurd digit (by decide)

end Stencil.Quotation
