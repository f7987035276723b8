/-!
# Character classes given by code point ranges

A class of characters beyond ASCII is a list of closed code point ranges in increasing order.
Membership walks the list; `inRanges_iff` reads it as "some range holds the code point".
-/
namespace Stencil.Text

/-- Whether the code point of `c` lies in one of the closed ranges. -/
def inRanges (ranges : List (Nat × Nat)) (c : Char) : Bool :=
  ranges.any fun r => r.1 ≤ c.toNat && c.toNat ≤ r.2

theorem inRanges_iff {ranges : List (Nat × Nat)} {c : Char} :
    inRanges ranges c = true ↔ ∃ r ∈ ranges, r.1 ≤ c.toNat ∧ c.toNat ≤ r.2 := by
  simp [inRanges]

end Stencil.Text
