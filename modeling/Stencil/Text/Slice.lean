/-!
# Parts of a text by byte offsets

Spans count the bytes of a text in its usual encoding, one to four for a character. `slice` cuts
out the characters that start between two offsets.
-/
namespace Stencil.Text

/-- The characters that start from `start` on and before `stop`, where the first one starts at
`offset`. -/
def sliceFrom (offset start stop : Nat) : List Char → List Char
  | [] => []
  | c :: cs =>
    let rest := sliceFrom (offset + c.utf8Size) start stop cs
    if start ≤ offset && offset < stop then c :: rest else rest

def slice (s : String) (start stop : Nat) : String :=
  String.ofList (sliceFrom 0 start stop s.toList)

end Stencil.Text
