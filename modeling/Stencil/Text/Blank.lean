import Stencil.Text.Ranges

/-!
# White space

`isBlank` is the property *White_Space* of the character standard, which adds the vertical tab,
the form feed and the spaces of other scripts to the blanks of ASCII. `trim` cuts blanks from
both ends of a text.
-/
namespace Stencil.Text

/-- Every white space code point. -/
def blankRanges : List (Nat × Nat) := [
  (0x9, 0xD), (0x20, 0x20), (0x85, 0x85), (0xA0, 0xA0), (0x1680, 0x1680), (0x2000, 0x200A),
  (0x2028, 0x2029), (0x202F, 0x202F), (0x205F, 0x205F), (0x3000, 0x3000)]

def isBlank (c : Char) : Bool :=
  inRanges blankRanges c

/-- The characters of `cs` between its leading and its trailing blanks. -/
def trimChars (cs : List Char) : List Char :=
  ((cs.dropWhile isBlank).reverse.dropWhile isBlank).reverse

/-- `s` without leading and trailing blanks. -/
def trim (s : String) : String :=
  String.ofList (trimChars s.toList)

end Stencil.Text
