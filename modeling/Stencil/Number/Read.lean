/-!
# Reading numbers

`readWord` reads a signed 64-bit word: an optional sign and decimal digits, refused when out of
range. `readDouble` reads a decimal with optional point and exponent, or the words for infinity
and NaN in any case, and rounds to the nearest double.
-/
namespace Stencil.Number

/-- The value of a digit list. -/
def digitsValue (cs : List Char) : Nat :=
  cs.foldl (fun n c => 10 * n + (c.toNat - '0'.toNat)) 0

/-- Splits off a leading sign; the flag tells a minus. -/
def splitSign : List Char → Bool × List Char
  | '+' :: cs => (false, cs)
  | '-' :: cs => (true, cs)
  | cs => (false, cs)

def readWord (text : String) : Option Int64 :=
  let (negative, ds) := splitSign text.toList
  if ds.isEmpty || !ds.all Char.isDigit then none
  else
    let value : Int := if negative then -(digitsValue ds : Int) else digitsValue ds
    if Int64.minValue.toInt ≤ value && value ≤ Int64.maxValue.toInt then some (Int64.ofInt value)
    else none

/-- The double nearest to `significand · 10^exponent`. Exponents that leave the range of doubles
for any digit count are answered without raising ten to them. -/
def nearest (significand : Nat) (exponent : Int) : Float :=
  let size : Int := exponent + (Nat.toDigits 10 significand).length
  if significand = 0 then 0.0
  else if 400 < size then 1.0 / 0.0
  else if size < -400 then 0.0
  else Float.ofScientific significand (exponent < 0) exponent.natAbs

/-- An exponent part: nothing, or a mark, an optional sign and digits. -/
def readExponent : List Char → Option Int
  | [] => some 0
  | c :: cs =>
    if c == 'e' || c == 'E' then
      let (negative, ds) := splitSign cs
      if ds.isEmpty || !ds.all Char.isDigit then none
      else some (if negative then -(digitsValue ds : Int) else digitsValue ds)
    else none

/-- A decimal without its sign. -/
def readMagnitude (cs : List Char) : Option Float :=
  let whole := cs.takeWhile Char.isDigit
  let rest := cs.dropWhile Char.isDigit
  let (fraction, tail) := match rest with
    | '.' :: after => (after.takeWhile Char.isDigit, after.dropWhile Char.isDigit)
    | _ => ([], rest)
  if whole.isEmpty && fraction.isEmpty then none
  else (readExponent tail).map fun e =>
    nearest (digitsValue (whole ++ fraction)) (e - fraction.length)

def readDouble (text : String) : Option Float :=
  let (negative, cs) := splitSign text.toList
  let word := String.ofList (cs.map Char.toLower)
  let magnitude :=
    if word == "inf" || word == "infinity" then some (1.0 / 0.0)
    else if word == "nan" then some (0.0 / 0.0)
    else readMagnitude cs
  magnitude.map fun x => if negative then -x else x

end Stencil.Number
