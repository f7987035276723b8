import Stencil.Number.Binary

/-!
# The fewest digits that read back

`shortest` finds, for a magnitude `m · 2^q`, the decimal with the fewest digits among those that
round to it, and of these the nearest one. It works on the interval of reals that round to the
value (ends included when `m` is even) and tests, for one digit, two digits and so on, the two
neighbours of the value on the grid of decimals with that many digits.

`plainText` writes the digits without an exponent, whatever their magnitude; `exponentText` is
the form of data files, which turns to an exponent, always signed, below `10^-5` and from `10^16`
on.
-/
namespace Stencil.Number

/-- Decimal digits, most significant first, of the value `0.d₁d₂… · 10^point`. -/
structure Digits where
  digits : List Nat
  point : Int
deriving DecidableEq, Repr

/-- Which neighbour wins when the value lies half-way between two of them. -/
inductive Tie where
  | up
  | even
deriving DecidableEq, Repr

/-- A positive rational, as numerator and denominator. -/
structure Ratio where
  num : Nat
  den : Nat

def Ratio.scale (r : Ratio) (twos tens : Int) : Ratio :=
  ⟨r.num * Nat.pow 2 twos.toNat * Nat.pow 10 tens.toNat,
   r.den * Nat.pow 2 (-twos).toNat * Nat.pow 10 (-tens).toNat⟩

/-- The number of decimal digits of the integer part, counted down below one. -/
def magnitude (r : Ratio) : Int :=
  let guess : Int := (Nat.log2 r.num : Int) - Nat.log2 r.den
  -- `guess · log₁₀ 2` is at most one off, so three candidates are enough
  let start := guess * 30103 / 100000 - 1
  let below (k : Int) : Bool :=
    let s := r.scale 0 (-k)
    s.num < s.den
  if below start then start
  else if below (start + 1) then start + 1
  else if below (start + 2) then start + 2
  else start + 3

/-- The grid point chosen for `r` among the multiples of one, if one lies in the interval whose
ends are `low` and `high`. -/
def pick (tie : Tie) (closed : Bool) (low value high : Ratio) : Option Nat :=
  let floor := value.num / value.den
  let above (n : Nat) : Bool :=
    if closed then low.num ≤ n * low.den else low.num < n * low.den
  let under (n : Nat) : Bool :=
    if closed then n * high.den ≤ high.num else n * high.den < high.num
  let downOk := above floor && 0 < floor
  let upOk := under (floor + 1)
  -- compares the distances to the two neighbours
  let twice := 2 * (value.num - floor * value.den)
  if value.num = floor * value.den then some floor
  else match downOk, upOk with
    | false, false => none
    | true, false => some floor
    | false, true => some (floor + 1)
    | true, true =>
      if twice < value.den then some floor
      else if value.den < twice then some (floor + 1)
      else match tie with
        | .up => some (floor + 1)
        | .even => some (if floor % 2 = 0 then floor else floor + 1)

/-- Tries grids of increasing fineness; `fuel` more digits may be spent. -/
def search (tie : Tie) (closed : Bool) (low value high : Ratio) (point : Int) :
    Nat → Nat → Nat × Int
  | 0, count =>
    let s := value.scale 0 (count - point)
    (s.num / s.den, point - count)
  | fuel + 1, count =>
    let k : Int := count - point
    match pick tie closed (low.scale 0 k) (value.scale 0 k) (high.scale 0 k) with
    | some n => (n, point - count)
    | none => search tie closed low value high point fuel (count + 1)

/-- Digits of `n` without trailing zeros, and how many were dropped. -/
def stripZeros (n : Nat) : List Nat × Nat :=
  let ds := (Nat.toDigits 10 n).map fun c => c.toNat - '0'.toNat
  let kept := (ds.reverse.dropWhile (· == 0)).reverse
  (kept, ds.length - kept.length)

/-- The shortest digits of a positive magnitude. -/
def shortest (tie : Tie) (b : Binary) : Digits :=
  let m := b.significand
  let q := b.exponent
  -- below a power of two the next smaller double is only half a step away
  let lowStep := if m = 0x10000000000000 && -1074 < q then 1 else 2
  let low := (Ratio.mk (4 * m - lowStep) 1).scale (q - 2) 0
  let value := (Ratio.mk m 1).scale q 0
  let high := (Ratio.mk (4 * m + 2) 1).scale (q - 2) 0
  let (n, e) := search tie (m % 2 == 0) low value high (magnitude value) 17 1
  let (ds, dropped) := stripZeros n
  ⟨ds, e + dropped + ds.length⟩

def digitsText (ds : List Nat) : String :=
  String.ofList (ds.map fun d => Char.ofNat ('0'.toNat + d))

def zeros (n : Nat) : String :=
  String.ofList (List.replicate n '0')

/-- Digits written out in full, without an exponent. -/
def Digits.plain (d : Digits) : String :=
  if d.point ≤ 0 then "0." ++ zeros d.point.natAbs ++ digitsText d.digits
  else
    let whole := d.point.toNat
    if d.digits.length ≤ whole then digitsText d.digits ++ zeros (whole - d.digits.length)
    else digitsText (d.digits.take whole) ++ "." ++ digitsText (d.digits.drop whole)

/-- A double as messages and values show it: shortest digits, never an exponent. -/
def plainText (x : Float) : String :=
  if x.isNaN then "NaN"
  else
    let sign := if isNegative x then "-" else ""
    match Binary.ofFloat? x with
    | none => sign ++ "inf"
    | some b => sign ++ if b.significand = 0 then "0" else (shortest .up b).plain

/-- A double as a literal: an integral value keeps a fraction so that it reads as a double. -/
def literalText (x : Float) : String :=
  let text := plainText x
  if text.toList.any (· == '.') || (Binary.ofFloat? x).isNone then text else text ++ ".0"

/-- Digits in the form of data files. -/
def Digits.scientific (d : Digits) : String :=
  if 0 < d.point && d.point ≤ 16 then
    let text := d.plain
    if d.digits.length ≤ d.point.toNat then text ++ ".0" else text
  else if -5 < d.point && d.point ≤ 0 then d.plain
  else
    let exponent := d.point - 1
    let e := (if 0 ≤ exponent then "+" else "") ++ toString exponent
    match d.digits with
    | [] => "0.0"
    | [only] => digitsText [only] ++ "e" ++ e
    | first :: rest => digitsText [first] ++ "." ++ digitsText rest ++ "e" ++ e

/-- A finite double as a data file holds it. -/
def exponentText (x : Float) : String :=
  let sign := if isNegative x then "-" else ""
  match Binary.ofFloat? x with
  | none => "null"
  | some b => sign ++ if b.significand = 0 then "0.0" else (shortest .even b).scientific

end Stencil.Number
