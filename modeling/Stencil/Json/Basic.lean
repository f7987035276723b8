import Stencil.Number.Read
import Stencil.Table

/-!
# Data texts

The values that a JSON text denotes, kept close to the text: numbers as their digits, objects as
the list of their fields in order, repeated names included, and a string whose escapes name no
character as a string without content. What to make of those is for each reader of the data.
-/
namespace Stencil.Json

/-- A number as it is spelled. -/
structure Numeral where
  negative : Bool
  whole : List Char
  fraction : List Char
  /-- the digits of an exponent and whether they count down -/
  exponent : Option (Bool × List Char)
deriving DecidableEq, Repr

inductive Value where
  | null
  | bool (b : Bool)
  | number (n : Numeral)
  /-- `none` when an escape names half of a character -/
  | string (text : Option String)
  | array (items : List Value)
  | object (fields : List (Option String × Value))
deriving Repr

/-- A number as programs see it: a 64-bit integer, signed or not, or a double. -/
inductive Number where
  | int (n : Int)
  | float (x : Float)

namespace Numeral

/-- The largest significand that is accumulated; further digits only move the point. -/
def maxSignificand : Nat := 0xFFFFFFFFFFFFFFFF

/-- Takes digits while the significand has room, and returns it with the digits left over. -/
def accumulate (significand : Nat) : List Char → Nat × List Char
  | [] => (significand, [])
  | c :: cs =>
    let next := 10 * significand + (c.toNat - '0'.toNat)
    if maxSignificand < next then (significand, c :: cs) else accumulate next cs

/-- `x · 10^exponent` by multiplications and divisions of doubles, at most 308 places at a time;
`none` when the result is infinite. -/
def scale (x : Float) (exponent : Int) : Nat → Option Float
  | 0 => some 0.0
  | fuel + 1 =>
    if exponent.natAbs ≤ 308 then
      let power := Number.nearest 1 exponent.natAbs
      if 0 ≤ exponent then
        let y := x * power
        if y.isInf then none else some y
      else some (x / power)
    else if x == 0.0 then some x
    else if 0 ≤ exponent then none
    else scale (x / Number.nearest 1 308) (exponent + 308) fuel

/-- The exponent part counts for at most 31 bits. -/
def maxExponent : Nat := 0x7FFFFFFF

/-- The value as a double; `none` when it is too large for one. Significands beyond 64 bits lose
their last digits, and the power of ten is applied in double arithmetic. -/
def toFloat? (n : Numeral) : Option Float :=
  let (significand, wholeRest) := accumulate 0 n.whole
  let (significand, fractionRest) := accumulate significand n.fraction
  let point : Int := wholeRest.length - (n.fraction.length - fractionRest.length : Nat)
  let sign (x : Float) : Float := if n.negative then -x else x
  let scaled (exponent : Int) : Option Float :=
    (scale (Float.ofNat significand) exponent (exponent.natAbs / 308 + 2)).map sign
  match n.exponent with
  | none => scaled point
  | some (down, ds) =>
    let e := Number.digitsValue ds
    if maxExponent < e then
      if significand != 0 && !down then none else some (sign 0.0)
    else scaled (if down then point - e else point + e)

/-- The number as programs see it. Minus zero and integers out of range are doubles. -/
def read? (n : Numeral) : Option Number :=
  let magnitude := Number.digitsValue n.whole
  if n.fraction.isEmpty && n.exponent.isNone then
    if n.negative then
      if 0 < magnitude && magnitude ≤ 0x8000000000000000 then some (.int (-(magnitude : Int)))
      else n.toFloat?.map .float
    else if magnitude ≤ maxSignificand then some (.int magnitude)
    else n.toFloat?.map .float
  else n.toFloat?.map .float

end Numeral

end Stencil.Json
