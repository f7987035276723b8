/-!
# Doubles as exact binary fractions

A finite double is a sign, a significand `m` and an exponent `q` with magnitude `m · 2^q`.
Everything exact about doubles (shortest digits, remainders, conversion to words) is computed on
that form in `Nat` arithmetic.
-/
namespace Stencil.Number

/-- A finite magnitude `significand · 2^exponent` with its sign. -/
structure Binary where
  negative : Bool
  significand : Nat
  exponent : Int
deriving DecidableEq, Repr

/-- The exact form of a double; `none` for infinities and NaN. -/
def Binary.ofFloat? (x : Float) : Option Binary :=
  let bits : Nat := x.toBits.toNat
  let negative := bits >>> 63 == 1
  let biased : Nat := (bits >>> 52) % 2048
  let fraction : Nat := bits % 0x10000000000000
  if biased = 2047 then none
  else if biased = 0 then some ⟨negative, fraction, -1074⟩
  else some ⟨negative, 0x10000000000000 + fraction, (biased : Int) - 1075⟩

/-- The sign bit, which also tells `-0` from `0`. -/
def isNegative (x : Float) : Bool :=
  x.toBits.toNat >>> 63 == 1

/-- The double nearest to an exact form whose significand fits in 53 bits. -/
def Binary.toFloat (b : Binary) : Float :=
  let magnitude := (Float.ofNat b.significand).scaleB b.exponent
  if b.negative then -magnitude else magnitude

/-- The integer part of the magnitude. -/
def Binary.whole (b : Binary) : Nat :=
  if b.exponent < 0 then b.significand >>> b.exponent.natAbs
  else b.significand <<< b.exponent.natAbs

/-- Truncation to a 64-bit word: values out of range stop at the nearest end, NaN gives zero. -/
def truncate (x : Float) : Int64 :=
  if x.isNaN then 0
  else match Binary.ofFloat? x with
    | none => if isNegative x then Int64.minValue else Int64.maxValue
    | some b =>
      let value : Int := if b.negative then -(b.whole : Int) else b.whole
      if value < Int64.minValue.toInt then Int64.minValue
      else if Int64.maxValue.toInt < value then Int64.maxValue
      else Int64.ofInt value

/-- The remainder of a division that truncates toward zero; it is exact and has the sign of the
dividend. -/
def remainder (x y : Float) : Float :=
  match Binary.ofFloat? x, Binary.ofFloat? y with
  | some a, some b =>
    if b.significand = 0 then 0.0 / 0.0
    else
      let e := min a.exponent b.exponent
      let num := a.significand <<< (a.exponent - e).natAbs
      let den := b.significand <<< (b.exponent - e).natAbs
      Binary.toFloat ⟨a.negative, num % den, e⟩
  | some _, none => if y.isNaN then y else x
  | none, _ => 0.0 / 0.0

/-- The larger number; a NaN gives way to the other operand, and of two zeros the second is
kept. -/
def larger (x y : Float) : Float :=
  if y.isNaN then x else if y < x then x else y

/-- The smaller number, with the same rule for NaN and zeros as `larger`. -/
def smaller (x y : Float) : Float :=
  if y.isNaN then x else if x < y then x else y

end Stencil.Number
