import Stencil.Json.Reader
import Stencil.Json.Writer

/-!
# Template arguments

An argument is given as a text. A text that is a data value stands for that value, an object for
its own text; any other text stands for itself, so that plain words need no quotes.
-/
namespace Stencil

/-- A value that a template can be given. -/
inductive Datum where
  | null
  | bool (b : Bool)
  | int (n : Int64)
  | float (x : Float)
  | string (s : String)
  | list (items : List Datum)

namespace Datum

/-- Integers that fit a word are integers, all other numbers are doubles. -/
def ofNumber : Json.Number → Datum
  | .int n =>
    if Int64.minValue.toInt ≤ n && n ≤ Int64.maxValue.toInt then int (.ofInt n)
    else float (.ofInt n)
  | .float x => float x

mutual

/-- The datum that a data value stands for, with `depth` levels of nesting left. -/
def ofJson? : Nat → Json.Value → Option Datum
  | _, .null => some null
  | _, .bool b => some (bool b)
  | _, .number n => n.read?.map ofNumber
  | _, .string s => s.map string
  | depth, .array vs => if depth ≤ 1 then none else (allOfJson? (depth - 1) vs).map list
  | depth, .object fs => (Json.write? depth (.object fs)).map string

def allOfJson? : Nat → List Json.Value → Option (List Datum)
  | _, [] => some []
  | depth, v :: vs => do
    let first ← ofJson? depth v
    let rest ← allOfJson? depth vs
    return first :: rest

end

/-- What an argument's text stands for. -/
def parse (text : String) : Datum :=
  ((Json.parse text).bind (ofJson? Json.depthLimit)).getD (string text)

end Datum

end Stencil
