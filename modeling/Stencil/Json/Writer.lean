import Stencil.Json.Basic
import Stencil.Number.Shortest

/-!
# Writing data texts

`write?` writes a value without blanks, object fields in the order of their names, and of two
fields with one name the later. A value that programs cannot hold has no text: a number too large
for a double, a string without content, or nesting of `depthLimit` levels.
-/
namespace Stencil.Json

def hexText (n : Nat) : String :=
  let ds := Nat.toDigits 16 n
  String.ofList (List.replicate (4 - ds.length) '0' ++ ds)

def escapeChar (c : Char) : String :=
  match c with
  | '"' => "\\\""
  | '\\' => "\\\\"
  | '\x08' => "\\b"
  | '\x0c' => "\\f"
  | '\n' => "\\n"
  | '\r' => "\\r"
  | '\t' => "\\t"
  | _ => if c.toNat < 0x20 then "\\u" ++ hexText c.toNat else c.toString

def stringText (s : String) : String :=
  "\"" ++ String.join (s.toList.map escapeChar) ++ "\""

def Number.text : Number → String
  | int n => toString n
  | float x => Number.exponentText x

/-- Nesting from which on a value is refused. -/
def depthLimit : Nat := 128

mutual

/-- The text of a value with `depth` levels of nesting left. -/
def write? : Nat → Value → Option String
  | _, .null => some "null"
  | _, .bool b => some (if b then "true" else "false")
  | _, .number n => n.read?.map Number.text
  | _, .string s => s.map stringText
  | depth, .array vs =>
    if depth ≤ 1 then none
    else (writeAll? (depth - 1) vs).map fun ts => "[" ++ String.intercalate "," ts ++ "]"
  | depth, .object fs =>
    if depth ≤ 1 then none
    else (writeFields? (depth - 1) fs).map fun entries =>
      let texts := (Table.ofList entries).map fun (key, text) => stringText key ++ ":" ++ text
      "\x7b" ++ String.intercalate "," texts ++ "\x7d"

def writeAll? : Nat → List Value → Option (List String)
  | _, [] => some []
  | depth, v :: vs => do
    let first ← write? depth v
    let rest ← writeAll? depth vs
    return first :: rest

def writeFields? : Nat → List (Option String × Value) → Option (List (String × String))
  | _, [] => some []
  | depth, (key, v) :: fs => do
    let key ← key
    let text ← write? depth v
    let rest ← writeFields? depth fs
    return (key, text) :: rest

end

end Stencil.Json
