import Stencil.Text.Printable

/-!
# Quoted texts in reports

`quoted` shows a text between double quotes so that every character can be told apart: the usual
escapes for quote, backslash and control characters, and `\u` with the code point in braces for
everything that is not printable on its own.
-/
namespace Stencil.Text

/-- The escape of one character inside a quoted text. -/
def escapeChar (c : Char) : String :=
  match c with
  | '\x00' => "\\0"
  | '\t' => "\\t"
  | '\r' => "\\r"
  | '\n' => "\\n"
  | '\\' => "\\\\"
  | '"' => "\\\""
  | _ =>
    if isAttachingMark c || !isPrintable c then
      "\\u\x7b" ++ String.ofList (Nat.toDigits 16 c.toNat) ++ "\x7d"
    else c.toString

def quoted (s : String) : String :=
  "\"" ++ String.join (s.toList.map escapeChar) ++ "\""

end Stencil.Text
