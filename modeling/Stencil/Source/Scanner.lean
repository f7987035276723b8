import Stencil.Source.Lexeme
import Stencil.Source.Quoted
import Stencil.Text.Blank
import Stencil.Text.Numeric

/-!
# From text to lexemes

The scanner walks the characters of a text. Blanks, line comments and closed block comments are
skipped; names, numbers and operators take as many characters as they can. Every function here
counts the characters it takes beyond the first, so a step always moves forward.
-/
namespace Stencil.Source

/-- The number of bytes that `cs` takes in a text. -/
def byteLength (cs : List Char) : Nat := cs.foldl (fun total c => total + c.utf8Size) 0

/-- Operators and delimiters, each before its own beginnings. -/
def punctuation : List (List Char) :=
  [['=', '>'], ['=', '='], ['!', '='], ['<', '='], ['>', '='], ['&', '&'], ['|', '|'],
   ['+', '='], ['-', '='], ['+', '+'], ['-', '-'], ['+'], ['-'], ['*'], ['/'], ['%'], ['<'],
   ['>'], ['!'], ['='], ['('], [')'], ['\x7b'], ['\x7d'], ['['], [']'], [';'], [','], ['.'],
   ['?'], [':']]

/-- How many characters stand before a closing `*/`, the mark included. -/
def commentEnd : List Char → Option Nat
  | '*' :: '/' :: _ => some 2
  | _ :: rest => (commentEnd rest).map (· + 1)
  | [] => none

/-- The length, less one, of the blank run or comment that begins with `c`. -/
def trivia? (c : Char) (rest : List Char) : Option Nat :=
  if Text.isBlank c then some (rest.takeWhile Text.isBlank).length
  else match c, rest with
    | '/', '/' :: rest => some (1 + (rest.takeWhile (· != '\n')).length)
    | '/', '*' :: rest => (commentEnd rest).map (· + 1)
    | _, _ => none

def isNameStart (c : Char) : Bool := Text.isAlphabetic c || c == '_'

def isNameRest (c : Char) : Bool := Text.isAlphanumeric c || c == '_'

/-- A number's characters after its first digit: more digits, and a fraction if digits follow the
point. The flag tells a fraction. -/
def numberRest (rest : List Char) : Bool × List Char :=
  let whole := rest.takeWhile Char.isDigit
  match rest.dropWhile Char.isDigit with
  | '.' :: after =>
    let fraction := after.takeWhile Char.isDigit
    if fraction.isEmpty then (false, whole) else (true, whole ++ '.' :: fraction)
  | _ => (false, whole)

/-- The word that begins with `c`: its kind, its text and its length less one. -/
def word? (c : Char) (rest : List Char) : Option (LexemeKind × String × Nat) :=
  if isNameStart c then
    let more := rest.takeWhile isNameRest
    some (.ident, String.ofList (c :: more), more.length)
  else if c.isDigit then
    let (fraction, more) := numberRest rest
    some (if fraction then .float else .int, String.ofList (c :: more), more.length)
  else if c = '"' then
    (Quoted.decode '"' rest).map fun (value, n) => (.string, String.ofList value, n)
  else if c = '\'' then
    match Quoted.decode '\'' rest with
    | some ([value], n) => some (.char, value.toString, n)
    | _ => none
  else
    (punctuation.find? (·.isPrefixOf (c :: rest))).map fun p =>
      (.punct, String.ofList p, p.length - 1)

/-- The lexemes of `cs`, which starts at byte `offset` of a text. -/
def scan (offset : Nat) (cs : List Char) : Except SourceError (List Lexeme) :=
  match cs with
  | [] => .ok []
  | c :: rest =>
    match trivia? c rest with
    | some n => scan (offset + byteLength (c :: rest.take n)) (rest.drop n)
    | none =>
      match word? c rest with
      | some (kind, text, n) =>
        let stop := offset + byteLength (c :: rest.take n)
        match scan stop (rest.drop n) with
        | .ok more => .ok (⟨kind, text, ⟨offset, stop⟩⟩ :: more)
        | .error e => .error e
      | none =>
        let problem := if c = '"' || c = '\'' then .malformedLiteral else .unexpectedCharacter c
        .error ⟨problem, ⟨offset, offset + 1⟩⟩
termination_by cs.length
decreasing_by all_goals simp only [List.length_cons, List.length_drop]; omega

/-- The lexemes of a text. -/
def lexemes (source : String) : Except SourceError (List Lexeme) := scan 0 source.toList

/-- The lexemes of a text, closed by the one that marks its end. -/
def tokenize (source : String) : Except SourceError (List Lexeme) :=
  (lexemes source).map (· ++ [.endAt source.utf8ByteSize])

end Stencil.Source
