import Stencil.Text.Blank

/-!
# Types of template expressions

The types that expressions and targets have. Two of them are special to staging: `dynamic` is the
type of values that are generated code, and `unknown` (written `?`) stands for a type that could
not be determined.

`parse` reads the text of a type. A text with an angle bracket is one of six known constructors
around an inner type; any other text that is not blank is a type, by its own name if no built-in
one matches.
-/
namespace Stencil

inductive TypeExpr where
  | void
  | bool
  | char
  | string
  | int
  | long
  | float
  | double
  | object
  | dynamic
  | named (name : String)
  | list (element : TypeExpr)
  | awaitable (result : TypeExpr)
  | sequence (element : TypeExpr)
  | enumerator (element : TypeExpr)
  | asyncSequence (element : TypeExpr)
  | asyncEnumerator (element : TypeExpr)
  | unknown
deriving DecidableEq, Repr, Inhabited

/-- A text that is not a type. -/
structure MalformedType where
  text : String
deriving DecidableEq, Repr

def MalformedType.message (e : MalformedType) : String := s!"malformed type `{e.text}`"

namespace TypeExpr

def isIntegral : TypeExpr → Bool
  | int | long => true
  | _ => false

def isFloating : TypeExpr → Bool
  | float | double => true
  | _ => false

def isNumeric (t : TypeExpr) : Bool := t.isIntegral || t.isFloating

/-- What awaiting a value of this type gives. -/
def awaited : TypeExpr → TypeExpr
  | awaitable result => result
  | t => t

/-- The type of the items of a list or sequence. -/
def element? : TypeExpr → Option TypeExpr
  | list t | sequence t | enumerator t | asyncSequence t | asyncEnumerator t => some t
  | _ => none

/-- The place of a numeric type in the order of promotion. -/
def rank? : TypeExpr → Option Nat
  | int => some 0
  | long => some 1
  | float => some 2
  | double => some 3
  | _ => none

/-- The wider of two numeric types. -/
def promote (l r : TypeExpr) : Option TypeExpr :=
  match l.rank?, r.rank? with
  | some i, some j => some (if j ≤ i then l else r)
  | _, _ => none

def text : TypeExpr → String
  | void => "void"
  | bool => "bool"
  | char => "char"
  | string => "string"
  | int => "int"
  | long => "long"
  | float => "float"
  | double => "double"
  | object => "object"
  | dynamic => "dynamic"
  | named name => name
  | list t => "List<" ++ t.text ++ ">"
  | awaitable t => "Task<" ++ t.text ++ ">"
  | sequence t => "IEnumerable<" ++ t.text ++ ">"
  | enumerator t => "IEnumerator<" ++ t.text ++ ">"
  | asyncSequence t => "IAsyncEnumerable<" ++ t.text ++ ">"
  | asyncEnumerator t => "IAsyncEnumerator<" ++ t.text ++ ">"
  | unknown => "?"

/-- The constructor written before an angle bracket. -/
def constructor? : String → Option (TypeExpr → TypeExpr)
  | "List" => some list
  | "Task" => some awaitable
  | "IEnumerable" => some sequence
  | "IEnumerator" => some enumerator
  | "IAsyncEnumerable" => some asyncSequence
  | "IAsyncEnumerator" => some asyncEnumerator
  | _ => none

/-- A type without angle brackets, from its trimmed text. -/
def ofName? : String → Option TypeExpr
  | "" => none
  | "void" => some void
  | "bool" => some bool
  | "char" => some char
  | "string" => some string
  | "int" => some int
  | "long" => some long
  | "float" => some float
  | "double" => some double
  | "object" => some object
  | "dynamic" => some dynamic
  | "?" => some unknown
  | name => some (named name)

/-- The characters between the first `<` and a closing `>` at the end of `cs`, where `cs` starts
with that `<`. -/
def inner? : List Char → Option (List Char)
  | [] => none
  | _ :: rest => if rest.getLast? = some '>' then some rest.dropLast else none

theorem length_trimChars_le (cs : List Char) : (Text.trimChars cs).length ≤ cs.length := by
  have drop (p : Char → Bool) (l : List Char) : (l.dropWhile p).length ≤ l.length :=
    (List.dropWhile_sublist p).length_le
  simp only [Text.trimChars, List.length_reverse]
  exact Nat.le_trans (drop _ _) (by rw [List.length_reverse]; exact drop _ _)

theorem length_lt_of_inner? {cs inner : List Char} (h : inner? cs = some inner) :
    inner.length < cs.length := by
  cases cs with
  | nil => simp [inner?] at h
  | cons c rest =>
    simp only [inner?, Option.ite_none_right_eq_some, Option.some.injEq] at h
    rw [← h.2, List.length_dropLast, List.length_cons]; omega

/-- Reads a type from its characters. -/
def parseChars (chars : List Char) : Except MalformedType TypeExpr :=
  let cs := Text.trimChars chars
  let head := cs.takeWhile (· != '<')
  match _hr : cs.dropWhile (· != '<') with
  | [] =>
    match ofName? (String.ofList cs) with
    | some t => .ok t
    | none => .error ⟨String.ofList cs⟩
  | bracket :: rest =>
    match _hi : inner? (bracket :: rest) with
    | none => .error ⟨String.ofList cs⟩
    | some inner =>
      match parseChars inner with
      | .error e => .error e
      | .ok t =>
        match constructor? (String.ofList head) with
        | some f => .ok (f t)
        | none => .error ⟨String.ofList cs⟩
termination_by chars.length
decreasing_by
  have h1 := length_lt_of_inner? _hi
  have h2 : (cs.dropWhile (· != '<')).length ≤ cs.length := (List.dropWhile_sublist _).length_le
  have h3 : cs.length ≤ chars.length := length_trimChars_le chars
  rw [_hr] at h2
  omega

def parse (text : String) : Except MalformedType TypeExpr := parseChars text.toList

end TypeExpr

end Stencil
