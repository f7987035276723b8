import Stencil.Source.Lexeme
import Stencil.Tree.Basic

/-!
# Reading lexemes one after another

A parser is a function on a cursor: the lexemes still to come, the length of the text and the end
of the last lexeme taken, which is where a node ends. The combinators here take one lexeme or
repeat another parser; their `fuel` bounds the repetitions and is never short, since each of them
takes a lexeme.
-/
namespace Stencil.Source

structure Cursor where
  rest : List Lexeme
  /-- the length of the text in bytes -/
  length : Nat
  lastEnd : Nat
deriving Repr

namespace Cursor

/-- The lexeme `n` places ahead; past the end, the one that marks the end. -/
def ahead (c : Cursor) (n : Nat) : Lexeme := c.rest[n]?.getD (.endAt c.length)

def peek (c : Cursor) : Lexeme := c.ahead 0

def start (c : Cursor) : Nat := c.peek.span.start

def atPunct (c : Cursor) (text : String) : Bool := c.peek.isPunct text

def atWord (c : Cursor) (text : String) : Bool := c.peek.isWord text

def atEnd (c : Cursor) : Bool := c.peek.kind == .eof

/-- Takes one lexeme; at the end there is nothing to take. -/
def advance (c : Cursor) : Cursor :=
  match c.rest with
  | [] => c
  | l :: rest => { c with rest := rest, lastEnd := l.span.stop }

/-- A node from `start` to the last lexeme taken. -/
def finish (c : Cursor) (kind : NodeKind) (start : Nat) (children : List (Child Node)) : Node :=
  ⟨0, kind, ⟨start, max c.lastEnd start⟩, [], children⟩

end Cursor

abbrev Parse := StateT Cursor (Except SourceError)

namespace Parse

def fail {α : Type} (what : Expectation) : Parse α := do
  let found := (← get).peek
  throw ⟨.expected what found, found.span⟩

/-- Gives up where the text cannot nest that deeply. -/
def tooDeep {α : Type} : Parse α := do
  throw ⟨.tooDeep, (← get).peek.span⟩

def bump : Parse Lexeme := do
  let c ← get
  set c.advance
  return c.peek

def eatPunct (text : String) : Parse Bool := do
  if (← get).atPunct text then
    let _ ← bump
    return true
  else return false

def eatWord (text : String) : Parse Bool := do
  if (← get).atWord text then
    let _ ← bump
    return true
  else return false

def expectPunct (text : String) : Parse Unit := do
  unless ← eatPunct text do fail (.spelling text)

def expectWord (text : String) : Parse Unit := do
  unless ← eatWord text do fail (.spelling text)

def expectEnd : Parse Unit := do
  unless (← get).atEnd do fail .endOfInput

/-- Takes the next lexeme as a token of that kind. -/
def takeToken (kind : TokenKind) : Parse Token := do
  let l ← bump
  return ⟨kind, l.text, l.span⟩

def identifier : Parse Token := do
  if (← get).peek.isName then takeToken .identifier else fail .identifier

/-- Takes the next lexeme if it is one of these operators. -/
def operator? (texts : List String) : Parse (Option Token) := do
  let l := (← get).peek
  if l.kind == .punct && texts.contains l.text then
    match TokenKind.ofOperator? l.text with
    | some kind => return some (← takeToken kind)
    | none => return none
  else return none

def finish (kind : NodeKind) (start : Nat) (children : List (Child Node)) : Parse Node := do
  return (← get).finish kind start children

def start : Parse Nat := do return (← get).start

/-- One or more items with commas between them. -/
def separated {α : Type} (item : Parse α) : Nat → Parse (List α)
  | 0 => tooDeep
  | fuel + 1 => do
    let first ← item
    if ← eatPunct "," then
      return first :: (← separated item fuel)
    else return [first]

/-- Items in brackets with commas between them, possibly none. -/
def bracketed {α : Type} (opening closing : String) (item : Parse α) (fuel : Nat) :
    Parse (List α) := do
  expectPunct opening
  let items ← if (← get).atPunct closing then pure [] else separated item fuel
  expectPunct closing
  return items

/-- Items up to a place where `stop` holds; the text must not end before it. -/
def itemsUntil {α : Type} (stop : Cursor → Bool) (item : Parse α) : Nat → Parse (List α)
  | 0 => tooDeep
  | fuel + 1 => do
    let c ← get
    if stop c then return []
    else if c.atEnd then fail (.spelling "\x7d")
    else
      let first ← item
      return first :: (← itemsUntil stop item fuel)

end Parse

end Stencil.Source
