import Stencil.Source.Grammar
import Stencil.Source.Scanner

/-!
# Parsing template text

The productions of `Stencil.Source.Grammar` refer to each other only through expressions and
statements; `expression` and `statement` tie that knot. Their fuel bounds how deeply code nests.
A text of `n` lexemes never needs more than `2n + 4`, since every second level takes a lexeme;
`Stencil.Proofs.Source.Fuel` proves it.

`parseUnit`, `parseStatement` and `parseExpression` read a whole text. The nodes they return are
not numbered yet.
-/
namespace Stencil.Source

open Parse

mutual

def expression : Nat → Parse Node
  | 0 => tooDeep
  | fuel + 1 => Grammar.expression (expression fuel) (statement fuel) fuel

def statement : Nat → Parse Node
  | 0 => tooDeep
  | fuel + 1 => Grammar.statement (expression fuel) (statement fuel) fuel

end

def templates (fuel : Nat) : Nat → Parse (List Node)
  | 0 => tooDeep
  | more + 1 => do
    if (← get).atEnd then return []
    let first ← Grammar.template (statement fuel) fuel
    return first :: (← templates fuel more)

/-- Runs a parser on a whole text; the parser is given enough fuel for it, as
`parseWith_ne_tooDeep` says. -/
def parseWith {α : Type} (parser : Nat → Parse α) (source : String) : Except SourceError α := do
  let ls ← lexemes source
  let (result, _) ← (parser (2 * ls.length + 4)).run ⟨ls, source.utf8ByteSize, 0⟩
  return result

/-- A file: any number of templates. Its node covers the whole text. -/
def parseUnit (source : String) : Except SourceError Node := do
  let ns ← parseWith (fun fuel => templates fuel fuel) source
  return ⟨0, .compilationUnit, ⟨0, source.utf8ByteSize⟩, [], Grammar.asNodes ns⟩

/-- A single statement and nothing else. -/
def parseStatement (source : String) : Except SourceError Node :=
  parseWith (fun fuel => do let n ← statement fuel; expectEnd; return n) source

/-- A single expression and nothing else. -/
def parseExpression (source : String) : Except SourceError Node :=
  parseWith (fun fuel => do let n ← expression fuel; expectEnd; return n) source

end Stencil.Source
