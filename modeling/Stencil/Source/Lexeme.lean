import Stencil.Span

/-!
# Lexemes and source errors

A lexeme is a word of the template language with the place it was read from. A source error says
what is wrong with a text and where; `SourceError.message` is the one place that words it.
-/
namespace Stencil.Source

inductive LexemeKind where
  | ident
  | int
  | float
  | string
  | char
  | punct
  | eof
deriving DecidableEq, Repr, Inhabited

/-- A word of the language. For string and character literals `text` is the value between the
quotes with its escapes undone. -/
structure Lexeme where
  kind : LexemeKind
  text : String
  span : Span
deriving DecidableEq, Repr, Inhabited

/-- Words that cannot be names. -/
def keywords : List String :=
  ["template", "var", "if", "else", "foreach", "in", "while", "do", "for", "return", "break",
   "continue", "goto", "switch", "case", "default", "lock", "function", "yield", "using",
   "await", "this", "true", "false", "null", "from", "where", "select"]

def isKeyword (text : String) : Bool := keywords.contains text

namespace Lexeme

/-- The lexeme after the last word of a text that is `length` bytes long. -/
def endAt (length : Nat) : Lexeme := ⟨.eof, "", ⟨length, length⟩⟩

def isPunct (l : Lexeme) (text : String) : Bool := l.kind == .punct && l.text == text

def isWord (l : Lexeme) (text : String) : Bool := l.kind == .ident && l.text == text

/-- Whether the word can name a variable. -/
def isName (l : Lexeme) : Bool := l.kind == .ident && !isKeyword l.text

/-- How an error names the word it met. -/
def shown (l : Lexeme) : String :=
  match l.kind with
  | .eof => "end of input"
  | .string => "string literal"
  | .char => "char literal"
  | _ => s!"`{l.text}`"

end Lexeme

/-- What the grammar would have accepted. -/
inductive Expectation where
  | spelling (text : String)
  | identifier
  | typeName
  | expression
  | sectionLabel
  | endOfInput
deriving DecidableEq, Repr

def Expectation.text : Expectation → String
  | spelling text => s!"`{text}`"
  | identifier => "identifier"
  | typeName => "type name"
  | expression => "expression"
  | sectionLabel => "`case` or `default`"
  | endOfInput => "end of input"

inductive Problem where
  | unexpectedCharacter (c : Char)
  /-- a literal without its closing quote, or a character literal that is not one character -/
  | malformedLiteral
  | expected (what : Expectation) (found : Lexeme)
  /-- the grammar was followed deeper than the text can nest -/
  | tooDeep
deriving DecidableEq, Repr

structure SourceError where
  problem : Problem
  span : Span
deriving DecidableEq, Repr

namespace SourceError

def message (e : SourceError) : String :=
  match e.problem with
  | .unexpectedCharacter c => s!"unexpected character `{c}`"
  | .malformedLiteral => "unterminated or malformed literal"
  | .expected what found => s!"expected {what.text}, found {found.shown}"
  | .tooDeep => "nested too deeply"

/-- The message with the place it belongs to. -/
def text (e : SourceError) : String := s!"{e.message} at {e.span.text}"

end SourceError

end Stencil.Source
