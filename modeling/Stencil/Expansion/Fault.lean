import Stencil.Defect
import Stencil.Symbol

/-!
# Why an expansion stops

An expansion stops at its first fault. A defect of a hand-made tree and running out of the budget
of steps are kept apart from faults: they are not the program's own errors.
-/
namespace Stencil.Expansion

/-- A value of the wrong type, or an operation that its operands do not have. -/
inductive TypeFault where
  | malformed (kind : NodeKind)
  | expected (what : String) (found : String)
  | cannotIterate (type : String)
  | cannotNegate (type : String)
  | cannotSplice (type : String)
  | cannotCombine (operator left right : String)
  | divisionByZero
  | outOfRange (index : Int) (length : Nat)
  | notChar (value : Int)
  | notCallable (type : String)
  | wrongCount (count given : Nat)
  | tooFew (function : String) (least : Nat)
  | notElement (type : String)
  | notTokenKind
  | notIdentifierToken
  | noText (kind : TokenKind)
  | lambdaWithoutBody
  | literalWithoutToken
  | malformedLiteral (text : String)
deriving DecidableEq, Repr

def TypeFault.message : TypeFault → String
  | malformed kind => s!"malformed {kind.name}"
  | expected what found => s!"expected {what}, found {found}"
  | cannotIterate type => s!"cannot iterate over {type}"
  | cannotNegate type => s!"cannot negate {type}"
  | cannotSplice type => s!"{type} cannot be spliced into generated code"
  | cannotCombine operator left right => s!"`{operator}` cannot combine {left} and {right}"
  | divisionByZero => "division by zero"
  | outOfRange index length => s!"index {index} is out of range for length {length}"
  | notChar value => s!"{value} is not a char"
  | notCallable type => s!"{type} is not callable"
  | wrongCount count given => s!"closure expects {count} arguments, got {given}"
  | tooFew function least => s!"`{function}` expects at least {least} arguments"
  | notElement type => s!"{type} is not a syntax element"
  | notTokenKind => "`Syntax.Token` expects a TokenKind"
  | notIdentifierToken => "`Context.CreateAssignStatement` expects an identifier token"
  | noText kind => s!"a `{kind.name}` token needs its text"
  | lambdaWithoutBody => "lambda without a body"
  | literalWithoutToken => "literal without a token"
  | malformedLiteral text => s!"malformed literal `{text}`"

inductive Fault where
  /-- the target cannot provide the wrapped call in that form -/
  | formMismatch (form : CallForm) (target returns : String)
  | undefined (name : String)
  | noMember (receiver member : String)
  | type (fault : TypeFault)
  | missingArgument (name : String)
  | unsupported (construct : String)
  /-- a jump with no loop around it in the same body -/
  | strayJump (jump : String)
  | noContext
  /-- the program ended without a tree -/
  | noResult
deriving DecidableEq, Repr

namespace Fault

/-- The kind of a fault, as reports name it. -/
def name : Fault → String
  | formMismatch .. => "FormMismatch"
  | undefined _ => "Undefined"
  | noMember .. => "NoMember"
  | type _ => "Type"
  | missingArgument _ => "MissingArgument"
  | unsupported _ => "Unsupported"
  | strayJump _ => "StrayJump"
  | noContext => "NoContext"
  | noResult => "NoResult"

def message : Fault → String
  | formMismatch form target returns =>
    s!"`{form.name}` deferred call does not fit target `{target}` returning `{returns}`"
  | undefined name => s!"undefined name `{name}`"
  | noMember receiver member => s!"`{receiver}` has no member `{member}`"
  | type fault => s!"type error: {fault.message}"
  | missingArgument name => s!"missing template argument `{name}`"
  | unsupported construct => s!"`{construct}` cannot be evaluated at generation time"
  | strayJump jump => s!"`{jump}` is not inside a generation-time loop"
  | noContext => "no expansion context is active on this thread"
  | noResult => "generator finished without producing a syntax tree"

end Fault

/-- Why an expansion did not finish. -/
inductive Stop where
  | fault (f : Fault)
  | defect (d : Defect)
  /-- the budget of steps is used up -/
  | exhausted
deriving DecidableEq, Repr

def Stop.message : Stop → String
  | fault f => f.message
  | defect d => d.message
  | exhausted => "the budget of steps is used up"

end Stencil.Expansion
