import Stencil.Span

/-!
# Diagnostics

What a template author is told about a template that does not compile. A diagnostic belongs to the
phase that found it, points into the text, and carries the names it speaks of as properties.
Every diagnostic is an error.
-/
namespace Stencil

inductive Phase where
  | parsing
  | validation
  | classification
  | quoting
deriving DecidableEq, Repr

def Phase.name : Phase → String
  | parsing => "Parsing"
  | validation => "Validation"
  | classification => "Classification"
  | quoting => "Quoting"

/-- The colour in which a phase's diagnostics are shown. -/
def Phase.color : Phase → String
  | parsing => "Red"
  | validation => "Yellow"
  | classification => "Magenta"
  | quoting => "Cyan"

inductive Complaint where
  /-- the text does not parse -/
  | malformed
  /-- a generated value is used where one is needed at generation time -/
  | forcedTooEarly
  /-- one declaration groups variables of both stages -/
  | mixedDeclaration
  /-- a generation-time variable is assigned under a generated condition -/
  | assignedInGeneratedBranch
  /-- a jump of a generation-time loop stands under a generated condition -/
  | jumpInGeneratedBranch
  /-- a construct without a staged meaning -/
  | unsupported
  /-- a generation-time value that has no literal reaches generated code -/
  | notSerializable
  /-- the wrapped call stands in a wrong place, or a second time -/
  | wrappedCall
  /-- an identifier is spelled like a generator's own variables -/
  | reserved
deriving DecidableEq, Repr

namespace Complaint

def code : Complaint → String
  | malformed => "TS0001"
  | forcedTooEarly => "TS0101"
  | mixedDeclaration => "TS0102"
  | assignedInGeneratedBranch => "TS0103"
  | jumpInGeneratedBranch => "TS0104"
  | unsupported => "TS0201"
  | notSerializable => "TS0202"
  | wrappedCall => "TS0301"
  | reserved => "TS0401"

end Complaint

structure Diagnostic where
  complaint : Complaint
  phase : Phase
  span : Span
  message : String
  properties : List (String × String)
deriving DecidableEq, Repr

end Stencil
