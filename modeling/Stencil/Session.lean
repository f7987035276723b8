import Stencil.Facts.Annotation
import Stencil.Quotation.Quoter
import Stencil.Reserved
import Stencil.Source.Parser
import Stencil.Staging.Classifier
import Stencil.Staging.Projection

/-!
# Compiling in a session

A text is compiled in stages: it is parsed, checked for reserved identifiers, annotated,
classified and quoted. A stage that reports anything stops those after it, so the diagnostics of a
compilation all come from one stage.

A session keeps one text and one environment, both of which may be replaced, and the facts of all
trees it has annotated. It remembers the tree and the annotated tree until the text, or for the
latter the environment, is replaced; what follows from them is computed again when asked for.
A session that was cancelled stops before the check for reserved identifiers.
-/
namespace Stencil

/-- How far a text got before its stages are inferred. -/
inductive Prepared where
  | malformed (e : Source.SourceError)
  | cancelled
  | invalid (diagnostics : List Diagnostic)
  /-- the annotated tree -/
  | ready (tree : Node)
deriving Repr

def Prepared.diagnostics : Prepared → List Diagnostic
  | malformed e => [⟨.malformed, .parsing, e.span, e.message, []⟩]
  | invalid ds => ds
  | cancelled | ready _ => []

structure Session where
  text : String
  environment : Environment
  cancelled : Bool
  /-- the facts of all trees annotated so far -/
  store : FactStore
  /-- the first node number not in use -/
  next : Nat
  /-- the tree of the current text, if it was asked for -/
  tree? : Option (Except Source.SourceError Node)
  /-- what the current text and environment came to, if that was asked for -/
  prepared? : Option Prepared

namespace Session

def start (text : String) (environment : Environment) : Session :=
  ⟨text, environment, false, .empty, 0, none, none⟩

/-! ## Replacing inputs -/

def setText (s : Session) (text : String) : Session :=
  { s with text, tree? := none, prepared? := none }

def setEnvironment (s : Session) (environment : Environment) : Session :=
  { s with environment, prepared? := none }

def cancel (s : Session) : Session := { s with cancelled := true }

/-! ## Asking for results -/

abbrev Asking := StateT Session (Except Defect)

/-- The numbered tree of the current text. -/
def tree : Asking (Except Source.SourceError Node) := do
  let s ← get
  match s.tree? with
  | some result => return result
  | none =>
    match Source.parseUnit s.text with
    | .error e =>
      set { s with tree? := some (.error e) }
      return .error e
    | .ok n =>
      let (n, next) := n.number s.next
      set { s with tree? := some (.ok n), next }
      return .ok n

/-- Checks and annotates a tree. -/
def prepareTree (n : Node) : Asking Prepared := do
  let s ← get
  if s.cancelled then return .cancelled
  match Reserved.check n with
  | [] =>
    let (annotated, store) ← s.store.learn s.environment n
    set { s with store }
    return .ready annotated
  | ds => return .invalid ds

/-- What the current text and environment come to. -/
def prepare : Asking Prepared := do
  match (← get).prepared? with
  | some p => return p
  | none =>
    let p ← match ← tree with
      | .error e => pure (.malformed e)
      | .ok n => prepareTree n
    modify fun s => { s with prepared? := some p }
    return p

/-- The classified tree, if the text could be annotated. -/
def classification : Asking (Option Classification) := do
  match ← prepare with
  | .ready n =>
    let s ← get
    return some (← classify s.store s.environment n)
  | _ => return none

/-- The text divided by stage, if it could be annotated. -/
def partition : Asking (Option Partition) := do
  return (← classification).map fun c => Staging.project c.tree

/-- The generators of an annotated tree; none if anything was reported. -/
def generators (store : FactStore) (environment : Environment) (n : Node) :
    Except Defect Compilation := do
  let c ← classify store environment n
  if c.diagnostics.isEmpty then
    let q := quoteTemplates store c.tree
    if q.diagnostics.isEmpty then return q else return ⟨[], q.diagnostics⟩
  else return ⟨[], c.diagnostics⟩

def compile : Asking Compilation := do
  match ← prepare with
  | .ready n =>
    let s ← get
    generators s.store s.environment n
  | p => return ⟨[], p.diagnostics⟩

end Session

/-- Compiles a text in a session of its own. -/
def compile (environment : Environment) (text : String) : Except Defect Compilation := do
  let (result, _) ← Session.compile.run (.start text environment)
  return result

end Stencil
