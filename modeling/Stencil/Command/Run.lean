import Stencil.Command.Basic
import Stencil.Environment.Manifest
import Stencil.Environment.Standard
import Stencil.Registry
import Stencil.Session
import Stencil.Text.Escaped
import Stencil.Text.Slice

/-!
# Running commands

A command reads its template file and then its manifest, and comes to an outcome: what it prints,
what it complains about and with which code it ends. Reading is left to the caller.
-/
namespace Stencil

structure Outcome where
  exit : Nat
  output : String
  /-- complaints that are not about the template's text -/
  errors : List String
  diagnostics : List Diagnostic
  /-- a tree that a program built turned out to be malformed -/
  defect : Option Defect
deriving Repr

namespace Outcome

def success (output : String) : Outcome := ⟨0, output, [], [], none⟩

def failure (error : String) : Outcome := ⟨1, "", [error], [], none⟩

def rejected (diagnostics : List Diagnostic) : Outcome := ⟨1, "", [], diagnostics, none⟩

/-- The arguments are not a command. -/
def usage : Outcome := ⟨2, "", [], [], none⟩

def broken (d : Defect) : Outcome := ⟨101, "", [], [], some d⟩

end Outcome

namespace Command

def padLeft (width : Nat) (s : String) : String :=
  String.ofList (List.replicate (width - s.length) ' ') ++ s

def padRight (width : Nat) (s : String) : String :=
  s ++ String.ofList (List.replicate (width - s.length) ' ')

/-- One line for a cell of the text: its offsets, its stage and the text itself. -/
def cellLine (text : String) (c : Cell) : String :=
  padLeft 5 (toString c.start) ++ ".." ++ padRight 5 (toString c.stop) ++ " " ++
    padRight 16 c.stage.name ++ " " ++ Text.quoted (Text.slice text c.start c.stop) ++ "\n"

/-- Shows the stages, also when the classification has errors. -/
def classify (environment : Environment) (text : String) : Except Defect Outcome := do
  let (result, s) ← Session.classification.run (.start text environment)
  match result with
  | none =>
    let (compilation, _) ← Session.compile.run s
    return .rejected compilation.diagnostics
  | some c =>
    let cells := (Staging.project c.tree).covering text.utf8ByteSize
    return {
      exit := if c.diagnostics.isEmpty then 0 else 1
      output := String.join (cells.map (cellLine text))
      errors := []
      diagnostics := c.diagnostics
      defect := none }

def compile (environment : Environment) (text : String) : Except Defect Outcome := do
  let c ← Stencil.compile environment text
  if c.diagnostics.isEmpty then
    let programs ← c.generators.mapM fun g => g.program.pretty
    return .success (String.join (programs.map (· ++ "\n")))
  else return .rejected c.diagnostics

/-- The template to expand: the one asked for, or the only one there is. -/
def chosen (r : Registry) (template : Option String) : Except String String :=
  match template, r with
  | some name, _ => .ok name
  | none, [(name, _)] => .ok name
  | none, r => .error s!"the file has {r.length} templates; pick one with --template"

/-- The target that a request describes. -/
def targetOf (r : Request) : Except String Target := do
  let returns ← match TypeExpr.parse r.returns with
    | .ok t => pure t
    | .error e => throw s!"bad return type `{r.returns}`: {e.message}"
  let parameters ← r.parameters.mapM fun (name, type) =>
    match TypeExpr.parse type with
    | .ok t => pure ⟨name, t⟩
    | .error e => throw s!"bad type for parameter `{name}`: {e.message}"
  return ⟨r.method, returns, parameters⟩

def expand (environment : Environment) (text : String) (r : Request) :
    Except Defect Outcome := do
  let c ← Stencil.compile environment text
  if !c.diagnostics.isEmpty then return .rejected c.diagnostics
  let registry := Registry.ofGenerators c.generators
  match chosen registry r.template, targetOf r with
  | .error e, _ | _, .error e => return .failure e
  | .ok template, .ok target =>
    let arguments := r.arguments.map fun (name, text) => (name, Datum.parse text)
    match registry.expand template target arguments with
    | .ok body => return .success ((← body.pretty) ++ "\n")
    | .error (.stopped (.defect d)) => throw d
    | .error e => return .failure e.message

/-- Performs an action on a text. -/
def perform (action : Action) (environment : Environment) (text : String) : Outcome :=
  let result := match action with
    | .classify => classify environment text
    | .compile => compile environment text
    | .expand r => expand environment text r
  match result with
  | .ok outcome => outcome
  | .error d => .broken d

def unreadable (file reason : String) : Outcome := .failure s!"cannot read `{file}`: {reason}"

/-- Runs a command; `read` gives the text of a file or the reason why there is none. -/
def run {m : Type → Type} [Monad m] (read : String → m (Except String String)) (c : Command) :
    m Outcome := do
  match ← read c.file with
  | .error reason => return unreadable c.file reason
  | .ok text =>
    match c.manifest with
    | none => return perform c.action .standard text
    | some manifest =>
      match ← read manifest with
      | .error reason => return unreadable manifest reason
      | .ok entries =>
        match Environment.parse entries with
        | .error e => return .failure e.message
        | .ok e => return perform c.action (Environment.standard.merge e) text

/-- Runs the command that the arguments are, if they are one. -/
def runArguments {m : Type → Type} [Monad m] (read : String → m (Except String String))
    (args : List String) : m Outcome :=
  match parse? args with
  | some c => c.run read
  | none => return .usage

end Command

end Stencil
