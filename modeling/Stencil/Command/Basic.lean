import Stencil.Text.Blank

/-!
# Commands

What the program is asked to do, read from its arguments. Options are written `--name value` or
`--name=value` and may stand before or after the file; `--` ends them. An option other than
`--param` and `--arg` is given at most once.
-/
namespace Stencil

/-- What a template is expanded for. -/
structure Request where
  /-- the template; without it the file must have only one -/
  template : Option String
  method : String
  returns : String
  /-- the names and types of the method's parameters -/
  parameters : List (String × String)
  /-- the names and texts of the template's arguments -/
  arguments : List (String × String)
deriving DecidableEq, Repr

inductive Action where
  /-- show the stage of every piece of the text -/
  | classify
  /-- print the generators -/
  | compile
  /-- expand a template and print the body -/
  | expand (r : Request)
deriving DecidableEq, Repr

structure Command where
  action : Action
  file : String
  manifest : Option String
deriving DecidableEq, Repr

namespace Command

/-- An argument that is read as an option wherever it stands. -/
def isOption (arg : String) : Bool := arg.startsWith "-" && arg != "-"

/-- Splits a text at the first `separator`. -/
def splitOnce (separator : Char) (text : String) : Option (String × String) :=
  match text.toList.dropWhile (· != separator) with
  | [] => none
  | _ :: rest =>
    some (String.ofList (text.toList.takeWhile (· != separator)), String.ofList rest)

/-- Options by name, in order, and the arguments that are none. -/
structure Scanned where
  options : List (String × String)
  rest : List String

def Scanned.option (name value : String) (s : Scanned) : Scanned :=
  { s with options := (name, value) :: s.options }

/-- Sorts arguments into options of the known names and others. -/
def scan (known : List String) : List String → Option Scanned
  | [] => some ⟨[], []⟩
  | arg :: rest =>
    if arg = "--" then some ⟨[], rest⟩
    else if !isOption arg then (scan known rest).map fun s => { s with rest := arg :: s.rest }
    else
      match splitOnce '=' arg with
      | some (name, value) =>
        if known.contains name then (scan known rest).map (·.option name value) else none
      | none =>
        if !known.contains arg then none
        else
          match rest with
          | [] => none
          | value :: rest =>
            if isOption value then none else (scan known rest).map (·.option arg value)

/-- The values of an option, in order. -/
def Scanned.all (s : Scanned) (name : String) : List String :=
  (s.options.filter (·.1 == name)).map Prod.snd

/-- The value of an option that is given at most once. -/
def Scanned.single? (s : Scanned) (name : String) : Option (Option String) :=
  match s.all name with
  | [] => some none
  | [value] => some (some value)
  | _ => none

/-- A pair of a name and a value, both trimmed; the name must not be blank. -/
def pair? (separator : Char) (text : String) : Option (String × String) := do
  let (name, value) ← splitOnce separator text
  let name := Text.trim name
  if name.isEmpty then none else return (name, Text.trim value)

/-- The file and the manifest of a command. Names of files are not empty. -/
def inputs? (s : Scanned) : Option (String × Option String) := do
  let manifest ← s.single? "--env"
  match s.rest with
  | [file] => if file.isEmpty || manifest == some "" then none else return (file, manifest)
  | _ => none

def request? (s : Scanned) : Option Request := do
  return {
    template := ← s.single? "--template"
    method := (← s.single? "--method").getD "Target"
    returns := (← s.single? "--returns").getD "void"
    parameters := ← (s.all "--param").mapM (pair? ':')
    arguments := ← (s.all "--arg").mapM (pair? '=') }

/-- Reads a command; `none` if the arguments are not one. -/
def parse? (args : List String) : Option Command := do
  match args with
  | "classify" :: rest =>
    let (file, manifest) ← inputs? (← scan ["--env"] rest)
    return ⟨.classify, file, manifest⟩
  | "compile" :: rest =>
    let (file, manifest) ← inputs? (← scan ["--env"] rest)
    return ⟨.compile, file, manifest⟩
  | "expand" :: rest =>
    let s ← scan ["--env", "--template", "--method", "--returns", "--param", "--arg"] rest
    let (file, manifest) ← inputs? s
    return ⟨.expand (← request? s), file, manifest⟩
  | _ => none

end Command

end Stencil
