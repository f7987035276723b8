import Stencil.Expansion.Interpreter
import Stencil.Quotation.Quoter
import Stencil.Table

/-!
# Registries

A registry holds generators by the names of their templates. A generator registered under a name
that is taken replaces the earlier one.
-/
namespace Stencil

abbrev Registry := Table Generator

inductive RegistryError where
  | unknown (template : String)
  | stopped (why : Expansion.Stop)
deriving DecidableEq, Repr

def RegistryError.message : RegistryError → String
  | unknown template => s!"no generator for template `{template}`"
  | stopped why => why.message

namespace Registry

def empty : Registry := []

/-- Adds a generator and returns the one that it replaces. -/
def register (r : Registry) (g : Generator) : Option Generator × Registry :=
  (Table.get? r g.template, Table.insert g.template g r)

def ofGenerators (gs : List Generator) : Registry :=
  gs.foldl (fun r g => (register r g).2) empty

/-- Expands the generator of a template. -/
def expand (r : Registry) (template : String) (target : Target)
    (arguments : List (String × Datum)) : Except RegistryError Node :=
  match Table.get? r template with
  | none => .error (.unknown template)
  | some g => (Stencil.expand target arguments g.program).mapError .stopped

end Registry

end Stencil
