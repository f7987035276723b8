import Stencil.Stage
import Stencil.Symbol
import Stencil.Table
import Stencil.TypeExpr

/-!
# Environments

An environment holds the symbols that a template sees besides its own parameters and locals:
globals by name, and members by the type that has them. Each says what kind of entity it is, the
text of its type, and the stage at which it can be used.
-/
namespace Stencil

/-- A global or a member. For a method `type` is what it returns. -/
structure Member where
  kind : SymbolKind
  type : String
  stage : Stage
  /-- set on the symbol that stands for the call a template wraps -/
  deferred : Option CallForm
deriving DecidableEq, Repr

/-- The declared type; a text that is no type reads as unknown. -/
def Member.typeExpr (m : Member) : TypeExpr :=
  match TypeExpr.parse m.type with
  | .ok t => t
  | .error _ => .unknown

/-- The tables of an environment list their entries in the order of their names. -/
@[ext] structure Environment where
  globals : Table Member
  types : Table (Table Member)
  sortedGlobals : globals.Sorted
  sortedTypes : types.Sorted
  sortedMembers : ∀ entry ∈ types, entry.2.Sorted
deriving DecidableEq, Repr

namespace Environment

/-- The environment of lists of entries; of two entries with one name the later wins. -/
def ofEntries (globals : List (String × Member)) (types : List (String × List (String × Member))) :
    Environment where
  globals := .ofList globals
  types := .ofList (types.map fun (owner, members) => (owner, .ofList members))
  sortedGlobals := Table.sorted_ofList _
  sortedTypes := Table.sorted_ofList _
  sortedMembers := Table.forall_mem_ofList
    (List.forall_mem_map.2 fun _ _ => Table.sorted_ofList _)

def empty : Environment := ofEntries [] []

/-- Lays member tables over others; the entries of the later ones win, one member at a time. -/
def mergeTypes (types other : Table (Table Member)) : Table (Table Member) :=
  other.foldl (fun types (owner, members) =>
    types.insert owner (((types.get? owner).getD []).merge members)) types

theorem sorted_mergeTypes {types : Table (Table Member)} (h : types.Sorted)
    (hm : ∀ entry ∈ types, entry.2.Sorted) (other : Table (Table Member)) :
    (mergeTypes types other).Sorted ∧ ∀ entry ∈ mergeTypes types other, entry.2.Sorted := by
  unfold mergeTypes
  induction other generalizing types with
  | nil => exact ⟨h, hm⟩
  | cons entry rest ih =>
    refine ih (Table.sorted_insert h _ _) (Table.forall_mem_insert hm _ (Table.sorted_merge ?_ _))
    cases ho : types.get? entry.1 with
    | none => exact .nil
    | some members => exact hm _ (Table.mem_of_get? ho)

/-- Lays `other` over `e`; its entries win, one member at a time. -/
def merge (e other : Environment) : Environment where
  globals := e.globals.merge other.globals
  types := mergeTypes e.types other.types
  sortedGlobals := Table.sorted_merge e.sortedGlobals _
  sortedTypes := (sorted_mergeTypes e.sortedTypes e.sortedMembers _).1
  sortedMembers := (sorted_mergeTypes e.sortedTypes e.sortedMembers _).2

def global? (e : Environment) (name : String) : Option Member := e.globals.get? name

/-- The name under which the members of a type are listed. -/
def typeKey? : TypeExpr → Option String
  | .named name => some name
  | .string => some "string"
  | .list _ => some "List"
  | _ => none

/-- The member `name` of values of type `receiver`, with the type that has it. -/
def member? (e : Environment) (receiver : TypeExpr) (name : String) :
    Option (String × Member) := do
  let owner ← typeKey? receiver
  let members ← e.types.get? owner
  let m ← members.get? name
  return (owner, m)

/-- Globals by name, then members as `Owner.name`, each in the order of their tables. -/
def keys (e : Environment) : List String :=
  e.globals.names ++ e.types.flatMap fun (owner, members) =>
    members.names.map fun name => owner ++ "." ++ name

/-- The stage of a symbol: parameters exist at generation time only, locals and templates are
open, and all others are as the environment says. -/
def stageOf (e : Environment) (s : Symbol) : Stage :=
  match s.kind with
  | .parameter => .generationTime
  | .localVar | .template => .either
  | _ =>
    let m := match s.container with
      | some owner => (e.types.get? owner).bind (·.get? s.name)
      | none => e.globals.get? s.name
    (m.map Member.stage).getD .either

/-- The first entry whose type text does not parse: globals first, then members. -/
def badType? (e : Environment) : Option (String × MalformedType) :=
  let entries := e.globals ++ e.types.flatMap fun (owner, members) =>
    members.map fun (name, m) => (owner ++ "." ++ name, m)
  entries.findSome? fun (name, m) =>
    match TypeExpr.parse m.type with
    | .ok _ => none
    | .error err => some (name, err)

end Environment

end Stencil
