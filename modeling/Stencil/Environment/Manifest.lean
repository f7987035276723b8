import Stencil.Environment.Basic
import Stencil.Json.Reader

/-!
# Environment manifests

A manifest is a data text that lists globals and types. A record may be written with field names
or as a list of its fields in order; fields that nobody knows are passed over, a known field must
not be given twice, and `stage` and `deferred` may be left out. Within a list of entries the last
one of a name counts.
-/
namespace Stencil

/-- Why a manifest was refused. -/
inductive ManifestError where
  /-- the text is not a manifest -/
  | malformed
  /-- the type of an entry does not parse -/
  | badType (entry : String) (error : MalformedType)
deriving DecidableEq, Repr

def ManifestError.message : ManifestError → String
  | malformed => "invalid environment manifest"
  | badType entry error => s!"in `{entry}`: {error.message}"

namespace Manifest

open Json (Value)

/-- The fields of a record by name, each `none` if it was left out. A field given twice, a name
without content or too many positions refuse the record. -/
def record (names : List String) : Value → Option (List (Option Value))
  | .object fs =>
    if fs.any fun f => f.1.isNone then none
    else names.mapM fun name =>
      match fs.filter fun f => f.1 == some name with
      | [] => some none
      | [f] => some (some f.2)
      | _ => none
  | .array vs =>
    if names.length < vs.length then none
    else some (vs.map some ++ List.replicate (names.length - vs.length) none)
  | _ => none

/-- A name from a fixed vocabulary, as a string or as the only field of an object. -/
def choice {α : Type} (ofKey? : String → Option α) : Value → Option α
  | .string (some s) => ofKey? s
  | .object [(some s, .null)] => ofKey? s
  | _ => none

def text : Value → Option String
  | .string s => s
  | _ => none

/-- Entries by name, each read by `f`. -/
def entries {α : Type} (f : Value → Option α) : Value → Option (List (String × α))
  | .object fs => fs.mapM fun (field : Option String × Value) => do
      let key ← field.1
      let entry ← f field.2
      return (key, entry)
  | _ => none

/-- A field that was left out takes a default. -/
def orElse {α : Type} (default : α) (f : Value → Option α) : Option Value → Option α
  | none => some default
  | some v => f v

def form : Value → Option (Option CallForm)
  | .null => some none
  | v => (choice CallForm.ofKey? v).map some

def member (v : Value) : Option Member := do
  match ← record ["kind", "type", "stage", "deferred"] v with
  | [some kind, some type, stage, deferred] =>
    return {
      kind := ← choice SymbolKind.ofKey? kind
      type := ← text type
      stage := ← orElse .either (choice Stage.ofName?) stage
      deferred := ← orElse none form deferred }
  | _ => none

def environment (v : Value) : Option Environment := do
  match ← record ["globals", "types"] v with
  | [globals, types] =>
    return .ofEntries (← orElse [] (entries member) globals)
      (← orElse [] (entries (entries member)) types)
  | _ => none

end Manifest

/-- Reads a manifest and checks the types of its entries. -/
def Environment.parse (manifest : String) : Except ManifestError Environment :=
  match (Json.parse manifest).bind Manifest.environment with
  | none => .error .malformed
  | some e =>
    match e.badType? with
    | some (entry, error) => .error (.badType entry error)
    | none => .ok e

end Stencil
