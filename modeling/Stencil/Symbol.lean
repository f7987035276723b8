/-!
# Symbols and deferred calls

A symbol is an entity that a name in a template stands for. Symbols are compared by value: two
resolutions of one entity give equal symbols. A symbol that stands for the call a template wraps
also says in which form the call is asked for.
-/
namespace Stencil

/-- The shapes that the call wrapped by a template can be asked for in. -/
inductive CallForm where
  | plain
  | awaitable
  | sequence
  | enumerator
  | asyncSequence
  | asyncEnumerator
deriving DecidableEq, Repr

namespace CallForm

def all : List CallForm :=
  [plain, awaitable, sequence, enumerator, asyncSequence, asyncEnumerator]

/-- The name that generator programs use. -/
def name : CallForm → String
  | plain => "Plain"
  | awaitable => "Awaitable"
  | sequence => "Sequence"
  | enumerator => "Enumerator"
  | asyncSequence => "AsyncSequence"
  | asyncEnumerator => "AsyncEnumerator"

def ofName? (s : String) : Option CallForm := all.find? (·.name == s)

/-- The spelling in environment manifests. -/
def key : CallForm → String
  | plain => "plain"
  | awaitable => "awaitable"
  | sequence => "sequence"
  | enumerator => "enumerator"
  | asyncSequence => "async-sequence"
  | asyncEnumerator => "async-enumerator"

def ofKey? (s : String) : Option CallForm := all.find? (·.key == s)

end CallForm

inductive SymbolKind where
  | localVar
  | parameter
  | method
  | property
  | field
  | type
  | nameSpace
  | template
deriving DecidableEq, Repr

namespace SymbolKind

def all : List SymbolKind :=
  [localVar, parameter, method, property, field, type, nameSpace, template]

def name : SymbolKind → String
  | localVar => "Local"
  | parameter => "Parameter"
  | method => "Method"
  | property => "Property"
  | field => "Field"
  | type => "Type"
  | nameSpace => "Namespace"
  | template => "Template"

/-- The spelling in environment manifests. -/
def key : SymbolKind → String
  | localVar => "local"
  | parameter => "parameter"
  | method => "method"
  | property => "property"
  | field => "field"
  | type => "type"
  | nameSpace => "namespace"
  | template => "template"

def ofKey? (s : String) : Option SymbolKind := all.find? (·.key == s)

end SymbolKind

structure Symbol where
  id : Nat
  name : String
  kind : SymbolKind
  /-- the type that declares a member -/
  container : Option String
  /-- the form of the wrapped call that the symbol stands for -/
  deferred : Option CallForm
deriving DecidableEq, Repr

namespace Symbol

def isLocal (s : Symbol) : Bool := s.kind == .localVar

/-- The name with its container, as messages show it. -/
def text (s : Symbol) : String :=
  match s.container with
  | some container => container ++ "." ++ s.name
  | none => s.name

end Symbol

end Stencil
