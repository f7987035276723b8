import Stencil.Expansion.Returns
import Stencil.Expansion.Scopes
import Stencil.Expansion.Value

/-!
# Expansion contexts

Everything a generator needs to know about the method it is expanded into: the target, the values
of the template's parameters, and which names are taken there.
-/
namespace Stencil.Expansion

structure Context where
  target : Target
  /-- the values of template parameters; the first of a name counts -/
  arguments : List (String × Value)
  scopes : Scopes
  /-- the scope in which names are defined -/
  scope : Nat

namespace Context

/-- A context in which the names of the target's parameters are taken. -/
def ofTarget (target : Target) : Context :=
  ⟨target, [], target.parameters.foldl (fun s p => s.reserve 0 p.name) .initial, 0⟩

def argument? (c : Context) (name : String) : Option Value := c.arguments.lookup name

/-- A name for a generated local that neither shadows nor is shadowed. -/
def freshName (hint : String) : StateM Context String := do
  let c ← get
  let (name, scopes) := c.scopes.define c.scope hint
  set { c with scopes }
  return name

/-- Opens a scope inside the current one and returns the one to go back to. -/
def pushScope : StateM Context Nat := do
  let c ← get
  let (inner, scopes) := c.scopes.push c.scope
  set { c with scopes, scope := inner }
  return c.scope

def popScope (c : Context) (outer : Nat) : Context := { c with scope := outer }

/-- The statement for `return value;` in the target. -/
def returnStatement (value : Option Node) (dynamic : Bool) : StateM Context Node := do
  lowerReturn freshName (← get).target.result value dynamic

/-- The wrapped call, if the target can provide it in that form. -/
def provide (c : Context) (form : CallForm) : Except Fault Node :=
  if c.target.result.accepts form then .ok (wrappedCall c.target form)
  else .error (.formMismatch form c.target.name c.target.returns.text)

/-- `var name = <wrapped call>;` -/
def assignWrapped (c : Context) (name : Token) (form : CallForm) : Except Fault Node := do
  return .localDeclaration name (some (← c.provide form))

/-- `return <wrapped call>;`, as the target demands it. -/
def returnWrapped (form : CallForm) : StateT Context (Except Fault) Node := do
  let call ← (← get).provide form
  let (n, c) := (returnStatement (some call) false).run (← get)
  set c
  return n

end Context

end Stencil.Expansion
