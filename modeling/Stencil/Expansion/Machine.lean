import Stencil.Argument
import Stencil.Expansion.Context

/-!
# The machine that runs generators

The machine holds what outlives a step: lists and frames of variables by their places, the
contexts that were set up, and the stack of those that are active. Built-in functions act on the
innermost active context, whatever program calls them.

A run keeps the machine also when it stops.
-/
namespace Stencil.Expansion

structure Machine where
  lists : Array (Array Value)
  /-- variables by name, latest first -/
  frames : Array (List (String × Value))
  /-- the next number for a node or an object -/
  identities : Nat
  /-- the next number for a closure -/
  closures : Nat
  contexts : Array Context
  /-- the contexts that were entered and not left, innermost first -/
  active : List Nat

abbrev Run := EStateM Stop Machine

namespace Machine

def initial : Machine := ⟨#[], #[], 0, 0, #[], []⟩

/-- Makes a context active and returns how many were before. -/
def enter (m : Machine) (context : Nat) : Nat × Machine :=
  (m.active.length, { m with active := context :: m.active })

/-- Goes back to the `depth` outermost active contexts. -/
def leave (m : Machine) (depth : Nat) : Machine :=
  { m with active := m.active.drop (m.active.length - depth) }

/-- The innermost active context. -/
def current? (m : Machine) : Option Context := m.active.head?.bind (m.contexts[·]?)

mutual

/-- Places a datum in the machine. -/
def load (m : Machine) : Datum → Value × Machine
  | .null => (.null, m)
  | .bool b => (.bool b, m)
  | .int n => (.int n, m)
  | .float x => (.float x, m)
  | .string s => (.string s, m)
  | .list items =>
    let (values, m) := loadAll m items
    (.list m.lists.size, { m with lists := m.lists.push values.toArray })

def loadAll (m : Machine) : List Datum → List Value × Machine
  | [] => ([], m)
  | d :: rest =>
    let (v, m) := load m d
    let (vs, m) := loadAll m rest
    (v :: vs, m)

end

/-- Sets up a context for a target and the arguments of a template; of two arguments with one name
the later counts. -/
def addContext (m : Machine) (target : Target) (arguments : List (String × Datum)) :
    Nat × Machine :=
  let (values, m) := m.loadAll (arguments.map Prod.snd)
  let named := ((arguments.map Prod.fst).zip values).reverse
  let context := { Context.ofTarget target with arguments := named }
  (m.contexts.size, { m with contexts := m.contexts.push context })

end Machine

/-! ## Elementary runs -/

def fail {α : Type} (f : Fault) : Run α := throw (.fault f)

def expect {α : Type} (otherwise : Fault) : Option α → Run α
  | some a => pure a
  | none => fail otherwise

def typed {α : Type} : Except TypeFault α → Run α
  | .ok a => pure a
  | .error e => fail (.type e)

def sound {α : Type} : Except Defect α → Run α
  | .ok a => pure a
  | .error d => throw (.defect d)

/-- A number that no other node and no object has. -/
def newIdentity : Run Nat :=
  modifyGet fun m => (m.identities, { m with identities := m.identities + 1 })

/-- A number that no other closure has. -/
def newClosure : Run Nat :=
  modifyGet fun m => (m.closures, { m with closures := m.closures + 1 })

/-- A node as a value of its own. -/
def newNode (n : Node) : Run Value := return .node { n with id := ← newIdentity }

def newObject (o : TargetObject) : Run Value := return .object (← newIdentity) o

/-- The place of a new list. -/
def newPlace (items : Array Value) : Run Nat :=
  modifyGet fun m => (m.lists.size, { m with lists := m.lists.push items })

def newList (items : Array Value) : Run Value := return .list (← newPlace items)

def listAt (place : Nat) : Run (Array Value) := return ((← get).lists[place]?).getD #[]

def appendTo (place : Nat) (items : List Value) : Run Unit :=
  modify fun m => { m with lists := m.lists.modify place (·.appendList items) }

/-- The items of a list as they are now, or the characters of a string. -/
def itemsOf : Value → Run (List Value)
  | .list place => return (← listAt place).toList
  | .string s => return s.toList.map .char
  | v => fail (.type (.cannotIterate v.typeName))

/-! ## Variables -/

/-- Opens a frame inside those of `env`. -/
def nestedIn (env : Scoping) : Run Scoping :=
  modifyGet fun m => (m.frames.size :: env, { m with frames := m.frames.push [] })

/-- Puts a variable into the innermost frame. -/
def define (env : Scoping) (name : String) (v : Value) : Run Unit :=
  match env with
  | [] => pure ()
  | frame :: _ => modify fun m =>
    { m with frames := m.frames.modify frame fun vars => (name, v) :: vars.filter (·.1 ≠ name) }

def Machine.valueOf? (m : Machine) (env : Scoping) (name : String) : Option Value :=
  env.findSome? fun frame => (m.frames[frame]?).bind (·.lookup name)

/-- Changes the innermost variable of that name; `false` if there is none. -/
def assignVariable (env : Scoping) (name : String) (v : Value) : Run Bool := do
  let m ← get
  match env.find? fun frame => ((m.frames[frame]?).bind (·.lookup name)).isSome with
  | none => return false
  | some frame =>
    set { m with frames := m.frames.modify frame fun vars =>
      (name, v) :: vars.filter (·.1 ≠ name) }
    return true

/-! ## Contexts -/

def contextAt (context : Nat) : Run Context := do expect .noContext (← get).contexts[context]?

/-- Runs an action of a context. -/
def onContext {α : Type} (context : Nat) (act : StateM Context α) : Run α := do
  let (a, c) := act.run (← contextAt context)
  modify fun m => { m with contexts := m.contexts.setIfInBounds context c }
  return a

/-- The number of the innermost active context. -/
def currentContext : Run Nat := do expect .noContext (← get).active.head?

/-- Runs `act`, then `cleanUp`, also when `act` stops. -/
def ensuring {α : Type} (act : Run α) (cleanUp : Machine → Machine) : Run α := fun m =>
  match act m with
  | .ok a m => .ok a (cleanUp m)
  | .error e m => .error e (cleanUp m)

/-- Runs `act` in a nested scope of the generated code of a context. With a result or a fault the
scope is left. A defect ends the program, so that the scope is left then, too, is a convention: no
run goes on with the machine. -/
def inNestedScope {α : Type} (context : Nat) (act : Run α) : Run α := do
  let outer ← onContext context Context.pushScope
  ensuring act fun m =>
    { m with contexts := m.contexts.modify context (·.popScope outer) }

/-- Runs `act` with the context active. -/
def entering {α : Type} (context : Nat) (act : Run α) : Run α := do
  let depth ← modifyGet (·.enter context)
  ensuring act (·.leave depth)

end Stencil.Expansion
