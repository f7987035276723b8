/-!
# Scopes of generated names

Generated locals must neither capture nor be captured, so a name is taken for a scope when the
scope itself, one around it, or one inside it has it. A name that is taken gets the smallest free
number: `x`, `x_1`, `x_2`. Scopes are numbered in the order they are opened, the outermost being
zero.
-/
namespace Stencil.Expansion

structure Scope where
  /-- the scopes around this one, innermost first -/
  around : List Nat
  names : List String
deriving DecidableEq, Repr

structure Scopes where
  scopes : List Scope
deriving DecidableEq, Repr

namespace Scopes

/-- One scope without names. -/
def initial : Scopes := ⟨[⟨[], []⟩]⟩

def around (s : Scopes) (scope : Nat) : List Nat := ((s.scopes[scope]?).map Scope.around).getD []

/-- Opens a scope inside `parent`. -/
def push (s : Scopes) (parent : Nat) : Nat × Scopes :=
  (s.scopes.length, ⟨s.scopes ++ [⟨parent :: s.around parent, []⟩]⟩)

def parent? (s : Scopes) (scope : Nat) : Option Nat := (s.around scope).head?

/-- Records that a name is taken in a scope. -/
def reserve (s : Scopes) (scope : Nat) (name : String) : Scopes :=
  ⟨s.scopes.modify scope fun sc => { sc with names := name :: sc.names }⟩

/-- Whether `inner` is `outer` or lies inside it. -/
def isWithin (s : Scopes) (inner outer : Nat) : Bool :=
  inner == outer || (s.around inner).contains outer

/-- Whether the scope, one around it or one inside it has the name. -/
def isTaken (s : Scopes) (scope : Nat) (name : String) : Bool :=
  s.scopes.zipIdx.any fun (sc, other) =>
    sc.names.contains name && (s.isWithin scope other || s.isWithin other scope)

/-- The spellings that are tried for a name, in order. -/
def candidate (name : String) : Nat → String
  | 0 => name
  | k => s!"{name}_{k}"

/-- How many names are recorded, in all scopes. -/
def nameCount (s : Scopes) : Nat := s.scopes.foldl (fun total sc => total + sc.names.length) 0

/-- The first spelling of a name that is not taken. One more spelling than there are names is
tried, so one of them is free. -/
def freshName (s : Scopes) (scope : Nat) (name : String) : String :=
  (((List.range (s.nameCount + 1)).map (candidate name)).find? fun c =>
    !s.isTaken scope c).getD name

/-- Defines a name in a scope, respelled if it is taken. -/
def define (s : Scopes) (scope : Nat) (name : String) : String × Scopes :=
  let fresh := s.freshName scope name
  (fresh, s.reserve scope fresh)

end Scopes

end Stencil.Expansion
