import Stencil.Expansion.Fault
import Stencil.Number.Binary
import Stencil.Number.Shortest
import Stencil.Target
import Stencil.Tree.Build
import Stencil.Tree.Render

/-!
# Values of generator programs

Besides plain data, programs work with the nodes and tokens they build, with the objects that
describe their target, and with closures. Lists are shared: the value of a list is its place in
the machine. Objects, closures and nodes are told apart by a number that each gets when it is
made, so two objects are equal only if they are the same one.
-/
namespace Stencil.Expansion

/-- The built-in globals. -/
inductive Builtin where
  | nodes
  | context
  | tokenKinds
  | callForms
  | math
deriving DecidableEq, Repr

def Builtin.name : Builtin → String
  | nodes => "Syntax"
  | context => "Context"
  | tokenKinds => "TokenKind"
  | callForms => "DeferredCallForm"
  | math => "Math"

def Builtin.all : List Builtin := [nodes, context, tokenKinds, callForms, math]

def Builtin.ofName? (s : String) : Option Builtin := all.find? (·.name == s)

/-- Objects through which a program inspects its target. -/
inductive TargetObject where
  /-- the global `meta` -/
  | root (target : Target)
  | target (target : Target)
  | method (target : Target)
  | parameter (index : Nat) (parameter : TargetParameter)
deriving DecidableEq, Repr

def TargetObject.typeName : TargetObject → String
  | root _ => "Meta"
  | target _ => "Target"
  | method _ => "Method"
  | parameter .. => "Parameter"

/-- The frames of variables visible at a point of a program, innermost first. -/
abbrev Scoping := List Nat

structure Closure where
  parameters : List String
  body : Node
  captured : Scoping
deriving Repr

inductive Value where
  | null
  | bool (b : Bool)
  | int (n : Int64)
  | float (x : Float)
  | char (c : Char)
  | string (s : String)
  /-- the list at a place of the machine -/
  | list (place : Nat)
  | node (n : Node)
  | token (t : Token)
  | tokenKind (k : TokenKind)
  | form (f : CallForm)
  | object (identity : Nat) (o : TargetObject)
  | closure (identity : Nat) (c : Closure)
  | builtin (b : Builtin)
deriving Inhabited

namespace Value

def typeName : Value → String
  | null => "null"
  | bool _ => "bool"
  | int _ => "int"
  | float _ => "double"
  | char _ => "char"
  | string _ => "string"
  | list _ => "List"
  | node _ => "SyntaxNode"
  | token _ => "SyntaxToken"
  | tokenKind _ => "TokenKind"
  | form _ => "DeferredCallForm"
  | object _ o => o.typeName
  | closure .. => "closure"
  | builtin _ => "namespace"

/-- The text of a value, as concatenation and conversion to a string write it. -/
def text : Value → Except Defect String
  | null => .ok ""
  | bool b => .ok (if b then "true" else "false")
  | int n => .ok (toString n.toInt)
  | float x => .ok (Number.plainText x)
  | char c => .ok c.toString
  | string s => .ok s
  | node n => n.compact
  | token t => .ok t.text
  | tokenKind k => .ok k.name
  | form f => .ok f.name
  | v => .ok v.typeName

def asBool : Value → Except TypeFault Bool
  | bool b => .ok b
  | v => .error (.expected "bool" v.typeName)

/-- A word; a character counts as its code point. -/
def asInt : Value → Except TypeFault Int64
  | int n => .ok n
  | char c => .ok (.ofNat c.toNat)
  | v => .error (.expected "int" v.typeName)

def asFloat : Value → Except TypeFault Float
  | float x => .ok x
  | int n => .ok n.toFloat
  | v => .error (.expected "a number" v.typeName)

/-- A string, or the text of a token. -/
def asText : Value → Except TypeFault String
  | string s => .ok s
  | token t => .ok t.text
  | v => .error (.expected "a string" v.typeName)

def asForm : Value → Except TypeFault CallForm
  | form f => .ok f
  | v => .error (.expected "a DeferredCallForm" v.typeName)

/-- Equality as programs see it. Numbers are equal across types, and what is shared or numbered is
equal only to itself. -/
def same : Value → Value → Bool
  | null, null => true
  | bool a, bool b => a == b
  | int a, int b => a == b
  | int a, float b => a.toFloat == b
  | float a, int b => a == b.toFloat
  | float a, float b => a == b
  | char a, char b => a == b
  | string a, string b => a == b
  | list a, list b => a == b
  | node a, node b => a.id == b.id
  | token a, token b => a == b
  | tokenKind a, tokenKind b => a == b
  | form a, form b => a == b
  | object a _, object b _ => a == b
  | closure a _, closure b _ => a == b
  | builtin a, builtin b => a == b
  | _, _ => false

end Value

/-- The code that a parameter object stands for when it is spliced as a whole. -/
def TargetObject.node? : TargetObject → Option Node
  | parameter _ p => some (.identifier p.name)
  | _ => none

end Stencil.Expansion
