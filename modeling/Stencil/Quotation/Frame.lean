import Stencil.Diagnostic
import Stencil.Symbol

/-!
# Generated blocks under construction

A generator program collects the statements of each generated block in a variable of its own, the
block's accumulator. A frame stands for one block: it names the accumulator and the variables that
hold the names of the locals which the block declares. Frames nest as the blocks do.
-/
namespace Stencil.Quotation

structure Frame where
  accumulator : String
  /-- the variables that hold the names of generated locals, latest first -/
  locals : List (Symbol × String)
deriving DecidableEq, Repr

structure State where
  /-- the block being built -/
  frame : Frame
  /-- the blocks around it, innermost first -/
  outer : List Frame
  /-- the number of the next accumulator -/
  accumulators : Nat
  /-- the number of the next variable that holds a name -/
  names : Nat
  diagnostics : List Diagnostic
deriving Repr

abbrev Quoter := StateM State

def accumulatorName (n : Nat) : String := s!"__s{n}"

def holderName (name : String) (n : Nat) : String := s!"__{name}_{n}"

/-- The state in which the body of a template is quoted. -/
def State.initial : State := ⟨⟨accumulatorName 0, []⟩, [], 1, 0, []⟩

/-- The state after a nested block: the block around it goes on. -/
def State.leave (s : State) : State :=
  match s.outer with
  | [] => s
  | frame :: outer => { s with frame, outer }

/-- The accumulator of the block being built. -/
def accumulator : Quoter String := return (← get).frame.accumulator

/-- Builds a nested block: `build` runs with a frame of its own. -/
def nested {α : Type} (build : Quoter α) : Quoter α := do
  modify fun s => { s with
    frame := ⟨accumulatorName s.accumulators, []⟩
    outer := s.frame :: s.outer
    accumulators := s.accumulators + 1 }
  let a ← build
  modify State.leave
  return a

/-- A new variable that holds the name of a generated local. A local that was not resolved gets a
variable that no reference finds. -/
def declare (name : String) (v : Option Symbol) : Quoter String := do
  let s ← get
  let holder := holderName name s.names
  let locals := match v with
    | some v => (v, holder) :: s.frame.locals
    | none => s.frame.locals
  set { s with frame := { s.frame with locals }, names := s.names + 1 }
  return holder

/-- The variable that holds the name of a local, in this block or one around it. -/
def State.holder? (s : State) (v : Symbol) : Option String :=
  (s.frame :: s.outer).findSome? (·.locals.lookup v)

def report (d : Diagnostic) : Quoter Unit :=
  modify fun s => { s with diagnostics := s.diagnostics ++ [d] }

end Stencil.Quotation
