/-!
# Binding-time stages

A stage says when a piece of template code runs. `generationTime` code runs while a template is
expanded, `generated` code is written into the target, and `either` code may do both. `conflict`
is the answer of a query over text that holds several stages; no code has that stage.

`combine` gives the stage of a parent from the stages of its parts: one generated part makes it
generated, and it is generation-time code only when all its parts are.
-/
namespace Stencil

inductive Stage where
  | either
  | generationTime
  | generated
  | conflict
deriving DecidableEq, Repr, Inhabited

namespace Stage

def all : List Stage := [either, generationTime, generated, conflict]

def name : Stage → String
  | either => "default"
  | generationTime => "generation-time"
  | generated => "generated"
  | conflict => "conflict"

def ofName? (s : String) : Option Stage := all.find? (·.name == s)

/-- The stage of a parent, from the stages of its parts. -/
def combine (stages : List Stage) : Stage :=
  if stages.contains generated then generated
  else if !stages.isEmpty && stages.all (· == generationTime) then generationTime
  else either

/-- Whether the stage is one of the two decided ones. -/
def isDeterminate (s : Stage) : Bool := s == generationTime || s == generated

/-- Marks on text raise a stage to one of higher priority and never lower it. -/
def priority : Stage → Nat
  | either => 0
  | generated => 1
  | generationTime => 2
  | conflict => 3

theorem priority_injective {s t : Stage} (h : s.priority = t.priority) : s = t := by
  cases s <;> cases t <;> simp_all [priority]

end Stage

end Stencil
