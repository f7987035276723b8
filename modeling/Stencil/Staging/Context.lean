import Stencil.Stage
import Stencil.Symbol

/-!
# What the surroundings demand

While stages are inferred, requirements flow from the outside in: a position may have to be
evaluated at generation time, may stand under a condition that only the generated program knows,
and may belong to a loop. A context gathers these; entering a nested position derives a new one.
-/
namespace Stencil.Staging

structure Context where
  /-- why the position must be evaluated at generation time -/
  forced : Option String
  /-- the outermost generated condition above the position -/
  condition : Option String
  /-- the stage of the nearest loop -/
  loop : Option Stage
  /-- the outermost generated condition between the position and its generation-time loop -/
  crossed : Option String
  /-- the locals whose stage is being looked ahead for -/
  pending : List Symbol
deriving DecidableEq, Repr

namespace Context

/-- Nothing is demanded. -/
def free (pending : List Symbol) : Context := ⟨none, none, none, none, pending⟩

/-- Requires generation time; an outer reason is kept. -/
def force (cx : Context) (reason : String) : Context :=
  { cx with forced := some (cx.forced.getD reason) }

/-- Whether a generated condition here would be the first one inside a generation-time loop. -/
def crosses (cx : Context) : Bool := cx.crossed.isNone && cx.loop == some .generationTime

/-- Whether the text of a further generated condition would be kept. -/
def wantsCondition (cx : Context) : Bool := cx.condition.isNone || cx.crosses

/-- Inside a branch or a loop body that the generated program selects by `reason`. -/
def under (cx : Context) (reason : String) : Context :=
  { cx with
    condition := some (cx.condition.getD reason)
    crossed := if cx.crosses then some reason else cx.crossed }

/-- Inside the body of a loop of stage `s`. -/
def inLoop (cx : Context) (s : Stage) : Context := { cx with loop := some s, crossed := none }

/-- The stage of a jump here. -/
def jumpStage (cx : Context) : Stage := cx.loop.getD .either

end Context

end Stencil.Staging
