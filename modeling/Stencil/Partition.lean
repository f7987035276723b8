import Stencil.Span
import Stencil.Stage

/-!
# Text divided by stage

A partition cuts the offsets from zero to `Partition.limit` into adjacent cells, each with a
stage, so that neighbours differ. A mark raises the stage of the text it covers and never lowers
it; text that nobody marked keeps the stage `either`.
-/
namespace Stencil

structure Cell where
  start : Nat
  stop : Nat
  stage : Stage
deriving DecidableEq, Repr

structure Partition where
  cells : List Cell
deriving DecidableEq, Repr

namespace Cell

/-- The stage after a mark: the one of higher priority. -/
def raise (mark current : Stage) : Stage :=
  if current.priority < mark.priority then mark else current

/-- The parts of a cell before and after an offset inside it, else the cell. -/
def split (offset : Nat) (c : Cell) : List Cell :=
  if c.start < offset ∧ offset < c.stop then
    [⟨c.start, offset, c.stage⟩, ⟨offset, c.stop, c.stage⟩]
  else [c]

/-- A cell that starts in the marked range has its stage raised. -/
def raiseIn (lo hi : Nat) (mark : Stage) (c : Cell) : Cell :=
  if lo ≤ c.start ∧ c.start < hi then { c with stage := raise mark c.stage } else c

/-- A cell and those after it, joined where a boundary from `lo` to `hi` parts cells of one
stage. -/
def coalesce (lo hi : Nat) (c : Cell) : List Cell → List Cell
  | [] => [c]
  | d :: rest =>
    if lo ≤ d.start ∧ d.start ≤ hi ∧ c.stage = d.stage then
      coalesce lo hi ⟨c.start, d.stop, c.stage⟩ rest
    else c :: coalesce lo hi d rest

end Cell

namespace Partition

/-- The end of the last cell: the largest offset that can be written in 64 bits. -/
def limit : Nat := 0xFFFFFFFFFFFFFFFF

/-- Nothing is marked. -/
def fresh : Partition := ⟨[⟨0, limit, .either⟩]⟩

/-- Makes `offset` a boundary of cells. -/
def splitAt (p : Partition) (offset : Nat) : Partition :=
  ⟨p.cells.flatMap (Cell.split offset)⟩

/-- Joins neighbours of one stage at the boundaries from `lo` to `hi`. -/
def coalesce (p : Partition) (lo hi : Nat) : Partition :=
  match p.cells with
  | [] => p
  | c :: rest => ⟨c.coalesce lo hi rest⟩

/-- Raises the stage of the text from `lo` up to `hi`. -/
def mark (p : Partition) (lo hi : Nat) (s : Stage) : Partition :=
  if lo < hi then
    let split := (p.splitAt lo).splitAt hi
    let raised : Partition := ⟨split.cells.map (Cell.raiseIn lo hi s)⟩
    raised.coalesce lo hi
  else p

/-- The last cell that starts at or before `offset`. -/
def containing? (p : Partition) (offset : Nat) : Option Cell :=
  (p.cells.filter (·.start ≤ offset)).getLast?

/-- The stage of the cell that holds the whole range, and `conflict` if none does. -/
def classify (p : Partition) (lo hi : Nat) : Stage :=
  match p.containing? lo with
  | some c => if hi ≤ c.stop then c.stage else .conflict
  | none => .conflict

/-- All cells, cut off at `bound`. -/
def covering (p : Partition) (bound : Nat) : List Cell :=
  (p.cells.filter (·.start < bound)).map fun c => { c with stop := min c.stop bound }

end Partition

/-- A walk over marked text: the cells still to come, and the range before them that the next cell
may continue. -/
structure Walk where
  rest : List Cell
  pending : Option Cell

namespace Walk

/-- The next range, and the walk after it. Cells that nobody marked are passed over; a cell of the
pending stage that touches the pending range continues it, any other ends it. -/
def step : Option Cell → List Cell → Option (Cell × Walk)
  | pending, [] => pending.map (·, ⟨[], none⟩)
  | none, c :: rest => if c.stage = .either then step none rest else step (some c) rest
  | some r, c :: rest =>
    if c.stage = .either then some (r, ⟨rest, none⟩)
    else if r.stage = c.stage ∧ r.stop = c.start then step (some { r with stop := c.stop }) rest
    else some (r, ⟨rest, some c⟩)

def next? (w : Walk) : Option (Cell × Walk) := step w.pending w.rest

/-- The cells that are still to be told, the pending range counted as one. -/
def size (w : Walk) : Nat := w.rest.length + w.pending.toList.length

/-- A step tells of a cell at least. -/
theorem size_step {pending : Option Cell} {rest : List Cell} {r : Cell} {w : Walk}
    (h : step pending rest = some (r, w)) : w.size < (Walk.mk rest pending).size := by
  fun_induction step pending rest with
  | case1 pending =>
    obtain ⟨p, rfl, h⟩ := Option.map_eq_some_iff.1 h
    cases h
    exact Nat.one_pos
  | case2 c rest _ ih | case3 c rest _ ih | case5 r' c rest _ _ ih =>
    have := ih h
    simp only [size, Option.toList_none, Option.toList_some, List.length_cons,
      List.length_nil] at this ⊢
    omega
  | case4 r' c rest | case6 r' c rest =>
    cases h
    simp only [size, Option.toList_none, Option.toList_some, List.length_cons, List.length_nil]
    omega

/-- The ranges that are still to come. -/
def ranges (w : Walk) : List Cell :=
  match _h : w.next? with
  | none => []
  | some (r, w') => r :: w'.ranges
termination_by w.size
decreasing_by exact size_step _h

end Walk

/-- The ranges of text that somebody marked, in order. -/
def Partition.marked (p : Partition) : List Cell := Walk.ranges ⟨p.cells, none⟩

end Stencil
