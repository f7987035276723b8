/-!
# Spans

A span is a half-open range of byte offsets into a template's text. Code that was not read from a
text carries the `detached` span, which is empty.
-/
namespace Stencil

structure Span where
  start : Nat
  stop : Nat
deriving DecidableEq, Repr, Inhabited

namespace Span

/-- The span of code that stands nowhere in a text. -/
def detached : Span := ⟨0, 0⟩

def length (s : Span) : Nat := s.stop - s.start

/-- A reversed span counts as empty. -/
def isEmpty (s : Span) : Bool := s.stop ≤ s.start

/-- The smallest span that covers both. -/
def cover (s t : Span) : Span := ⟨min s.start t.start, max s.stop t.stop⟩

def contains (s t : Span) : Bool := s.start ≤ t.start && t.stop ≤ s.stop

/-- The span widened to hold at least one byte, as a marker under a text needs it. -/
def widened (s : Span) : Span := ⟨s.start, max s.stop (s.start + 1)⟩

def text (s : Span) : String := s!"{s.start}..{s.stop}"

/-- Spans in order of their starts, and of their ends where the starts agree. -/
def before (s t : Span) : Bool :=
  s.start < t.start || (s.start == t.start && s.stop ≤ t.stop)

end Span

end Stencil
