import JassExpr.Source.Extent

/-!
# Spans

A span is a half-open range of byte offsets. Spans are plain pairs of numbers: they may be empty,
backwards, or outside of every text, and only looking one up in a text decides whether it
names anything there.
-/

namespace JassExpr

/-- The range of byte offsets from `start` up to, and without, `stop`. -/
structure Span where
  start : Nat
  stop : Nat
deriving DecidableEq

namespace Span

def origin : Span :=
  ⟨0, 0⟩

def point (offset : Nat) : Span :=
  ⟨offset, offset⟩

def isEmpty (span : Span) : Bool :=
  span.start == span.stop

/-- Number of bytes in a span. A backwards span has no length. -/
def length? (span : Span) : Option Nat :=
  if span.start ≤ span.stop then some (span.stop - span.start) else none

/-- The smallest span that reaches over two spans. -/
def cover (first second : Span) : Span :=
  ⟨min first.start second.start, max first.stop second.stop⟩

@[simp]
theorem cover_self (span : Span) : span.cover span = span := by
  simp [cover]

/-- The text that a span names in a source, if both bounds are character boundaries of the
source and in order. -/
def slice? (span : Span) (source : String) : Option String :=
  (Source.slice? span.start span.stop source.toList).map String.ofList

/-- A span is displayed as its bounds with two dots between them. -/
def display (span : Span) : String :=
  toString span.start ++ ".." ++ toString span.stop

end Span

end JassExpr
