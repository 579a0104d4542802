/-!
# Spans of source text

A span travels with a node so that a reader of the scope tree can point back into the text; the
analysis itself never looks at it.
-/

namespace ScopeAnalysis

/-- The byte offsets from `start`, included, to `stop`, excluded. -/
structure Span where
  start : Nat
  stop : Nat
  deriving DecidableEq, Repr

namespace Span

/-- The span of a node without a place in a text. -/
def none : Span := ⟨0, 0⟩

def isEmpty (span : Span) : Bool := span.start == span.stop

/-- The half-open interval, as `[5, 15)`. -/
def interval (span : Span) : String :=
  "[" ++ toString span.start ++ ", " ++ toString span.stop ++ ")"

/-- The two ends, as `5..15`. -/
def ends (span : Span) : String :=
  toString span.start ++ ".." ++ toString span.stop

end Span

end ScopeAnalysis
