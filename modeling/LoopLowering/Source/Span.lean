namespace LoopLowering

/-!
# Source positions

Every node of a program carries the range of source text it came from. A
range is a pair of byte offsets; the text itself need not be available.
-/

/-- A half-open range of byte offsets in the source text. -/
structure Span where
  start : Nat
  stop : Nat
  deriving Repr, DecidableEq, Inhabited

namespace Span

/-- The range of a node whose position was never recorded. -/
def absent :
    Span :=
  ⟨0, 0⟩

/-- Whether no position was recorded. -/
def isAbsent
    (span : Span) :
    Bool :=
  span.start == 0 && span.stop == 0

/-- The smallest range that covers two ranges. -/
def cover
    (first second : Span) :
    Span :=
  ⟨min first.start second.start, max first.stop second.stop⟩

/-- The number of bytes covered; a reversed range covers none. -/
def length
    (span : Span) :
    Nat :=
  span.stop - span.start

/-- Whether no byte is covered. -/
def isEmpty
    (span : Span) :
    Bool :=
  span.length == 0

end Span

/-- A value together with the range of text it was read from. -/
structure Spanned (α : Type u) where
  node : α
  span : Span
  deriving Repr, DecidableEq

namespace Spanned

/-- A value whose position was never recorded. -/
def unplaced
    (node : α) :
    Spanned α :=
  ⟨node, Span.absent⟩

/-- Change the value and keep its position. -/
def map
    (change : α → β)
    (value : Spanned α) :
    Spanned β :=
  ⟨change value.node, value.span⟩

end Spanned

end LoopLowering
