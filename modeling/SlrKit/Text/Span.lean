/-!
# Spans

A span names a stretch of some text by the byte offsets of its two ends; it holds no copy
of the text.
-/

set_option autoImplicit false

namespace SlrKit

/-- The bytes from `start` up to, but without, `stop`. -/
structure Span where
  start : Nat
  stop : Nat
  ordered : start ≤ stop := by omega
deriving DecidableEq

namespace Span

def point (offset : Nat) : Span := ⟨offset, offset, Nat.le_refl offset⟩

instance : Inhabited Span := ⟨Span.point 0⟩

def ofEnds? (start stop : Nat) : Option Span :=
  if ordered : start ≤ stop then some ⟨start, stop, ordered⟩ else none

def ofLength (offset count : Nat) : Span := ⟨offset, offset + count, Nat.le_add_right offset count⟩

def length (span : Span) : Nat := span.stop - span.start

def isEmpty (span : Span) : Bool := span.length == 0

def join (left right : Span) : Span where
  start := min left.start right.start
  stop := max left.stop right.stop
  ordered := by
    have left_ordered := left.ordered
    omega

def describe (span : Span) : String :=
  "Span \x7b start: " ++ toString span.start ++ ", end: " ++ toString span.stop ++ " \x7d"

end Span

end SlrKit
