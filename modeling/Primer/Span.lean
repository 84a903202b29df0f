/-
  Primer/Span.lean
  ================
  **Byte ranges of a source text.**

  A span is a half-open range `[start, stop)` of byte offsets into the UTF-8 form of
  a source text.  Tokens, tree nodes and diagnostics all carry one.
-/

namespace Primer

/-- A half-open range of byte offsets. -/
structure Span where
  start : Nat
  stop : Nat
deriving DecidableEq, Repr, Inhabited

namespace Span

/-- The span that stands for "no position": `0..0`. -/
def zero : Span := ⟨0, 0⟩

/-- The smallest span that covers both. -/
def cover (a b : Span) : Span := ⟨min a.start b.start, max a.stop b.stop⟩

/-- Does `a` enclose `b`? -/
def contains (a b : Span) : Bool := a.start ≤ b.start && b.stop ≤ a.stop

/-- The number of bytes covered. -/
def length (a : Span) : Nat := a.stop - a.start

def isEmpty (a : Span) : Bool := a.start == a.stop

/-- Moves a span `n` bytes to the right. -/
def shift (n : Nat) (a : Span) : Span := ⟨a.start + n, a.stop + n⟩

/-- The written form `start..stop`. -/
def text (a : Span) : String := toString a.start ++ ".." ++ toString a.stop

end Span

end Primer
