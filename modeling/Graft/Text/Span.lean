/-!
Positions in a text.

A span is a half-open interval of byte offsets in the UTF-8 form of a text. Spans are the
identity of a piece of a program: two pieces read from one text never share a span unless one
stands alone inside the other, and everything that an edit inserts carries `Span.none`.
-/
namespace Graft

/-- A half-open interval of UTF-8 byte offsets. -/
structure Span where
  start : Nat
  stop : Nat
deriving DecidableEq, Repr, Inhabited

namespace Span

/-- The span of everything that was not read from the text. -/
def none : Span := ⟨0, 0⟩

/-- Order by start, then by end. -/
def before (a b : Span) : Bool :=
  a.start < b.start || (a.start == b.start && a.stop ≤ b.stop)

/-- The characters of `text` whose byte offsets, counted from `offset`, lie in the span. -/
def sliceFrom (s : Span) : Nat → List Char → List Char
  | _, [] => []
  | offset, c :: rest =>
      if s.stop ≤ offset then []
      else if offset < s.start then sliceFrom s (offset + c.utf8Size) rest
      else c :: sliceFrom s (offset + c.utf8Size) rest

/-- The part of a text that a span covers. -/
def slice (s : Span) (text : String) : String :=
  String.ofList (s.sliceFrom 0 text.toList)

end Span

end Graft
