import Graft.Text.Span
/-!
What is left of a text while it is read.
-/
namespace Graft

/-- The characters of a text from a byte offset on. -/
structure Tail where
  offset : Nat
  chars : List Char
deriving DecidableEq, Repr, Inhabited

namespace Tail

/-- The tail after its first `n` characters. -/
def drop : Nat → Tail → Tail
  | 0, t => t
  | n + 1, ⟨o, c :: cs⟩ => drop n ⟨o + c.utf8Size, cs⟩
  | _ + 1, t => t

/-- The longest start of a tail whose characters all satisfy `p`, and the tail after it. -/
def spanChars (p : Char → Bool) : Nat → List Char → List Char × Tail
  | o, [] => ([], ⟨o, []⟩)
  | o, c :: cs =>
      if p c then
        let (taken, t) := spanChars p (o + c.utf8Size) cs
        (c :: taken, t)
      else ([], ⟨o, c :: cs⟩)

/-- `spanChars` on a tail. -/
def span (p : Char → Bool) (t : Tail) : List Char × Tail := spanChars p t.offset t.chars

end Tail

end Graft
