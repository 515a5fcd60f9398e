import Graft.Layout.Ink
/-!
The place that a node is written in.

What a node looks like depends on where it stands: how tightly its surroundings hold it, which
operators would be misread there, and whether it has a line of its own. All of that comes from its
parent, as a `Slot`; the layout of a node is therefore a function from slots to ink.
-/
namespace Graft

/-- What a node may take up. -/
inductive SlotShape where
  /-- A statement has lines of its own. -/
  | lines
  /-- A statement goes on where the text stands, and does not end the line. -/
  | inline
  /-- Only the value of a statement is written. -/
  | bare
deriving DecidableEq, Repr

/-- What may not show openly in a place: what is listed here stands in parentheses. -/
structure Ban where
  /-- The operator `in`, which would end the head of a loop. -/
  noIn : Bool := false
  /-- A call, which would end the callee of a construction. -/
  noCall : Bool := false
deriving DecidableEq, Repr

namespace Ban

/-- The ban without what it says about calls. -/
def lettingCall (b : Ban) : Ban := { b with noCall := false }

/-- The ban without what it says about `in`. -/
def lettingIn (b : Ban) : Ban := { b with noIn := false }

end Ban

/-- The place that a node is written in. -/
structure Slot where
  /-- A value that does not bind tighter than this stands in parentheses. -/
  level : Precedence := .lowest
  ban : Ban := {}
  shape : SlotShape := .lines
deriving Repr

/-- What a node looks like in every slot. -/
abbrev Layout := Slot → Ink

/-- A child together with what it looks like. -/
abbrev Laid := Child Layout

namespace Laid

/-- A child at a level. -/
def at_ (c : Laid) (level : Precedence) (ban : Ban := {}) : Ink :=
  c.2 { level := level, ban := ban }

/-- A child at no level: a statement, or a value that cannot be misread. -/
def free (c : Laid) (ban : Ban := {}) : Ink := c.2 { ban := ban }

/-- A child that goes on where the text stands. -/
def inline (c : Laid) (ban : Ban := {}) : Ink := c.2 { ban := ban, shape := .inline }

/-- A child that may be missing, after another piece if it is there. -/
def ifPresent (c : Laid) (p : Ink) : Ink := if c.1.isAbsent then Ink.none else p

end Laid

end Graft
