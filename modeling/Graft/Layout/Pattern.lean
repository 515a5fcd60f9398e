import Graft.Layout.Value
/-!
The layout of patterns.

A pattern stands on one line. Braces around names that are introduced have spaces inside them,
braces around places that are assigned to have none.
-/
namespace Graft

namespace Layout

open Ink

/-- The name that a pattern introduces, with or without a default. -/
def introducedName? : Node → Option String
  | .node (.binding name) _ _ => some name
  | .node .defaulted _ (.node (.binding name) _ _ :: _) => some name
  | _ => Option.none

/-- Whether a property of a pattern says nothing but the name that it introduces. -/
def introducesKey (computed shorthand : Bool) (k pattern : Node) : Bool :=
  shorthand || match k.form with
    | .key name => !computed && introducedName? pattern == some name
    | _ => false

def patternProperty (computed shorthand : Bool) (k pattern : Laid) : Ink :=
  if introducesKey computed shorthand k.1 pattern.1 then pattern.free
  else all [key computed k, chars [':', ' '], pattern.free]

def objectPattern (role : PatternRole) (properties : List Laid) : Ink :=
  let inside := commas (properties.map fun p => p.free)
  let margin : Ink := if role == .assigns || properties.isEmpty then none else space
  all [chars ['\x7b'], margin, inside, margin, chars ['\x7d']]

/-- The elements of an array pattern. A hole before the closing bracket needs a comma. -/
def patternElements (role : PatternRole) (isFirst : Bool) : List Laid → Ink
  | [] => none
  | e :: more =>
      let isRest := e.1.form == .rest
      all [
        if isFirst then (if isRest && role == .declares then space else none)
        else chars [',', ' '],
        e.free,
        if e.1.isAbsent && more.isEmpty then chars [','] else none,
        patternElements role false more]

/-- The layout of a pattern; other nodes have none here. A ban reaches the default of a parameter,
but nothing inside a pattern. -/
def pattern (form : Form) (children : List Laid) (slot : Slot) : Option Ink :=
  match form, children with
  | .binding name, _ => some (text name)
  | .objectPattern role, properties => some (objectPattern role properties)
  | .patternProperty computed shorthand, [k, p] => some (patternProperty computed shorthand k p)
  | .arrayPattern role, elements =>
      some (all [chars ['['], patternElements role true elements, chars [']']])
  | .rest, [p] => some (all [text "...", p.free])
  | .defaulted, [p, v] => some (all [p.free, text " = ", v.at_ .comma slot.ban])
  | .parameters, patterns => some (commas (patterns.map fun p => p.free slot.ban))
  | _, _ => Option.none

end Layout

end Graft
