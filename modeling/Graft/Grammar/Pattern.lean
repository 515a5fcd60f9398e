import Graft.Grammar.Basic
/-!
Patterns: what stands on the left of a value that is taken apart.

A pattern that introduces names is read as such. A pattern that assigns is first read as a value,
since only the equals sign after it tells what it is, and is then turned into a pattern
(`Node.asTarget?`).
-/
namespace Graft

namespace Parse

/-- The key of a property, and whether it is computed. -/
def propertyKey (r : Rules) (s : Setting) : Parse (Node × Bool) := do
  match ← peek with
  | .string value _ => return (← leaf (.string value), false)
  | .number value => return (← leaf (.number value), false)
  | .bigint value => return (← leaf (.bigint value), false)
  | .mark .openBracket =>
      next
      let key ← r.assignment s.enclosed
      mark .closeBracket
      return (key, true)
  | lexeme =>
      match wordAsKey lexeme with
      | some name => return (← leaf (.key name), false)
      | none => failure

/-- A pattern, possibly with a default. -/
def patternWithDefault (r : Rules) (s : Setting) : Parse Node := do
  let start ← position
  let pattern ← r.pattern s
  if ← eatMark (.assign .plain) then
    let value ← r.assignment s.enclosed
    node start .defaulted [pattern, value]
  else return pattern

/-- Whether a rest element, if there is one, comes last and without a comma. -/
def restIsLast : List Node → (comma : Bool) → Bool
  | [], _ => true
  | [n], comma => !(n.form == .rest && comma)
  | n :: ns, comma => n.form != .rest && restIsLast ns comma

/-- A property of an object pattern. The rest of an object is always a name. -/
def patternProperty (r : Rules) (s : Setting) : Parse Node := do
  let start ← position
  if ← eatMark .ellipsis then
    let name ← bindingName s
    node start .rest [name]
  else
    let named ← atName s
    let (key, computed) ← propertyKey r s
    if ← eatMark .colon then
      let value ← patternWithDefault r s
      node start (.patternProperty computed false) [key, value]
    else
      match key with
      | .node (.key name) span _ =>
          if !named then failure
          let binding := Node.node (.binding name) span []
          if ← eatMark (.assign .plain) then
            let value ← r.assignment s.enclosed
            let defaulted ← node start .defaulted [binding, value]
            node start (.patternProperty false true) [key, defaulted]
          else node start (.patternProperty false true) [key, binding]
      | _ => failure

/-- An element of an array pattern. -/
def patternElement (r : Rules) (s : Setting) : Parse Node := do
  let start ← position
  if ← atMark .comma then return Node.absent
  if ← eatMark .ellipsis then
    let pattern ← r.pattern s
    node start .rest [pattern]
  else patternWithDefault r s

/-- A pattern that introduces names. -/
def bindingPattern (r : Rules) (s : Setting) : Parse Node := do
  let start ← position
  if ← eatMark .openBrace then
    let (properties, comma) ← listed .closeBrace (patternProperty r s) r.fuel
    if !restIsLast properties comma then failure
    mark .closeBrace
    node start (.objectPattern .declares) properties
  else if ← eatMark .openBracket then
    let (elements, comma) ← listed .closeBracket (patternElement r s) r.fuel
    if !restIsLast elements comma then failure
    mark .closeBracket
    node start (.arrayPattern .declares) elements
  else bindingName s

/-- A parameter of a function. -/
def parameter (r : Rules) (s : Setting) : Parse Node := do
  let start ← position
  if ← eatMark .ellipsis then
    let pattern ← r.pattern s
    node start .rest [pattern]
  else patternWithDefault r s

/-- The parameters of a function, in parentheses. -/
def parameters (r : Rules) (s : Setting) : Parse Node := do
  let start ← position
  mark .openParen
  let (items, comma) ← listed .closeParen (parameter r s) r.fuel
  if !restIsLast items comma then failure
  mark .closeParen
  node start .parameters items

end Parse

namespace Node

/-- The node itself as something that is assigned to, if it is a name or an access. -/
def asPlace? (n : Node) : Option Node :=
  match n.form with
  | .identifier _ | .member .. | .index _ | .privateMember .. => some (.node .place n.span [n])
  | _ => none

/-- The converted elements of a literal. A spread becomes the rest and must come last. -/
def targetElements : List (Child (Option Node)) → Option (List Node)
  | [] => some []
  | (n, t) :: more =>
      if n.isAbsent then (targetElements more).map (n :: ·)
      else match t with
        | none => none
        | some t =>
            if n.form == .spread && !more.isEmpty then none
            else (targetElements more).map (t :: ·)

/-- The pattern that a literal of an array or an object becomes, given its elements. -/
def literalTarget (loose : List Nat) (span : Span) (form : Form)
    (elements : List (Child (Option Node))) : Option Node :=
  if loose.contains span.start then none
  else (targetElements elements).map (.node form span)

/-- Whether the rest of an object, if it is taken, goes to a place and not to a pattern. -/
def restIsPlace (pattern : Node) : Bool :=
  pattern.children.all fun
    | .node .rest _ [target] => target.form == .place
    | _ => true

/-- What a value becomes as an element of a pattern, where it may have a default; `loose` holds the
starts of the literals that end in a spread and a comma. -/
def asElement? (loose : List Nat) (n : Node) : Option Node :=
  n.fold fun form span children =>
    match form, children with
    | .array, _ => literalTarget loose span (.arrayPattern .assigns) children
    | .object, _ => (literalTarget loose span (.objectPattern .assigns) children).filter restIsPlace
    | .spread, [(_, some target)] =>
        if target.form == .defaulted then none else some (.node .rest span [target])
    | .property computed shorthand, [(key, _), (_, some target)] =>
        some (.node (.patternProperty computed shorthand) span [key, target])
    | .defaultedProperty, [(name, some target), (value, _)] =>
        let key := match name.form with
          | .identifier text => Node.node (.key text) name.span []
          | _ => name
        some (.node (.patternProperty false true) span [key, .node .defaulted span [target, value]])
    | .assign .plain, [(target, _), (value, _)] =>
        some (.node .defaulted span [target, value])
    | _, _ => asPlace? (.node form span (children.map Prod.fst))

/-- What a value becomes when it is assigned to. -/
def asTarget? (loose : List Nat) (n : Node) : Option Node :=
  (n.asElement? loose).filter fun target => target.form != .defaulted

end Node

end Graft
