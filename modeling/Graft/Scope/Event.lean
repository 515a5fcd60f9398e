import Graft.Tree.Node
/-!
A program as the scopes see it: where they open and close, which names are introduced and which are
used, in source order. What happens to the names is the business of `Bindings`.

The events of a node are those of its children, with what the node itself has to say around them.
How the names in a pattern are introduced is handed down to the pattern from the declaration around
it: how far they reach, and which value they come with.
-/
namespace Graft

/-- Where the name of a declaration goes. -/
inductive Reach where
  /-- To the innermost function, static block or program. -/
  | wide
  /-- To the innermost scope. -/
  | near
  /-- To the scope of the function that bears the name, where it yields to any other declaration
  of that name. -/
  | own
deriving DecidableEq, Repr, Inhabited

/-- How the names of a pattern are introduced. -/
structure Introduction where
  reach : Reach
  /-- The initial value of the declarator that the pattern belongs to. -/
  value : Option Node

/-- A step through the scopes of a program. -/
inductive ScopeEvent where
  /-- A scope opens; a wide one holds the names of `var`. -/
  | enter (isWide : Bool)
  | leave
  | introduce (name : String) (span : Span) (how : Introduction)
  /-- A name is used at an offset, perhaps to be assigned to. -/
  | use (name : String) (start : Nat) (isWrite : Bool)

namespace ScopeEvent

/-- Names introduced with nothing known about their values. -/
def plain (reach : Reach) : Introduction := ⟨reach, none⟩

/-- The events of a part of a program, given how names on the left are introduced. -/
abbrev Meaning := Introduction → List ScopeEvent

/-- The events inside a scope. -/
def inScope (isWide : Bool) (inside : List ScopeEvent) : List ScopeEvent :=
  .enter isWide :: inside ++ [.leave]

/-- The events of some children, one after the other. -/
def all (children : List (Child Meaning)) (how : Introduction) : List ScopeEvent :=
  children.flatMap fun c => c.2 how

/-- How a declaration of variables introduces names. -/
def reachOf : VariableKind → Reach
  | .functionWide => .wide
  | .blockWide | .constant => .near

/-- The events of a node, given those of its children. -/
def algebra : Algebra Meaning := fun form span children how =>
  match form, children with
  | .identifier name, _ => [.use name span.start false]
  | .place, [(target, inner)] =>
      match target.form with
      | .identifier name => [.use name target.span.start true]
      | _ => inner how
  | .binding name, _ => [.introduce name span how]
  | .function .., name :: rest =>
      inScope true (name.2 (plain .own) ++ all rest (plain .near))
  | .functionDeclaration .., name :: rest =>
      name.2 (plain .near) ++ inScope true (all rest (plain .near))
  | .arrow .., _ => inScope true (all children (plain .near))
  | .method .., key :: rest => key.2 how ++ inScope true (all rest (plain .near))
  | .staticBlock, _ => inScope true (all children (plain .near))
  | .classValue, _ => inScope false (all children (plain .near))
  | .classDeclaration, name :: rest =>
      name.2 (plain .near) ++ inScope false (all rest (plain .near))
  | .program _, _ => inScope true (all children (plain .near))
  | .block, _ | .for, _ | .forIn, _ | .forOf _, _ | .catch, _ =>
      inScope false (all children (plain .near))
  | .switch, value :: cases => value.2 how ++ inScope false (all cases (plain .near))
  | .variableDeclaration kind, _ => all children (plain (reachOf kind))
  | .declarator, [pattern, value] =>
      let init := if value.1.isAbsent then none else some value.1
      pattern.2 ⟨how.reach, init⟩ ++ value.2 (plain .near)
  | .importFrom .., _ => all children (plain .near)
  | _, _ => all children how

/-- The events of a program, in source order. -/
def ofProgram (tree : Node) : List ScopeEvent := tree.fold algebra (plain .near)

end ScopeEvent

end Graft
