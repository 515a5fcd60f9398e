import Graft.Tree.Shape
/-!
The names that a module shows to others.

Each of them may be shown once. Only the statements at the top of a module count: an export inside
a block is read, but is no export of the module.
-/
namespace Graft

namespace Node

/-- The names that a declaration or a pattern introduces. -/
def introducedNames (n : Node) : List String :=
  n.fold fun form _ children =>
    match form, children with
    | .binding name, _ => [name]
    | .objectPattern _, _ | .arrayPattern _, _ | .rest, _ | .variableDeclaration _, _ =>
        children.flatMap Prod.snd
    | .patternProperty .., [_, (_, names)] => names
    | .defaulted, (_, names) :: _ | .declarator, (_, names) :: _ => names
    | .functionDeclaration .., (_, names) :: _ | .classDeclaration, (_, names) :: _ => names
    | _, _ => []

/-- The name that an entry of a list of exported names shows. -/
def exportedAs? : Node → Option String
  | .node .exportName _ [_, exported] => exported.spelledName?
  | _ => none

/-- The names by which a statement shows something. A value without a name of its own goes by
`default`. -/
def exportedNames : Node → List String
  | .node .exportDeclaration _ [declaration] => declaration.introducedNames
  | .node (.exportNames _) _ specifiers => specifiers.filterMap exportedAs?
  | .node (.exportAll _) _ [_, name] => name.spelledName?.toList
  | .node .exportDefault _ _ => ["default"]
  | _ => []

/-- Whether the statements of a module show no name twice. -/
def exportsOnce (statements : List Node) : Bool :=
  let names := statements.flatMap exportedNames
  names.eraseDups.length == names.length

end Node

end Graft
