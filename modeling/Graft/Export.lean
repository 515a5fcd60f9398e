import Graft.Config
import Graft.Error
import Graft.Grammar.Program
import Graft.Tree.Shape
/-!
The statement by which a program exports its plugin: recognised where it stands, and appended where
it is missing.

A statement is recognised by its tree (`ExportConvention.isAssignedBy`): a plain assignment to the
property of the container, as `container.property` or `container["property"]`, that stands outside
of all other statements. What it assigns plays no part. The statement that is appended is made as a
text and read (`ExportConvention.tree?`), so names that make no statement of it are found out here
at the latest.
-/
namespace Graft

namespace Node

/-- The object and the property that a place names, if it is an access by a known name. -/
def slot? (target : Node) : Option (Node × String) :=
  match target with
  | .node .place _ [.node (.member _ name) _ [object]] => some (object, name)
  | .node .place _ [.node (.index _) _ [object, key]] =>
      key.stringText?.map fun name => (object, name)
  | _ => none

/-- The statements among the children of a node. -/
def statements (n : Node) : List Node :=
  n.children.filter fun c => match c.form with
    | .directive _ => false
    | _ => true

end Node

namespace ExportConvention

/-- Whether a statement assigns the export. Only a plain assignment counts. -/
def isAssignedBy (e : ExportConvention) (statement : Node) : Bool :=
  match statement with
  | .node .expressionStatement _ [.node (.assign .plain) _ [target, _]] =>
      match target.slot? with
      | some (object, name) => object.form == .identifier e.container && name == e.property
      | none => false
  | _ => false

/-- Whether some statement of a program, outside all others, assigns the export. -/
def isIn (e : ExportConvention) (tree : Node) : Bool := tree.statements.any e.isAssignedBy

/-- The statement that exports the plugin, as a tree. -/
def tree? (e : ExportConvention) : Option Node :=
  (Program.parse? e.statement).bind fun p => p.tree.statements.head?

/-- A program that exports its plugin, and whether a statement had to be appended for it. -/
def ensure (e : ExportConvention) (tree : Node) : Except ConfigError (Node × Bool) :=
  if e.isIn tree then .ok (tree, false)
  else match e.tree? with
    | none => .error (.badExport e.statement)
    | some statement =>
        .ok (.node tree.form tree.span (tree.children ++ [statement]), true)

end ExportConvention

end Graft
