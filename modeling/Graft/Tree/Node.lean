import Graft.Text.Span
import Graft.Tree.Form
/-!
The tree of a program, and the one recursion over it.

Every analysis and every edit of this library is an algebra: it says what a node means given what
its children mean, and `Node.fold` does the rest. The children come paired with their meanings, for
an algebra may look at a child before it decides what to do with its meaning.

A meaning may be a function, which is how an analysis hands something down: the walks of the planner
mean changes of what is decided so far, and the rebuilding of a node depends on whether its value is
asked for.
-/
namespace Graft

/-- A program or a part of one. -/
inductive Node where
  | node (form : Form) (span : Span) (children : List Node)
deriving Repr, Inhabited

/-- What an algebra is given of a child: the child and its meaning. -/
abbrev Child (α : Type u) := Node × α

/-- What a node means, given what its children mean. -/
abbrev Algebra (α : Type u) := Form → Span → List (Child α) → α

namespace Node

/-- The kind of a node. -/
def form : Node → Form
  | .node f _ _ => f

/-- Where a node was read. -/
def span : Node → Span
  | .node _ s _ => s

/-- The parts of a node. -/
def children : Node → List Node
  | .node _ _ ks => ks

/-- The node that stands for a missing child. -/
def absent : Node := .node .absent .none []

/-- Whether a child is missing. -/
def isAbsent (n : Node) : Bool :=
  match n.form with
  | .absent => true
  | _ => false

mutual

/-- The meaning of a tree under an algebra. -/
def fold {α : Type u} (algebra : Algebra α) : Node → α
  | .node f s ks => algebra f s (foldChildren algebra ks)

/-- The children of a node, each with its meaning. -/
def foldChildren {α : Type u} (algebra : Algebra α) : List Node → List (Child α)
  | [] => []
  | k :: ks => (k, fold algebra k) :: foldChildren algebra ks

end

theorem foldChildren_eq_map {α : Type u} (algebra : Algebra α) (ks : List Node) :
    foldChildren algebra ks = ks.map fun k => (k, k.fold algebra) := by
  induction ks with
  | nil => simp [foldChildren]
  | cons k ks ih => simp [foldChildren, ih]

theorem fold_node {α : Type u} (algebra : Algebra α) (f : Form) (s : Span) (ks : List Node) :
    (Node.node f s ks).fold algebra = algebra f s (ks.map fun k => (k, k.fold algebra)) := by
  rw [fold, foldChildren_eq_map]

/-- Whether some node of the tree has a form that `p` admits. -/
def any (p : Form → Bool) : Node → Bool :=
  fold fun f _ ks => p f || ks.any Prod.snd

end Node

end Graft
