import Graft.Config
import Graft.Scope.Binding
import Graft.Tree.Shape
/-!
Where a value comes from: is an expression statically known to be the host object, or something read
from it?

Every edit that takes something away hangs on this question. To say no leaves the code as it is,
which is always safe; a wrong yes would break it. So there are exactly three steps back: over an
access to its object, over the bundler's helper called with one argument, and over a name that is
declared once, with an initial value, and never assigned to.

The first two steps only go down the tree (`Node.source`). The third one may go
anywhere in the program, also in a circle, so the tracer remembers the symbols that it has met and
stops at one that it meets again. As every step over a name meets a new symbol, one unit of fuel for
every symbol and one more are enough.
-/
namespace Graft

namespace Node

/-- What an expression is read from, back over accesses and calls of `helper`. -/
def source (helper : String) : Node → Node
  | .node (.member ..) _ [object] => object.source helper
  | .node (.privateMember ..) _ [object] => object.source helper
  | .node (.index _) _ [object, _] => object.source helper
  | .node (.call o p) s [.node (.identifier name) t ks, argument] =>
      if name == helper && argument.form != .spread then argument.source helper
      else .node (.call o p) s [.node (.identifier name) t ks, argument]
  | n => n
termination_by structural n => n

end Node

/-- The names of a program together with the host that its values may come from. -/
structure Origin where
  host : HostNamespace
  bindings : Bindings

namespace Origin

/-- The initial value of a symbol that has one and keeps it. -/
def lastingValue? (o : Origin) (n : Nat) : Option Node :=
  match o.bindings.symbols[n]? with
  | some s => if s.redeclared || o.bindings.isWritten n then none else s.value
  | none => none

/-- Whether an expression comes from the host, over at most `fuel` names, none of them in
`visited`. -/
def tracesFrom (o : Origin) : (fuel : Nat) → (visited : List Nat) → Node → Bool
  | 0, _, _ => false
  | fuel + 1, visited, expression =>
      match expression.source o.host.interopHelper with
      | .node (.identifier name) span _ =>
          if name == o.host.reservedName && o.bindings.isGlobalUse span.start then true
          else match o.bindings.symbolOfUse? span.start with
            | none => false
            | some n =>
                if visited.contains n then false
                else match o.lastingValue? n with
                  | none => false
                  | some value => tracesFrom o fuel (n :: visited) value
      | _ => false

/-- Whether an expression comes from the host. No way back meets a symbol twice, so it is no
longer than the list of symbols. -/
def traces (o : Origin) (expression : Node) : Bool :=
  o.tracesFrom (o.bindings.symbols.length + 1) [] expression

end Origin

/-- What a statement that is a value says about its origin, for a report. -/
structure TracedStatement where
  text : String
  root : String
  fromHost : Bool
deriving DecidableEq, Repr

namespace Origin

/-- A name for the value that an expression starts with. -/
def rootName (expression : Node) : String :=
  match expression.root.form with
  | .identifier name => name
  | .call .. => "<call>"
  | _ => "<other>"

/-- The statements of a program that are values, outer ones before those inside them. -/
def valueStatements (tree : Node) : List Node :=
  tree.fold fun form _ children =>
    let inside := children.flatMap Prod.snd
    match form, children with
    | .expressionStatement, [(value, _)] => value :: inside
    | _, _ => inside

/-- What all statements of a program that are values say about their origin. -/
def report (o : Origin) (source : String) (tree : Node) : List TracedStatement :=
  (valueStatements tree).map fun value =>
    ⟨value.span.slice source, rootName value, o.traces value⟩

end Origin

end Graft
