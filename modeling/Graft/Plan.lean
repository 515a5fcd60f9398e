import Graft.Order
import Graft.Origin
import Graft.Scope.Liveness
/-!
What one round of editing will do, decided before anything is done.

A plan names nodes by their spans. It is made in two walks over the tree, so that the second one
knows what the first one gives up:

1. statements that do nothing but call pure methods of the host, calls that load a module, and
   methods that have to be bound to the plugin;
2. names that are taken out of the host by a pattern and that nothing uses, or that stand for a
   method that has to be bound.

Both walks are algebras whose meaning of a node is a change of what is decided so far (`Decisions`).
Where the first walk decides something about a node it goes no further, so nothing is planned inside
of what goes away; a statement that goes away gives up all uses in it, once. The second walk asks by
the counts that are left whether a name is still used. What can be done about one pattern is worked
out for the pattern as a whole before any of it is planned (`Survey.planPattern`).
-/
namespace Graft

/-- A property that moves out of a pattern into a declarator of its own. -/
structure PropertySplit where
  property : Span
  method : String
deriving DecidableEq, Repr

/-- What one round of editing will do. -/
structure EditPlan where
  /-- Statements that call pure methods of the host. -/
  removedStatements : List Span := []
  /-- Properties and rest elements of patterns that nothing uses. -/
  removedPatterns : List Span := []
  /-- Calls that load a module, each with the chain of names that stands for it. -/
  substitutions : List (Span × List String) := []
  /-- Accesses to methods that have to be bound. -/
  boundMembers : List Span := []
  /-- Declarators, each with the properties that move out of its pattern. -/
  splits : List (Span × List PropertySplit) := []
  /-- Declarators that go away when their pattern is empty. -/
  droppable : List Span := []
deriving DecidableEq, Repr, Inhabited

namespace EditPlan

/-- The number of edits. -/
def size (p : EditPlan) : Nat :=
  p.removedStatements.length + p.removedPatterns.length + p.substitutions.length
    + p.boundMembers.length + (p.splits.flatMap Prod.snd).length

/-- Whether there is nothing to do. -/
def isEmpty (p : EditPlan) : Bool := p.size == 0

/-- Spans in the order of the text. -/
def inOrder (spans : List Span) : List Span := sortBy Span.before spans

/-- Entries in the order of their spans. -/
def entriesInOrder {α : Type} (entries : List (Span × α)) : List (Span × α) :=
  sortBy (fun a b => Span.before a.1 b.1) entries

end EditPlan

/-- What the planner reports while it decides. -/
inductive EditNotice where
  | eliding (start : Nat)
  | substituting (start : Nat) (chain : List String)
  | binding (start : Nat) (method : String)
  | pruningBinding (start : Nat)
  | pruningPattern (start : Nat)
  | splitting (start count : Nat)
deriving DecidableEq, Repr

/-- What the planner works with. -/
structure Survey where
  origin : Origin
  config : TransformConfig
  plugin : String

/-- What the planner has decided so far. -/
structure Decisions where
  plan : EditPlan := {}
  liveness : Liveness
  /-- Accesses that already stand in a call of `bind` with the name of the plugin. -/
  alreadyBound : List Span := []
  /-- Reports, newest first. -/
  notices : List EditNotice := []
deriving Repr

namespace Decisions

def note (d : Decisions) (n : EditNotice) : Decisions := { d with notices := n :: d.notices }

/-- Gives up the uses at some offsets. -/
def releaseAll (d : Decisions) (b : Bindings) (starts : List Nat) : Decisions :=
  { d with liveness := (starts.filterMap b.symbolOfUse?).foldl Liveness.release d.liveness }

end Decisions

namespace Survey

-- ================================================= statements, calls and accesses

/-- Whether a value is read off a call of a pure method of the host. -/
def isPureCall (v : Survey) (value : Node) : Bool :=
  match value.root with
  | .node (.call ..) _ (callee :: _) =>
      (callee.calleeName?).any v.config.host.isPure && v.origin.traces callee
  | _ => false

/-- What stands for the module that a call loads: the callee is the loader of the host and no name
of the program, and the one argument is a string that the replacements know. -/
def substitutionFor? (v : Survey) (callee : Node) (arguments : List Node) :
    Option (List String) :=
  match callee.form, arguments with
  | .identifier name, [argument] =>
      if name == v.config.host.loader && v.origin.bindings.isGlobalUse callee.span.start then
        argument.stringText?.bind v.config.replacementFor?
      else none
  | _, _ => none

/-- The access that a call binds to the plugin, if the call is `target.bind(null, "plugin")`. -/
def boundTarget? (v : Survey) (callee : Node) (arguments : List Node) : Option Span :=
  match callee, arguments with
  | .node (.member _ name) _ [target], [this, plugin] =>
      let isAccess := match target.form with
        | .member .. => true
        | _ => false
      if name == "bind" && this.form == .nullValue && plugin.stringText? == some v.plugin
          && isAccess then some target.span
      else none
  | _, _ => none

/-- The offsets at which a part of a program uses names. -/
def usesIn (n : Node) : List Nat :=
  (ScopeEvent.ofProgram n).filterMap fun
    | .use _ start _ => some start
    | _ => none

/-- What a node adds to the decisions; `isValue` says that the node is a value where it stands. -/
abbrev Visit := (isValue : Bool) → Decisions → Decisions

/-- The visits of some children, one after the other. -/
def visitAll (children : List (Child Visit)) (isValue : Bool) (d : Decisions) : Decisions :=
  children.foldl (fun d c => c.2 isValue d) d

/-- The first walk. -/
def visit (v : Survey) : Algebra Visit := fun form span children isValue d =>
  match form, children with
  | .expressionStatement, [(value, inner)] =>
      if v.isPureCall value then
        let d := d.note (.eliding span.start)
        let d := { d with
          plan := { d.plan with removedStatements := span :: d.plan.removedStatements } }
        d.releaseAll v.origin.bindings (usesIn value)
      else inner true d
  | .call .., (callee, _) :: arguments =>
      match v.substitutionFor? callee (arguments.map Prod.fst) with
      | some chain =>
          let d := d.note (.substituting span.start chain)
          { d with
            plan := { d.plan with substitutions := (span, chain) :: d.plan.substitutions } }
      | none =>
          let d := match v.boundTarget? callee (arguments.map Prod.fst) with
            | some target => { d with alreadyBound := target :: d.alreadyBound }
            | none => d
          visitAll children true d
  | .member _ name, [(object, inner)] =>
      if isValue && v.config.host.isBindable name && !d.alreadyBound.contains span
          && v.origin.traces object then
        let d := d.note (.binding span.start name)
        { d with plan := { d.plan with boundMembers := span :: d.plan.boundMembers } }
      else inner true d
  | .place, _ | .chain, _ => visitAll children false d
  | _, _ => visitAll children true d

-- ============================================================ patterns

/-- What can be done about a pattern. -/
structure PatternPlan where
  removed : List Span := []
  /-- Methods of the host among the properties that stay. -/
  splits : List PropertySplit := []
  /-- Reports, in order. -/
  notices : List EditNotice := []
  /-- Whether nothing of the pattern stays. -/
  emptied : Bool := false
deriving Repr

/-- Whether a pattern is a name that nothing uses. -/
def isUnusedName (v : Survey) (l : Liveness) (pattern : Node) : Bool :=
  match pattern.form with
  | .binding _ => (v.origin.bindings.symbolOfName? pattern.span.start).any l.isUnused
  | _ => false

/-- The rest element of a pattern, if the pattern ends in one. -/
def restOf? (children : List Node) : Option (Span × Node) :=
  match children.getLast? with
  | some (.node .rest span [pattern]) => some (span, pattern)
  | _ => none

/-- The span of a rest element that nothing uses. -/
def unusedRest (v : Survey) (l : Liveness) (children : List Node) : List Span :=
  match restOf? children with
  | some (span, pattern) => if v.isUnusedName l pattern then [span] else []
  | none => []

/-- What a property adds to the plan for its pattern; `keepsAll` says that a rest element in use
needs every property to stay, and `inner` is the plan for the value. -/
def planProperty (v : Survey) (l : Liveness) (keepsAll : Bool) (p : PatternPlan)
    (property : Node) (inner : PatternPlan) : PatternPlan :=
  match property with
  | .node (.patternProperty true _) _ _ => { p with emptied := false }
  | .node (.patternProperty false _) span [key, value] =>
      match value.form with
      | .binding _ =>
          if keepsAll then p
          else if v.isUnusedName l value then
            { p with
              removed := p.removed ++ [span]
              notices := p.notices ++ [.pruningBinding span.start] }
          else
            let split := match key.form with
              | .key name => if v.config.host.isBindable name then [⟨span, name⟩] else []
              | _ => []
            { p with splits := p.splits ++ split, emptied := false }
      | .objectPattern _ =>
          let p := { p with
            removed := p.removed ++ inner.removed, notices := p.notices ++ inner.notices }
          if inner.emptied && !keepsAll then
            { p with
              removed := p.removed ++ [span]
              notices := p.notices ++ [.pruningPattern span.start] }
          else { p with emptied := false }
      | .arrayPattern _ =>
          { p with removed := p.removed ++ v.unusedRest l value.children, emptied := false }
      | _ => { p with emptied := false }
  | _ => p

/-- The plan for an object pattern. A property with a computed key or a default always stays, for
it may do something. -/
def planObject (v : Survey) (l : Liveness) (children : List (Child PatternPlan)) : PatternPlan :=
  let nodes := children.map Prod.fst
  let removed := v.unusedRest l nodes
  let keepsAll := (restOf? nodes).isSome && removed.isEmpty
  children.foldl (fun p c => v.planProperty l keepsAll p c.1 c.2)
    { removed := removed, emptied := !keepsAll }

/-- The plan for a pattern; a property stands for the pattern that is its value. -/
def planPattern (v : Survey) (l : Liveness) (pattern : Node) : PatternPlan :=
  pattern.fold fun form _ children =>
    match form, children with
    | .objectPattern _, _ => v.planObject l children
    | .arrayPattern _, _ => { removed := v.unusedRest l (children.map Prod.fst) }
    | .patternProperty .., [_, (_, inner)] => inner
    | _, _ => {}

/-- What the plan for the pattern of a declarator adds to the decisions. `isListed` says that the
declaration stands among statements and may lose every declarator. -/
def planDeclarator (v : Survey) (isListed : Bool) (span : Span) (pattern value : Node)
    (d : Decisions) : Decisions :=
  if value.isAbsent || !v.origin.traces value then d
  else
    let p := v.planPattern d.liveness pattern
    match pattern.form with
    | .objectPattern _ =>
        let isStatic := value.isStaticChain
        let splits := if isStatic then p.splits else []
        let notices := p.notices ++
          (if splits.isEmpty then [] else [.splitting span.start splits.length])
        { d with
          notices := notices.reverse ++ d.notices
          plan := { d.plan with
            removedPatterns := p.removed.reverse ++ d.plan.removedPatterns
            droppable := if isStatic && isListed then span :: d.plan.droppable
              else d.plan.droppable
            splits := if splits.isEmpty then d.plan.splits
              else (span, splits) :: d.plan.splits } }
    | .arrayPattern _ =>
        { d with
          plan := { d.plan with removedPatterns := p.removed ++ d.plan.removedPatterns } }
    | _ => d

/-- Whether the children of a form stand among each other as statements. -/
def isStatementList : Form → Bool
  | .program _ | .functionBody | .block | .staticBlock | .case => true
  | _ => false

/-- The second walk; a visit is told whether the node stands among statements. -/
def visitPatterns (v : Survey) : Algebra Visit := fun form span children isListed d =>
  match form, children with
  | .expressionStatement, _ =>
      if d.plan.removedStatements.contains span then d else visitAll children false d
  | .variableDeclaration _, _ => visitAll children isListed d
  | .declarator, [(pattern, _), (value, _)] =>
      visitAll children false (v.planDeclarator isListed span pattern value d)
  | _, _ => visitAll children (isStatementList form) d

end Survey

/-- The edits for one round of editing, and the reports made on the way. -/
def planEdits (config : TransformConfig) (plugin : String) (tree : Node) :
    EditPlan × List EditNotice :=
  let bindings := Bindings.ofProgram tree
  let v : Survey := ⟨⟨config.host, bindings⟩, config, plugin⟩
  let d : Decisions := { liveness := Liveness.ofBindings bindings }
  let d := tree.fold v.visit true d
  let d := tree.fold v.visitPatterns false d
  (d.plan, d.notices.reverse)

end Graft
