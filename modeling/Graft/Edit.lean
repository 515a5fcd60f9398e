import Graft.Plan
import Graft.Stats
/-!
Doing what a plan says.

All decisions were made before; here nodes are only recognised by their spans and rebuilt. The
children of a node are rebuilt before the node itself, so a call that loads a module has already
become a chain of names when the declarator around it is split, and the copies of its initial value
have the chain.

What may become of a child depends on where it stands. Among statements it may go away, and so may a
declaration without declarators; where a statement stands alone, an empty one is left in its place.
Patterns lose entries, and a declaration gets the declarators that its own are divided into. A call
or an access is replaced only where its value is asked for. Every change is counted where it is
made, so the counts say what was done and not what was planned.
-/
namespace Graft

/-- A rebuilt part of a program, and what was done to it. -/
structure Edited (α : Type) where
  result : α
  stats : TransformStats

namespace Edited

/-- Rebuilt children, in order, and everything that was done to them. -/
def collect (parts : List (Edited Node)) : Edited (List Node) :=
  ⟨parts.map (·.result), parts.foldl (fun s p => s.absorb p.stats) .zero⟩

/-- The same result with more done. -/
def also {α : Type} (e : Edited α) (more : TransformStats) : Edited α :=
  { e with stats := e.stats.absorb more }

end Edited

namespace EditPlan

/-- The rebuilt form of a node; `isValue` says that the node is a value where it stands. -/
abbrev Rebuild := (isValue : Bool) → Edited Node

/-- Whether a node is a statement that goes away. -/
def isRemoved (p : EditPlan) (n : Node) : Bool :=
  n.form == .expressionStatement && p.removedStatements.contains n.span

/-- A child that does not stand among statements. If it goes away, an empty statement stays. -/
def rebuildOne (p : EditPlan) (isValue : Bool) (c : Child Rebuild) : Edited Node :=
  if p.isRemoved c.1 then ⟨Node.made .empty [], { statementsElided := 1 }⟩ else c.2 isValue

/-- Whether a statement declares nothing any more. -/
def declaresNothing (n : Node) : Bool :=
  match n with
  | .node (.variableDeclaration _) _ [] => true
  | _ => false

/-- Children that stand among each other as statements. -/
def rebuildList (p : EditPlan) (children : List (Child Rebuild)) : Edited (List Node) :=
  let staying := children.filter fun c => !p.isRemoved c.1
  let rebuilt := Edited.collect (staying.map fun c => c.2 true)
  { result := rebuilt.result.filter fun n => !declaresNothing n
    stats := rebuilt.stats.absorb
      { statementsElided := children.length - staying.length } }

/-- The children of an object pattern without the properties that go away. -/
def rebuildProperties (p : EditPlan) (children : List (Child Rebuild)) : Edited (List Node) :=
  let staying := children.filter fun c => !p.removedPatterns.contains c.1.span
  (Edited.collect (staying.map fun c => c.2 true)).also
    { patternsPruned := children.length - staying.length }

/-- The children of an array pattern without the rest element, if it goes away. -/
def rebuildElements (p : EditPlan) (children : List (Child Rebuild)) : Edited (List Node) :=
  let staying := children.filter fun c =>
    !(c.1.form == .rest && p.removedPatterns.contains c.1.span)
  (Edited.collect (staying.map fun c => c.2 true)).also
    { patternsPruned := children.length - staying.length }

-- ================================================================ splitting

/-- The pattern under a key that moves out of a pattern, with the method that it stands for. -/
def movedValue? (splits : List PropertySplit) (property : Node) : Option (String × Node) :=
  match property with
  | .node (.patternProperty ..) span [_, value] =>
      (splits.find? fun s => s.property == span).map fun s => (s.method, value)
  | _ => none

/-- The declarators that a rebuilt declarator becomes. `splits` are the properties that move out
of its pattern, and `isDroppable` says that it goes away when its pattern is empty. -/
def splitDeclarator (plugin : String) (splits : List PropertySplit) (isDroppable : Bool)
    (declarator : Node) : Edited (List Node) :=
  match declarator with
  | .node .declarator span [.node (.objectPattern role) inner properties, value] =>
      let moved := properties.filterMap (movedValue? splits)
      let staying := properties.filter fun property => (movedValue? splits property).isNone
      let rest := Node.node .declarator span [.node (.objectPattern role) inner staying, value]
      let made := moved.map fun m =>
        Node.made .declarator [m.2, (value.access m.1).boundTo plugin]
      { result := (if isDroppable && staying.isEmpty then [] else [rest]) ++ made
        stats := { declaratorsSplit := made.length } }
  | other => ⟨[other], .zero⟩

/-- The declarators of a declaration, given them as they were and as they were rebuilt. -/
def rebuildDeclarators (p : EditPlan) (plugin : String) :
    List (Child Rebuild) → Edited (List Node)
  | [] => ⟨[], .zero⟩
  | c :: cs =>
      let rebuilt := c.2 true
      let parts := splitDeclarator plugin ((p.splits.lookup c.1.span).getD [])
        (p.droppable.contains c.1.span) rebuilt.result
      let more := rebuildDeclarators p plugin cs
      { result := parts.result ++ more.result
        stats := (rebuilt.stats.absorb parts.stats).absorb more.stats }

-- ================================================================ any node

/-- The rebuilt form of a node, given those of its children. -/
def rebuild (p : EditPlan) (plugin : String) : Algebra Rebuild :=
  fun form span children isValue =>
    let whole (parts : Edited (List Node)) : Edited Node :=
      ⟨.node form span parts.result, parts.stats⟩
    let each (isValue : Bool) : Edited Node :=
      whole (Edited.collect (children.map (p.rebuildOne isValue)))
    match form with
    | .program _ | .functionBody | .block | .staticBlock => whole (p.rebuildList children)
    | .case =>
        match children with
        | test :: statements =>
            let test := p.rebuildOne true test
            let rest := p.rebuildList statements
            whole ⟨test.result :: rest.result, test.stats.absorb rest.stats⟩
        | [] => whole ⟨[], .zero⟩
    | .objectPattern _ => whole (p.rebuildProperties children)
    | .arrayPattern _ => whole (p.rebuildElements children)
    | .variableDeclaration _ => whole (p.rebuildDeclarators plugin children)
    | .place | .chain => each false
    | .call .. =>
        let rebuilt := each true
        match if isValue then (p.substitutions.lookup span).bind Node.ofChain? else none with
        | some chain => ⟨chain, rebuilt.stats.absorb { importsSubstituted := 1 }⟩
        | none => rebuilt
    | .member .. =>
        let rebuilt := each true
        if isValue && p.boundMembers.contains span then
          ⟨rebuilt.result.boundTo plugin, rebuilt.stats.absorb { membersBound := 1 }⟩
        else rebuilt
    | _ => each true

/-- Does what the plan says to a program, and counts what was done. -/
def apply (p : EditPlan) (plugin : String) (tree : Node) : Node × TransformStats :=
  let e := tree.fold (p.rebuild plugin) true
  (e.result, e.stats)

end EditPlan

end Graft
