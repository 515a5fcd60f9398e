import Graft.Edit
import Graft.Layout.Program
/-!
Rounds of editing.

One edit may be what makes another one right: a call that loads a module becomes the host, and then
what is read from it can go. A round therefore reads the text, plans, edits and writes the text
again, and rounds follow each other until one of them has nothing to do. What a round knows comes
from its own text alone.

A run ends in one of four ways (`RunEnd`): a round has nothing to do, a round finds nothing of what
it planned, there may be no more rounds, or the text is no program. Only the first one counts as an
end that the run came to by itself; the round that finds nothing to do is counted among the rounds.
-/
namespace Graft

/-- What one round of editing came to. -/
structure Round where
  plan : EditPlan
  /-- What the planner reported, in order. -/
  notices : List EditNotice
  /-- The text after the edits and what they changed, unless nothing was planned. -/
  edited : Option (String × TransformStats)
deriving Repr

namespace Round

/-- The round on a text, if the text is a program. -/
def of? (config : TransformConfig) (plugin source : String) : Option Round :=
  (Program.parse? source).map fun p =>
    let (plan, notices) := planEdits config plugin p.tree
    if plan.isEmpty then ⟨plan, notices, none⟩
    else
      let (tree, stats) := plan.apply plugin p.tree
      ⟨plan, notices, some (tree.render p.comments, stats)⟩

/-- What the edits of a round changed. -/
def stats (r : Round) : TransformStats := (r.edited.map Prod.snd).getD .zero

end Round

/-- Why no further round follows. -/
inductive RunEnd where
  /-- The last round had nothing to do. -/
  | settled
  /-- The last round found none of the nodes that it was to change. -/
  | stuck
  /-- There may be no more rounds. -/
  | exhausted
  /-- The text is not a program. -/
  | unreadable
deriving DecidableEq, Repr

/-- Rounds that follow each other. -/
structure Run where
  /-- The text after the last round. -/
  code : String
  rounds : List Round
  ending : RunEnd
deriving Repr

namespace Run

/-- At most `budget` rounds on a text. -/
def of (config : TransformConfig) (plugin : String) : (budget : Nat) → (source : String) → Run
  | 0, source => ⟨source, [], .exhausted⟩
  | budget + 1, source =>
      match Round.of? config plugin source with
      | none => ⟨source, [], .unreadable⟩
      | some round =>
          match round.edited with
          | none => ⟨source, [round], .settled⟩
          | some (next, stats) =>
              if stats.total == 0 then ⟨next, [round], .stuck⟩
              else
                let run := of config plugin budget next
                { run with rounds := round :: run.rounds }

/-- What all rounds changed. -/
def stats (r : Run) : TransformStats := (r.rounds.map Round.stats).foldl TransformStats.absorb .zero

/-- Whether the text is no longer the one that the run began with. -/
def isEdited (r : Run) : Bool := r.rounds.any fun round => round.edited.isSome

/-- Whether the last round had nothing to do. -/
def converged (r : Run) : Bool := r.ending == .settled

end Run

end Graft
