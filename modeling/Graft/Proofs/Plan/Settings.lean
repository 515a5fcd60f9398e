import Graft.Plan
/-!
What the planner reads of its settings.

The planner never looks at the settings as data. It compares a few names, and it asks three
questions: is a method pure, is it to be bound, and what stands for a module. Settings that give
the same answers (`TransformConfig.SameAnswers`) plan the same edits for every program, and report
them in the same order (`TransformConfig.SameAnswers.planEdits_eq`). How the answers are stored, and
in which order, is not seen.
-/
namespace Graft

/-- Whether two settings answer the planner alike. -/
structure TransformConfig.SameAnswers (c c' : TransformConfig) : Prop where
  reservedName : c'.host.reservedName = c.host.reservedName
  interopHelper : c'.host.interopHelper = c.host.interopHelper
  loader : c'.host.loader = c.host.loader
  isPure : ∀ m, c'.host.isPure m = c.host.isPure m
  isBindable : ∀ m, c'.host.isBindable m = c.host.isBindable m
  replacementFor? : ∀ s, c'.replacementFor? s = c.replacementFor? s

namespace TransformConfig.SameAnswers

variable {c c' : TransformConfig} (h : c.SameAnswers c') (b : Bindings) (plugin : String)
include h

-- ============================================================ origins

/-- The tracer looks at two settings of the host only, which the order of the others does not
touch. -/
theorem tracesFrom_eq (fuel : Nat) (visited : List Nat) (e : Node) :
    Origin.tracesFrom ⟨c'.host, b⟩ fuel visited e = Origin.tracesFrom ⟨c.host, b⟩ fuel visited e := by
  induction fuel generalizing visited e with
  | zero => rfl
  | succ fuel ih =>
      have hvalue : Origin.lastingValue? ⟨c'.host, b⟩ = Origin.lastingValue? ⟨c.host, b⟩ := rfl
      simp only [Origin.tracesFrom, h.interopHelper, h.reservedName, hvalue, ih]

/-- A value comes from the one host if and only if it comes from the other. -/
theorem traces_eq (e : Node) :
    Origin.traces ⟨c'.host, b⟩ e = Origin.traces ⟨c.host, b⟩ e :=
  h.tracesFrom_eq b _ _ e

-- ============================================================ the first walk

/-- A pure call of the host is found under both settings or under neither. -/
theorem isPureCall_eq (value : Node) :
    Survey.isPureCall ⟨⟨c'.host, b⟩, c', plugin⟩ value
      = Survey.isPureCall ⟨⟨c.host, b⟩, c, plugin⟩ value := by
  have hpure : c'.host.isPure = c.host.isPure := funext h.isPure
  simp only [Survey.isPureCall, h.traces_eq b, hpure]

/-- Both settings substitute a call alike. -/
theorem substitutionFor?_eq (callee : Node) (arguments : List Node) :
    Survey.substitutionFor? ⟨⟨c'.host, b⟩, c', plugin⟩ callee arguments
      = Survey.substitutionFor? ⟨⟨c.host, b⟩, c, plugin⟩ callee arguments := by
  have hreplacement : c'.replacementFor? = c.replacementFor? := funext h.replacementFor?
  simp only [Survey.substitutionFor?, h.loader, hreplacement]

/-- Every node adds the same to the decisions of the first walk. -/
theorem visit_eq :
    Survey.visit ⟨⟨c'.host, b⟩, c', plugin⟩ = Survey.visit ⟨⟨c.host, b⟩, c, plugin⟩ := by
  funext form span children isValue d
  have hbound : Survey.boundTarget? ⟨⟨c'.host, b⟩, c', plugin⟩
      = Survey.boundTarget? ⟨⟨c.host, b⟩, c, plugin⟩ := rfl
  simp only [Survey.visit, h.isPureCall_eq b plugin, h.substitutionFor?_eq b plugin, h.isBindable,
    h.traces_eq b, hbound]

-- ============================================================ the second walk

/-- Both settings have one plan for a pattern. -/
theorem planPattern_eq (l : Liveness) (pattern : Node) :
    Survey.planPattern ⟨⟨c'.host, b⟩, c', plugin⟩ l pattern
      = Survey.planPattern ⟨⟨c.host, b⟩, c, plugin⟩ l pattern := by
  have hunused : Survey.isUnusedName ⟨⟨c'.host, b⟩, c', plugin⟩
      = Survey.isUnusedName ⟨⟨c.host, b⟩, c, plugin⟩ := rfl
  have hrest : Survey.unusedRest ⟨⟨c'.host, b⟩, c', plugin⟩
      = Survey.unusedRest ⟨⟨c.host, b⟩, c, plugin⟩ := rfl
  have hproperty : Survey.planProperty ⟨⟨c'.host, b⟩, c', plugin⟩
      = Survey.planProperty ⟨⟨c.host, b⟩, c, plugin⟩ := by
    funext l keepsAll p property inner
    simp only [Survey.planProperty, h.isBindable, hunused, hrest]
  simp only [Survey.planPattern, Survey.planObject, hproperty, hrest]

/-- Every node adds the same to the decisions of the second walk. -/
theorem visitPatterns_eq :
    Survey.visitPatterns ⟨⟨c'.host, b⟩, c', plugin⟩
      = Survey.visitPatterns ⟨⟨c.host, b⟩, c, plugin⟩ := by
  funext form span children isListed d
  simp only [Survey.visitPatterns, Survey.planDeclarator, h.planPattern_eq b plugin, h.traces_eq b]

-- ============================================================ the plan

/-- Settings that answer alike plan the same edits and report them alike. -/
theorem planEdits_eq (tree : Node) : planEdits c' plugin tree = planEdits c plugin tree := by
  simp only [planEdits, h.visit_eq, h.visitPatterns_eq]

end TransformConfig.SameAnswers

end Graft
