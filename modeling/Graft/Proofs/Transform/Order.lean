import Graft.Proofs.Config.Order
import Graft.Proofs.Transform.Independence
/-!
Transforms under settings in another order.

What a transform reads of its settings are answers, the export and the bound. So under settings that
answer alike every round plans, edits and reports the same, and so does every run, however many
rounds it has (`TransformConfig.SameAnswers.run_eq`). Which order replacements and methods stand in
is no part of the answers: the one is not seen at all (`transformNamed_withReplacements`), the other
only in which of several faulty methods is reported (`transformNamed_reordered`).
-/
namespace Graft

namespace TransformConfig

variable {c c' : TransformConfig}

-- ============================================================ rounds and runs

/-- A round under settings that answer alike. -/
theorem SameAnswers.round_eq (h : c.SameAnswers c') (plugin source : String) :
    Round.of? c' plugin source = Round.of? c plugin source := by
  simp only [Round.of?, h.planEdits_eq]

/-- A run under settings that answer alike has the same rounds, with the same plans and texts. -/
theorem SameAnswers.run_eq (h : c.SameAnswers c') (plugin : String) (budget : Nat)
    (source : String) : Run.of c' plugin budget source = Run.of c plugin budget source := by
  induction budget generalizing source with
  | zero => rfl
  | succ budget ih => simp only [Run.of, h.round_eq, ih]

/-- The rounds of edits see the settings through their answers only. -/
theorem SameAnswers.editModule_eq (h : c.SameAnswers c') (hpasses : c'.maxPasses = c.maxPasses)
    (source : String) (params : BuildParams) :
    editModule source params c' = editModule source params c := by
  rw [editModule, editModule, hpasses, h.run_eq]

-- ============================================================ whole transforms

/-- Finishing a module reads nothing of the settings but the export. -/
theorem finishModule_eq_of_exports (hexports : c'.exports = c.exports) (moduleId : String)
    (params : BuildParams) (isEdited : Bool) (code : String) :
    finishModule moduleId params c' isEdited code = finishModule moduleId params c isEdited code := by
  rw [finishModule, finishModule, hexports]

/-- A transform under settings that answer alike, pass their check alike, and have the same export
and the same bound. -/
theorem SameAnswers.transformNamed_eq (h : c.SameAnswers c') (hvalidate : c'.validate = c.validate)
    (hexports : c'.exports = c.exports) (hpasses : c'.maxPasses = c.maxPasses)
    (moduleId source : String) (params : BuildParams) :
    transformNamed moduleId source params c' = transformNamed moduleId source params c := by
  have hcheck : checkSettings params c' = checkSettings params c := by
    rw [checkSettings, checkSettings, hvalidate]
  simp only [transformNamed, hcheck, h.editModule_eq hpasses, finishModule_eq_of_exports hexports]

end TransformConfig

/-- In settings that make sense the order of the replacements has no effect: they make sense in
every order, every module has the same replacement, and every run and every transform comes to the
same. -/
theorem transformNamed_withReplacements {c : TransformConfig} {rs : List ModuleReplacement}
    (hvalid : c.validate = .ok ()) (hrs : rs.Perm c.replacements) :
    (c.withReplacements rs).validate = .ok ()
      ∧ (∀ specifier, (c.withReplacements rs).replacementFor? specifier
          = c.replacementFor? specifier)
      ∧ (∀ plugin budget source,
          Run.of (c.withReplacements rs) plugin budget source = Run.of c plugin budget source)
      ∧ ∀ moduleId source params, transformNamed moduleId source params (c.withReplacements rs)
          = transformNamed moduleId source params c := by
  have hanswers := TransformConfig.sameAnswers_withReplacements hvalid hrs
  have hvalid' := TransformConfig.validate_withReplacements hvalid hrs
  refine ⟨hvalid', hanswers.replacementFor?, hanswers.run_eq, fun moduleId source params => ?_⟩
  exact hanswers.transformNamed_eq (hvalid'.trans hvalid.symm) rfl rfl moduleId source params

/-- Two modules that are loaded from the host, with the replacements known without being told in
their order and in the reverse one. -/
theorem transformNamed_withReplacements_of_reverse :
    let c := TransformConfig.standard
    let reverse := c.withReplacements ModuleReplacement.standard.reverse
    c.validate = .ok () ∧ ModuleReplacement.standard.reverse.Perm c.replacements
      ∧ ModuleReplacement.standard.reverse ≠ c.replacements
      ∧ reverse.validate = .ok ()
      ∧ reverse.replacementFor? "bdapi/webpack" = some ["BdApi", "Webpack"]
      ∧ ∃ out, transformNamed "m" "f(require('react'),require('bdapi'))" ⟨"p", []⟩ c = .ok out
          ∧ out.stats.importsSubstituted = 2
          ∧ transformNamed "m" "f(require('react'),require('bdapi'))" ⟨"p", []⟩ reverse
              = .ok out := by
  intro c reverse
  have hvalid : c.validate = .ok () := by decide +kernel
  have hperm : ModuleReplacement.standard.reverse.Perm c.replacements := List.reverse_perm _
  obtain ⟨hvalid', hreplacement, -, htransform⟩ := transformNamed_withReplacements hvalid hperm
  refine ⟨hvalid, hperm, by decide, hvalid', (hreplacement _).trans (by decide), ?_⟩
  have hruns : ((transformNamed "m" "f(require('react'),require('bdapi'))" ⟨"p", []⟩ c).toOption.any
      fun out => out.stats.importsSubstituted == 2) = true := by
    decide +kernel
  cases hout : transformNamed "m" "f(require('react'),require('bdapi'))" ⟨"p", []⟩ c with
  | error e =>
      rw [hout] at hruns
      cases hruns
  | ok out =>
      rw [hout] at hruns
      exact ⟨out, rfl, by simpa [Except.toOption] using hruns, (htransform _ _ _).trans hout⟩

/-- A transform comes to the same in every order of the methods of the host, unless it fails in both
orders with a method that is no identifier. -/
theorem transformNamed_reordered {c c' : TransformConfig} (h : c.Reordered c')
    (moduleId source : String) (params : BuildParams) :
    transformNamed moduleId source params c' = transformNamed moduleId source params c
      ∨ ∃ m ∈ c.faultyMethods, ∃ m' ∈ c.faultyMethods,
          transformNamed moduleId source params c = .error (.config (.methodNotIdentifier m))
            ∧ transformNamed moduleId source params c'
              = .error (.config (.methodNotIdentifier m')) := by
  have hfails {c : TransformConfig} {m : String}
      (herror : c.validate = .error (.methodNotIdentifier m)) :
      transformNamed moduleId source params c = .error (.config (.methodNotIdentifier m)) :=
    transformNamed_of_settings (by rw [checkSettings, herror]; rfl)
  rcases h.validate_cases with heq | ⟨m, hm, m', hm', herror, herror'⟩
  · refine .inl (h.sameAnswers.transformNamed_eq heq ?_ ?_ moduleId source params)
    · cases h; rfl
    · cases h; rfl
  · exact .inr ⟨m, hm, m', hm', hfails herror, hfails herror'⟩

end Graft
