import Graft.Proofs.Export.Renamed
import Graft.Proofs.Round.Renamed
import Graft.Proofs.Transform.Again
import Graft.Proofs.Transform.Independence
/-!
Transforms for plugins of different names.

The name of a plugin is written into every access that is bound, and read again by the next round.
If no string of a module says either of two names, it makes no other difference: transforms for the
two names fail with one error, or go through as many rounds with the same edits and come to programs
that are renamed (`transformNamed_renamed`).

The stages go together one by one. The settings have one fault or none, as neither check reads the
name; the two runs are renamed round by round (`Run.renamed_of`); and what they come to is finished
in the same way (`finishModule_renamed`), for the export is ensured in both programs or in neither.
Each program that is written has to be read as what it is (`RestoresPrograms`), or nothing could be
said about the round after it.
-/
namespace Graft

open Node

/-- Whether a transform reads every program that it writes as what it is: those that its rounds
leave behind, and the one with the export statement. -/
structure RestoresPrograms (source : String) (params : BuildParams) (config : TransformConfig) :
    Prop where
  rounds : ∀ text, Run.Reads config params.pluginName (params.metadata.strip source) text →
    Run.Restores config params.pluginName text
  final : ∀ final ∈ config.exports.final? (editModule source params config).code,
    ∃ q ∈ Program.parse? final.2, final.1.Alike q.tree

/-- A program that is read as what it is is one. -/
theorem RestoresPrograms.isValid {source text : String} {params : BuildParams}
    {config : TransformConfig} {tree : Node} (h : RestoresPrograms source params config)
    (hfinal : config.exports.final? (editModule source params config).code = some (tree, text)) :
    Program.isValid text = true := by
  obtain ⟨q, hq, -⟩ := h.final _ hfinal
  exact Option.isSome_iff_exists.mpr ⟨q, hq⟩

section

variable {source a b : String} {metadata : Metadata} {config : TransformConfig}

/-- What two runs come to that have gone the same way is finished in the same way. -/
theorem finishModule_renamed (moduleId : String)
    (hcheck : checkSettings ⟨a, metadata⟩ config = .ok ()) {r s : Run} (h : Run.Renamed a b r s)
    (hr : ∀ final ∈ config.exports.final? r.code, Program.isValid final.2 = true)
    (hs : ∀ final ∈ config.exports.final? s.code, Program.isValid final.2 = true) :
    (∃ e, finishModule moduleId ⟨a, metadata⟩ config r.isEdited r.code = .error e
        ∧ finishModule moduleId ⟨b, metadata⟩ config s.isEdited s.code = .error e)
      ∨ ∃ code₁ code₂ tree₁ tree₂ text₁ text₂,
          finishModule moduleId ⟨a, metadata⟩ config r.isEdited r.code = .ok code₁
          ∧ finishModule moduleId ⟨b, metadata⟩ config s.isEdited s.code = .ok code₂
          ∧ config.exports.final? r.code = some (tree₁, text₁)
          ∧ config.exports.final? s.code = some (tree₂, text₂)
          ∧ metadata.Tops text₁ code₁ ∧ metadata.Tops text₂ code₂
          ∧ Node.Renamed a b tree₁ tree₂ := by
  obtain ⟨hconfig, hmetadata⟩ := checkSettings_eq_ok_iff.mp hcheck
  obtain ⟨banner, hbanner⟩ := Metadata.exists_banner hmetadata
  obtain ⟨p, q, hp, hq, hrenamed⟩ := h.code
  obtain ⟨line, hform⟩ := Program.form_of_parse? hp
  rcases ExportConvention.ensure_renamed (ExportConvention.isPlain_of_validate hconfig) hform
    hrenamed with ⟨cause, hleft, hright⟩ | ⟨tree₁, tree₂, appended, hleft, hright, htrees⟩
  · exact .inl ⟨.config cause, finishModule_of_badExport hp hleft,
      finishModule_of_badExport hq hright⟩
  · have hfinal := ExportConvention.final?_of_ensure hp hleft
    have hfinal' := ExportConvention.final?_of_ensure hq hright
    have hvalid := hr _ hfinal
    have hvalid' := hs _ hfinal'
    exact .inr ⟨_, _, tree₁, tree₂, _, _, finishModule_of_final? hfinal hvalid hbanner,
      finishModule_of_final? hfinal' hvalid' hbanner, hfinal, hfinal',
      Metadata.tops_of_banner? hbanner _, Metadata.tops_of_banner? hbanner _, htrees⟩

/-- Transforms for two plugins, neither of whose names is said by a string of the module that the
rounds begin with, either both fail with one error, or both come to a final program under the same
metadata, in as many rounds with the same edits; and the final programs differ in nothing but that
what the first one binds to the first name the second one binds to the second name. -/
theorem transformNamed_renamed (moduleId : String)
    (hfresh : ∀ p ∈ Program.parse? (metadata.strip source), ∀ k ∈ p.tree.parts,
      k.stringText? ≠ some a ∧ k.stringText? ≠ some b)
    (hleft : RestoresPrograms source ⟨a, metadata⟩ config)
    (hright : RestoresPrograms source ⟨b, metadata⟩ config) :
    (∃ e, transformNamed moduleId source ⟨a, metadata⟩ config = .error e
        ∧ transformNamed moduleId source ⟨b, metadata⟩ config = .error e)
      ∨ ∃ out₁ out₂ tree₁ tree₂ text₁ text₂,
          transformNamed moduleId source ⟨a, metadata⟩ config = .ok out₁
          ∧ transformNamed moduleId source ⟨b, metadata⟩ config = .ok out₂
          ∧ out₁.passes = out₂.passes ∧ out₁.converged = out₂.converged
          ∧ out₁.stats = out₂.stats
          ∧ config.exports.final? (editModule source ⟨a, metadata⟩ config).code
              = some (tree₁, text₁)
          ∧ config.exports.final? (editModule source ⟨b, metadata⟩ config).code
              = some (tree₂, text₂)
          ∧ metadata.Tops text₁ out₁.code ∧ metadata.Tops text₂ out₂.code
          ∧ Node.Renamed a b tree₁ tree₂ := by
  cases hcheck : checkSettings ⟨a, metadata⟩ config with
  | error e =>
      exact .inl ⟨e, transformNamed_of_settings hcheck, transformNamed_of_settings hcheck⟩
  | ok u =>
      -- the checks read neither name, so both runs pass them
      have hcheck' : checkSettings ⟨b, metadata⟩ config = .ok () := hcheck
      rw [transformNamed_of_checked hcheck, transformNamed_of_checked hcheck']
      cases hp : Program.parse? (metadata.strip source) with
      | none =>
          rw [editModule_of_unreadable hcheck hp, editModule_of_unreadable hcheck' hp,
            finishModule_of_unreadable hp, finishModule_of_unreadable hp]
          exact .inl ⟨_, rfl, rfl⟩
      -- the start is its own renaming, by freshness; the rounds and the last step carry that on
      | some p =>
          have hrun : Run.Renamed a b (editModule source ⟨a, metadata⟩ config)
              (editModule source ⟨b, metadata⟩ config) :=
            Run.renamed_of hleft.rounds hright.rounds config.maxPasses _ _ p p .start .start hp hp
              (.self_of_fresh (hfresh p hp))
          rcases finishModule_renamed moduleId hcheck hrun
            (fun _ hfinal => hleft.isValid hfinal) (fun _ hfinal => hright.isValid hfinal) with
            ⟨e, he, he'⟩ | ⟨code₁, code₂, tree₁, tree₂, text₁, text₂, hok, hok', hrest⟩
          · rw [he, he']
            exact .inl ⟨e, rfl, rfl⟩
          · rw [hok, hok']
            exact .inr ⟨_, _, tree₁, tree₂, text₁, text₂, rfl, rfl, hrun.length_eq.symm,
              hrun.converged_eq.symm, hrun.stats_eq.symm, hrest⟩

end

/-- An access that is bound to a plugin of one name or of another one. -/
theorem transformNamed_renamed_of_bound_access :
    let source := "BdApi.after"
    (∀ plugin ∈ ["p", "q"], RestoresPrograms source ⟨plugin, []⟩ .standard)
      ∧ ∃ out₁ out₂, transformNamed "m" source ⟨"p", []⟩ .standard = .ok out₁
        ∧ transformNamed "m" source ⟨"q", []⟩ .standard = .ok out₂
        ∧ out₁.code = "BdApi.after.bind(null, \"p\");\nmodule.exports = () => exports;\n"
        ∧ out₂.code = "BdApi.after.bind(null, \"q\");\nmodule.exports = () => exports;\n"
        ∧ out₁.passes = out₂.passes ∧ out₁.stats = out₂.stats := by
  intro source
  let bound (plugin : String) := "BdApi.after.bind(null, \"" ++ plugin ++ "\");\n"
  have hstrip : Metadata.strip [] source = source := by
    decide +kernel
  have hfresh : ∀ p ∈ Program.parse? (Metadata.strip [] source), ∀ k ∈ p.tree.parts,
      k.stringText? ≠ some "p" ∧ k.stringText? ≠ some "q" := by
    decide +kernel
  have hread : ∀ plugin ∈ ["p", "q"],
      (Round.of? .standard plugin source).map (fun r => r.edited.map Prod.fst)
          = some (some (bound plugin))
        ∧ (Round.of? .standard plugin (bound plugin)).map (fun r => r.edited.map Prod.fst)
          = some none
        ∧ Run.Restores .standard plugin source ∧ Run.Restores .standard plugin (bound plugin) := by
    decide +kernel
  have hfinal : ∀ plugin ∈ ["p", "q"],
      (TransformConfig.standard.exports.final? (bound plugin)).map Prod.snd
          = some (bound plugin ++ "module.exports = () => exports;\n")
        ∧ ∀ final ∈ TransformConfig.standard.exports.final? (bound plugin),
          ∃ q ∈ Program.parse? final.2, final.1.Alike q.tree := by
    decide +kernel
  have hcode : ∀ plugin ∈ ["p", "q"],
      (editModule source ⟨plugin, []⟩ .standard).code = bound plugin := by
    intro plugin hplugin
    obtain ⟨hfirst, hsecond, -⟩ := hread plugin hplugin
    rw [editModule, show (BuildParams.mk plugin []).metadata.strip source = source from hstrip]
    exact Run.code_of_two_rounds hfirst hsecond 6
  have hrestores : ∀ plugin ∈ ["p", "q"], RestoresPrograms source ⟨plugin, []⟩ .standard := by
    intro plugin hplugin
    obtain ⟨hfirst, hsecond, hrestored, hrestored'⟩ := hread plugin hplugin
    refine ⟨fun text htext => ?_, by rw [hcode plugin hplugin]; exact (hfinal plugin hplugin).2⟩
    change Run.Reads .standard plugin (Metadata.strip [] source) text at htext
    rw [hstrip] at htext
    rcases htext.eq_or_eq hfirst hsecond with rfl | rfl
    · exact hrestored
    · exact hrestored'
  have hp : "p" ∈ ["p", "q"] := List.mem_cons_self
  have hq : "q" ∈ ["p", "q"] := List.mem_cons_of_mem _ List.mem_cons_self
  refine ⟨hrestores, ?_⟩
  rcases transformNamed_renamed "m" hfresh (hrestores "p" hp) (hrestores "q" hq) with
    ⟨e, he, -⟩ | ⟨out₁, out₂, tree₁, tree₂, text₁, text₂, hok, hok', hpasses, -, hstats, hfinal₁,
      hfinal₂, htops₁, htops₂, -⟩
  · have hcheck : checkSettings ⟨"p", []⟩ .standard = .ok () := by
      decide
    obtain ⟨⟨tree, text⟩, hsome, -⟩ := Option.map_eq_some_iff.mp (hfinal "p" hp).1
    have hfinal' : TransformConfig.standard.exports.final?
        (editModule source ⟨"p", []⟩ .standard).code = some (tree, text) := by
      rw [hcode "p" hp]
      exact hsome
    have hvalid := (hrestores "p" hp).isValid hfinal'
    rw [transformNamed_of_checked hcheck, finishModule_of_final? hfinal' hvalid rfl] at he
    cases he
  · have htext : ∀ {plugin text code : String} {tree : Node}, plugin ∈ ["p", "q"] →
        TransformConfig.standard.exports.final? (editModule source ⟨plugin, []⟩ .standard).code
          = some (tree, text) → Metadata.Tops [] text code →
        code = bound plugin ++ "module.exports = () => exports;\n" := by
      intro plugin text code tree hplugin hfinal' htops
      obtain ⟨-, rfl⟩ | ⟨_, hbanner, -⟩ := htops
      · rw [hcode plugin hplugin] at hfinal'
        have htext := (hfinal plugin hplugin).1
        rw [hfinal'] at htext
        exact Option.some.inj htext
      · cases hbanner
    exact ⟨out₁, out₂, hok, hok', htext hp hfinal₁ htops₁, htext hq hfinal₂ htops₂, hpasses, hstats⟩

end Graft
