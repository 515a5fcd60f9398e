import Graft.Proofs.Grammar.Program
import Graft.Proofs.Transform.Errors
/-!
A transform of its own result.

The result of a transform that settles is a fixed point of it (`transformNamed_again`), as far as
the program that is written is read as what it is.

- The last round of a run that settles plans nothing, and the export statement gives the planner
  nothing to decide. So nothing is planned for the program that is written either, once it is read
  again: the program that is read is an echo of the one that was written, with one statement more at
  most.
- The banner comes off before the rounds and is put back after them, so both transforms begin and
  end their rounds with the same texts.
- The export statement is recognised in what is read, and no second one is appended.

Thus the second run has one round, which leaves the text alone, and what is written is written
again.
-/
namespace Graft

-- ============================================================ finishing

/-- What a code comes to before its banner: its program with the export statement, and the text
that spells it. -/
def ExportConvention.final? (e : ExportConvention) (code : String) : Option (Node × String) :=
  (Program.parse? code).bind fun p =>
    (e.ensure p.tree).toOption.map fun ensured => (ensured.1, ensured.1.render p.comments)

/-- What a code comes to is its own program with the export ensured, printed with the comments of
the code. -/
theorem ExportConvention.exists_ensure_of_final? {e : ExportConvention} {code text : String}
    {tree : Node} (h : e.final? code = some (tree, text)) :
    ∃ p appended, Program.parse? code = some p ∧ e.ensure p.tree = .ok (tree, appended)
      ∧ text = tree.render p.comments := by
  obtain ⟨p, hp, h⟩ := Option.bind_eq_some_iff.mp h
  obtain ⟨⟨tree', appended⟩, hensure, hfinal⟩ := Option.map_eq_some_iff.mp h
  obtain ⟨rfl, rfl⟩ := Prod.mk.inj hfinal
  cases hok : e.ensure p.tree with
  | error _ => rw [hok] at hensure; cases hensure
  | ok ensured =>
      rw [hok] at hensure
      obtain rfl := Option.some.inj hensure
      exact ⟨p, appended, hp, hok, rfl⟩

/-- A code that can be read and takes the export comes to something. -/
theorem ExportConvention.final?_of_ensure {e : ExportConvention} {code : String} {tree : Node}
    {p : Program} {appended : Bool} (hp : Program.parse? code = some p)
    (hensure : e.ensure p.tree = .ok (tree, appended)) :
    e.final? code = some (tree, tree.render p.comments) := by
  rw [final?, hp, Option.bind_some, hensure]
  rfl

section

variable {moduleId code out text : String} {params : BuildParams} {config : TransformConfig}
  {isEdited : Bool} {tree : Node}

/-- Finishing a module succeeds if its final text is a program, and puts the banner in front. -/
theorem finishModule_of_final? (h : config.exports.final? code = some (tree, text))
    (hvalid : Program.isValid text = true) {banner : Option String}
    (hbanner : params.metadata.banner? = .ok banner) :
    finishModule moduleId params config isEdited code
      = .ok ((banner.map (Metadata.prepend text)).getD text) := by
  obtain ⟨p, appended, hp, hensure, rfl⟩ := ExportConvention.exists_ensure_of_final? h
  rw [finishModule_of_ensure hp hensure, if_pos hvalid, hbanner]
  rfl

/-- A module that is finished has a text before its banner, and that text is valid. -/
theorem exists_final (h : finishModule moduleId params config isEdited code = .ok out) :
    ∃ tree text, config.exports.final? code = some (tree, text) ∧ Program.isValid text = true := by
  obtain ⟨p, tree, appended, hp, hensure, hvalid⟩ := exists_ensure_of_finishModule h
  exact ⟨tree, _, ExportConvention.final?_of_ensure hp hensure, hvalid⟩

end

-- ====================================================== whole transforms

section

variable {source : String} {params : BuildParams} {config : TransformConfig}

/-- The result of a transform that settled is a fixed point of it: a second transform plans nothing
and gives the same code. What is asked of the text before the banner is that it is read as the
program that was written, and written again as the same text, and that it does not start with the
banner. -/
theorem transformNamed_again {moduleId : String} {out : TransformOutput}
    (h : transformNamed moduleId source params config = .ok out) (hconverged : out.converged = true)
    (hrecognised : ∀ n, config.exports.tree? = some n → config.exports.isAssignedBy n = true)
    (hreread : ∀ final ∈ config.exports.final? (editModule source params config).code,
      ∀ q ∈ Program.parse? final.2, final.1.Alike q.tree ∧ q.tree.render q.comments = final.2)
    (hfresh : ∀ final ∈ config.exports.final? (editModule source params config).code,
      ∀ banner, params.metadata.banner? = .ok (some banner) → ¬ banner.toList <+: final.2.toList) :
    (∃ q, Program.parse? (params.metadata.strip out.code) = some q
        ∧ (planEdits config params.pluginName q.tree).1.isEmpty = true)
      ∧ ∀ moduleId', transformNamed moduleId' out.code params config
          = .ok ⟨out.code, 1, true, .zero⟩ := by
  obtain ⟨⟨⟨⟩, hcheck⟩, hfinish, -, hsettled, -⟩ := transformNamed_ok h
  obtain ⟨hconfig, hmetadata⟩ := checkSettings_eq_ok_iff.mp hcheck
  have hplain := ExportConvention.isPlain_of_validate hconfig
  obtain ⟨budget, hbudget⟩ := Nat.exists_eq_succ_of_ne_zero
    (Nat.ne_of_gt (TransformConfig.maxPasses_pos hcheck))
  -- the program of the last round, and the text that finishing makes of it
  obtain ⟨tree, text, hfinal, hvalid⟩ := exists_final hfinish
  obtain ⟨banner, hbannerText⟩ := Metadata.exists_banner hmetadata
  have hout : out.code = (banner.map (Metadata.prepend text)).getD text :=
    Except.ok.inj (hfinish.symm.trans (finishModule_of_final? hfinal hvalid hbannerText))
  have hstrip : params.metadata.strip out.code = text := by
    rw [hout]
    exact Metadata.strip_prepend hbannerText fun b hb =>
      hfresh _ hfinal b (hb ▸ hbannerText)
  -- the second transform reads that text
  obtain ⟨q, hq⟩ := Option.isSome_iff_exists.mp hvalid
  obtain ⟨halike, hagain⟩ := hreread _ hfinal q hq
  have hidle : (planEdits config params.pluginName q.tree).1.isEmpty = true := by
    obtain ⟨p, appended, hp, hensure, -⟩ := ExportConvention.exists_ensure_of_final? hfinal
    obtain ⟨hfollows, -, -⟩ := Run.follows_of config params.pluginName config.maxPasses
      (params.metadata.strip source)
    obtain ⟨p', hp', hidle⟩ :=
      hfollows.exists_program (beq_iff_eq.mp (hsettled.symm.trans hconverged))
    obtain rfl := Option.some.inj (hp'.symm.trans hp)
    obtain ⟨line, hform⟩ := Program.form_of_parse? hp
    exact ExportConvention.isEmpty_planEdits_ensured hplain hrecognised hform
      (Program.wellPlaced_of_parse? hp).keyed (Program.wellPlaced_of_parse? hq).keyed
      (ExportConvention.ensured_of_ensure hensure) halike hidle
  refine ⟨⟨q, hstrip ▸ hq, hidle⟩, fun moduleId' => ?_⟩
  have hrun : editModule out.code params config
      = ⟨text, [⟨(planEdits config params.pluginName q.tree).1,
          (planEdits config params.pluginName q.tree).2, none⟩], .settled⟩ := by
    rw [editModule, hstrip, hbudget]
    exact Run.of_idle hq hidle
  have hfinal' : config.exports.final? text = some (q.tree, text) := by
    obtain ⟨p, appended, hp, hensure, -⟩ := ExportConvention.exists_ensure_of_final? hfinal
    have hin : config.exports.isIn q.tree = true := by
      rw [← config.exports.isIn_eq_of_alike halike]
      exact ExportConvention.isIn_of_ensure hrecognised hensure
    rw [ExportConvention.final?_of_ensure hq (ExportConvention.ensure_of_isIn hin), hagain]
  have hfinish' : finishModule moduleId' params config (editModule out.code params config).isEdited
      (editModule out.code params config).code = .ok out.code := by
    rw [hrun]
    exact (finishModule_of_final? hfinal' hvalid hbannerText).trans (congrArg _ hout.symm)
  rw [transformNamed_of_checked hcheck, hfinish', hrun]
  rfl

end

/-- A pure call goes, and what is left is read again with the export statement under a banner. -/
theorem transformNamed_again_of_pure_call :
    let params : BuildParams := ⟨"p", [("name", .string "E")]⟩
    (∀ final ∈ TransformConfig.standard.exports.final?
        (editModule "let e=BdApi;e.get()" params .standard).code,
        final.2.toList.head? = some 'l' ∧ ∀ q ∈ Program.parse? final.2,
          final.1.Alike q.tree ∧ q.tree.render q.comments = final.2)
      ∧ ∃ out, transformNamed "m" "let e=BdApi;e.get()" params .standard = .ok out
        ∧ out.converged = true ∧ out.stats.total = 1
        ∧ transformNamed "m" out.code params .standard = .ok ⟨out.code, 1, true, .zero⟩ := by
  intro params
  have hruns : ((transformNamed "m" "let e=BdApi;e.get()" params .standard).toOption.any
      fun out => out.converged && out.stats.total == 1) = true := by
    decide +kernel
  have hreread : ∀ final ∈ TransformConfig.standard.exports.final?
      (editModule "let e=BdApi;e.get()" params .standard).code,
      final.2.toList.head? = some 'l' ∧ ∀ q ∈ Program.parse? final.2,
        final.1.Alike q.tree ∧ q.tree.render q.comments = final.2 := by
    decide +kernel
  have hplain : TransformConfig.standard.exports.IsPlain := ⟨by decide, by decide, by decide⟩
  refine ⟨hreread, ?_⟩
  cases hout : transformNamed "m" "let e=BdApi;e.get()" params .standard with
  | error e =>
      rw [hout] at hruns
      cases hruns
  | ok out =>
      rw [hout] at hruns
      obtain ⟨hconverged, htotal⟩ : out.converged = true ∧ out.stats.total = 1 := by
        simpa [Except.toOption] using hruns
      obtain ⟨-, hagain⟩ := transformNamed_again hout hconverged
        (fun n hn => (ExportConvention.isAssignedBy_tree hplain hn).trans (by decide))
        (fun final hfinal => (hreread final hfinal).2)
        (fun final hfinal banner hbanner hstart => by
          -- a banner starts with a slash
          obtain rfl := Option.some.inj (Except.ok.inj hbanner)
          obtain ⟨rest, heq⟩ := hstart
          have hhead := (hreread final hfinal).1
          rw [← heq, String.toList_ofList] at hhead
          cases hhead)
      exact ⟨out, rfl, hconverged, htotal, hagain "m"⟩

end Graft
