import Graft.Proofs.Config.Validation
import Graft.Transform
/-!
The stages of a transform, each by what it leaves behind.

A transform checks its settings, takes an old banner off, runs its rounds and finishes the module.
There is one lemma for each way through a stage, and the theorems about transforms go through these
and never open the definition.

- Settings with a fault give that fault (`transformNamed_of_settings`); otherwise the result is what
  finishing gives (`transformNamed_of_checked`).
- Finishing fails on a text that is no program (`finishModule_of_unreadable`) and on an export that
  cannot be put in (`finishModule_of_badExport`). Otherwise it puts the banner over the text, if
  that is a program again (`finishModule_of_ensure`).
- What is written is the program with at most the export statement under at most the banner
  (`finishModule_ok`), and a transform that succeeds went through all of this (`transformNamed_ok`).
-/
namespace Graft

-- ============================================================ finishing

/-- A program, or the program with the statement that exports the plugin at its end. -/
def ExportConvention.Ensured (e : ExportConvention) (tree tree' : Node) : Prop :=
  tree' = tree ∨ ∃ statement, e.tree? = some statement
    ∧ tree' = .node tree.form tree.span (tree.children ++ [statement])

/-- To ensure the export leaves a program as it is or puts one statement at its end. -/
theorem ExportConvention.ensured_of_ensure {e : ExportConvention} {tree tree' : Node}
    {appended : Bool} (h : e.ensure tree = .ok (tree', appended)) : e.Ensured tree tree' := by
  unfold ensure at h
  split at h
  case isTrue =>
    obtain ⟨rfl, -⟩ := by simpa using h
    exact .inl rfl
  case isFalse =>
    cases hst : e.tree? with
    | none => simp [hst] at h
    | some statement =>
        obtain ⟨rfl, -⟩ := by simpa [hst] using h
        exact .inr ⟨statement, hst, rfl⟩

/-- A text, or the text after the banner of the metadata. -/
def Metadata.Headed (m : Metadata) (text code : String) : Prop :=
  code = text ∨ ∃ banner, m.banner? = .ok (some banner) ∧ code = banner ++ "\n" ++ text

/-- A banner that is put in front heads the text, and an empty one is not put in front. -/
theorem Metadata.headed_prepend {m : Metadata} {banner : String} (text : String)
    (h : m.banner? = .ok (some banner)) : m.Headed text (prepend text banner) := by
  unfold prepend
  split
  · exact .inl rfl
  · exact .inr ⟨banner, h, rfl⟩

section

variable {moduleId code : String} {params : BuildParams} {config : TransformConfig}
  {isEdited : Bool} {p : Program}

/-- A text that cannot be read is an error of the serializer after edits and of the parser before
any. -/
theorem finishModule_of_unreadable (h : Program.parse? code = none) :
    finishModule moduleId params config isEdited code
      = .error (if isEdited then .serialize moduleId [] else .parse moduleId []) := by
  rw [finishModule, h]
  cases isEdited <;> rfl

/-- An export that cannot be put in is an error of the settings. -/
theorem finishModule_of_badExport {cause : ConfigError} (hp : Program.parse? code = some p)
    (h : config.exports.ensure p.tree = .error cause) :
    finishModule moduleId params config isEdited code = .error (.config cause) := by
  simp only [finishModule, hp, h]
  rfl

/-- Finishing a program puts the banner over its text, if that is a program again. -/
theorem finishModule_of_ensure {tree : Node} {appended : Bool}
    (hp : Program.parse? code = some p)
    (h : config.exports.ensure p.tree = .ok (tree, appended)) :
    finishModule moduleId params config isEdited code
      = if Program.isValid (tree.render p.comments) then
          params.metadata.banner?.map fun banner =>
            (banner.map (Metadata.prepend (tree.render p.comments))).getD
              (tree.render p.comments)
        else .error (.serialize moduleId []) := by
  have hmapped : (Except.ok (tree, appended) : Except ConfigError _).mapError
      TransformError.config = .ok (tree, appended) := rfl
  simp only [finishModule, hp, h, hmapped, bind, Except.bind]
  cases Program.isValid (tree.render p.comments) with
  | false => rfl
  | true =>
      cases params.metadata.banner? with
      | error e => rfl
      | ok banner => cases banner <;> rfl

/-- A module that is finished has come to a program whose text, with the export statement, is one
again. -/
theorem exists_ensure_of_finishModule {out : String}
    (h : finishModule moduleId params config isEdited code = .ok out) :
    ∃ p tree appended, Program.parse? code = some p
      ∧ config.exports.ensure p.tree = .ok (tree, appended)
      ∧ Program.isValid (tree.render p.comments) = true := by
  cases hp : Program.parse? code with
  | none =>
      rw [finishModule_of_unreadable hp] at h
      cases h
  | some p =>
      cases hensure : config.exports.ensure p.tree with
      | error cause =>
          rw [finishModule_of_badExport hp hensure] at h
          cases h
      | ok ensured =>
          refine ⟨p, ensured.1, ensured.2, rfl, hensure, ?_⟩
          rw [finishModule_of_ensure hp hensure] at h
          split at h
          case isTrue hvalid => exact hvalid
          case isFalse => cases h

/-- What finishing a module writes: the program with at most the export statement, under at most
the banner. -/
theorem finishModule_ok {out : String} (hp : Program.parse? code = some p)
    (h : finishModule moduleId params config isEdited code = .ok out) :
    ∃ tree', config.exports.Ensured p.tree tree'
      ∧ params.metadata.Headed (tree'.render p.comments) out := by
  obtain ⟨p', tree', appended, hp', hensure, hvalid⟩ := exists_ensure_of_finishModule h
  obtain rfl := Option.some.inj (hp'.symm.trans hp)
  refine ⟨tree', ExportConvention.ensured_of_ensure hensure, ?_⟩
  rw [finishModule_of_ensure hp hensure, if_pos hvalid] at h
  cases hbanner : params.metadata.banner? with
  | error e =>
      rw [hbanner] at h
      cases h
  | ok banner? =>
      rw [hbanner] at h
      cases banner? with
      | none => exact .inl (Except.ok.inj h).symm
      | some banner =>
          obtain rfl := Except.ok.inj h
          exact Metadata.headed_prepend _ hbanner

end

-- ================================================= settings and rounds

/-- The settings pass their check if the configuration and the metadata pass theirs. -/
theorem checkSettings_eq_ok_iff {params : BuildParams} {config : TransformConfig} :
    checkSettings params config = .ok ()
      ↔ config.validate = .ok () ∧ params.metadata.validate = .ok () := by
  unfold checkSettings
  cases config.validate with
  | error e => exact ⟨nofun, fun h => nomatch h.1⟩
  | ok u => exact ⟨fun h => ⟨rfl, h⟩, fun h => h.2⟩

/-- Settings that pass their check allow a pass. -/
theorem TransformConfig.maxPasses_pos {params : BuildParams} {config : TransformConfig} {u : Unit}
    (h : checkSettings params config = .ok u) : 0 < config.maxPasses :=
  Nat.pos_of_ne_zero (validate_eq_ok_iff.mp (checkSettings_eq_ok_iff.mp h).1).2.2.2

/-- A round that plans nothing is the only one. -/
theorem Run.of_idle {config : TransformConfig} {plugin source : String} {p : Program}
    {budget : Nat} (hp : Program.parse? source = some p)
    (hidle : (planEdits config plugin p.tree).1.isEmpty = true) :
    Run.of config plugin (budget + 1) source
      = ⟨source, [⟨(planEdits config plugin p.tree).1, (planEdits config plugin p.tree).2, none⟩],
          .settled⟩ := by
  have hround : Round.of? config plugin source
      = some ⟨(planEdits config plugin p.tree).1, (planEdits config plugin p.tree).2, none⟩ := by
    rw [Round.of?, hp, Option.map_some]
    dsimp only
    rw [if_pos hidle]
  rw [Run.of, hround]

-- ====================================================== whole transforms

section

variable {moduleId source : String} {params : BuildParams} {config : TransformConfig}

/-- A transform whose settings fail their check has their fault as its error. -/
theorem transformNamed_of_settings {e : TransformError}
    (h : checkSettings params config = .error e) :
    transformNamed moduleId source params config = .error e := by
  rw [transformNamed, h]
  rfl

/-- A transform whose settings pass their check comes to what finishing the module does. -/
theorem transformNamed_of_checked (h : checkSettings params config = .ok ()) :
    transformNamed moduleId source params config
      = (finishModule moduleId params config (editModule source params config).isEdited
          (editModule source params config).code).map fun code =>
            ⟨code, (editModule source params config).rounds.length,
              (editModule source params config).converged,
              (editModule source params config).stats⟩ := by
  rw [transformNamed, h]
  simp only [bind, Except.bind]
  cases finishModule moduleId params config (editModule source params config).isEdited
      (editModule source params config).code <;> rfl

/-- What a transform that succeeds went through. -/
theorem transformNamed_ok {out : TransformOutput}
    (h : transformNamed moduleId source params config = .ok out) :
    (∃ u, checkSettings params config = .ok u)
      ∧ finishModule moduleId params config (editModule source params config).isEdited
          (editModule source params config).code = .ok out.code
      ∧ out.passes = (editModule source params config).rounds.length
      ∧ out.converged = (editModule source params config).converged
      ∧ out.stats = (editModule source params config).stats := by
  cases hcheck : checkSettings params config with
  | error e =>
      rw [transformNamed_of_settings hcheck] at h
      cases h
  | ok u =>
      rw [transformNamed_of_checked hcheck] at h
      cases hfinish : finishModule moduleId params config
          (editModule source params config).isEdited (editModule source params config).code with
      | error e =>
          rw [hfinish] at h
          cases h
      | ok code =>
          rw [hfinish] at h
          obtain rfl := Except.ok.inj h
          exact ⟨⟨u, rfl⟩, rfl, rfl, rfl, rfl⟩

end

end Graft
