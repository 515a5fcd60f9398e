import Graft.Proofs.Banner.Strip
import Graft.Proofs.Export.Ensured
import Graft.Proofs.Round.Passes
import Graft.Proofs.Transform.Stages
/-!
What every error of a transform says.

The settings are checked first, and each fault of theirs is an error of its own. After that an error
is about a text that is no program. If the text is the one that came in, the error is one of the
source; if a round has written it, it is one of the result.

`TransformFault` lists the faults, each with what has passed before it is looked for and with the
error that it is reported as. A transform that fails has one of them (`transformNamed_fault`): one
lemma for the settings (`fault_of_checkSettings`) and one for what comes after the rounds
(`fault_of_finishModule`). From the list it is read off what each error says
(`transformNamed_error`). The export fails in one way only, with a keyword for one of its names
(`transformNamed_badExport`), and a run that has edited nothing has read a program, so that its text
is written as it is.
-/
namespace Graft

-- ============================================================ settings

section

variable {moduleId source : String} {params : BuildParams} {config : TransformConfig}

/-- A transform whose settings pass their check fails as finishing the module does. -/
theorem transformNamed_error_iff (h : checkSettings params config = .ok ()) {e : TransformError} :
    transformNamed moduleId source params config = .error e
      ↔ finishModule moduleId params config (editModule source params config).isEdited
          (editModule source params config).code = .error e := by
  rw [transformNamed_of_checked h]
  cases finishModule moduleId params config (editModule source params config).isEdited
      (editModule source params config).code with
  | error e' =>
      exact ⟨fun h => congrArg _ (Except.error.inj h), fun h => congrArg _ (Except.error.inj h)⟩
  | ok code => exact ⟨nofun, nofun⟩

-- ============================================================ the text at fault

/-- The run on a text that is no program has no round. -/
theorem editModule_of_unreadable (hcheck : checkSettings params config = .ok ())
    (h : Program.parse? (params.metadata.strip source) = none) :
    editModule source params config = ⟨params.metadata.strip source, [], .unreadable⟩ := by
  obtain ⟨budget, hbudget⟩ := Nat.exists_eq_succ_of_ne_zero
    (Nat.ne_of_gt (TransformConfig.maxPasses_pos hcheck))
  rw [editModule, hbudget, Run.of, Round.of?_eq_none_iff.mpr h]

/-- What a run has not edited is the text that it began with. -/
theorem code_of_not_edited (h : (editModule source params config).isEdited = false) :
    (editModule source params config).code = params.metadata.strip source := by
  obtain ⟨hfollows, -, -⟩ := Run.follows_of config params.pluginName config.maxPasses
    (params.metadata.strip source)
  refine hfollows.code_eq fun round hround => ?_
  have hnot : ¬round.edited.isSome = true := List.any_eq_false.mp h round hround
  simpa using hnot

/-- A run that reads all its texts without editing any has read a program. -/
theorem isValid_of_not_edited (hcheck : checkSettings params config = .ok ())
    (hread : (editModule source params config).ending ≠ .unreadable)
    (h : (editModule source params config).isEdited = false) :
    Program.isValid (editModule source params config).code = true := by
  rw [code_of_not_edited h, Program.isValid, Option.isSome_iff_ne_none]
  intro hnone
  rw [editModule_of_unreadable hcheck hnone] at hread
  exact hread rfl

end

-- ============================================================ faults

/-- What can be wrong with a transform, and the error that it is reported as. -/
inductive TransformFault (moduleId source : String) (params : BuildParams)
    (config : TransformConfig) : TransformError → Prop
  /-- The configuration fails its check. -/
  | config {cause : ConfigError} (h : config.validate = .error cause) :
      TransformFault moduleId source params config (.config cause)
  /-- A key of the metadata cannot stand in a banner, and is the first one of them. -/
  | metadata {before after : Metadata} {key : String} {value : Json}
      (hconfig : config.validate = .ok ()) (hm : params.metadata = before ++ (key, value) :: after)
      (hbefore : ∀ e ∈ before, Metadata.isKey e.1 = true) (hkey : Metadata.isKey key = false) :
      TransformFault moduleId source params config (.metadata key .badKey)
  /-- The text that came in is no program. -/
  | source (hcheck : checkSettings params config = .ok ())
      (hedited : (editModule source params config).isEdited = false)
      (h : Program.parse? (params.metadata.strip source) = none) :
      TransformFault moduleId source params config (.parse moduleId [])
  /-- A text that a round has written is no program. -/
  | result (hcheck : checkSettings params config = .ok ())
      (hedited : (editModule source params config).isEdited = true)
      (h : Program.parse? (editModule source params config).code = none) :
      TransformFault moduleId source params config (.serialize moduleId [])
  /-- The statement that exports the plugin is none. -/
  | badExport (hcheck : checkSettings params config = .ok ())
      (h : config.exports.tree? = none) :
      TransformFault moduleId source params config (.config (.badExport config.exports.statement))
  /-- The text that is to be written is no program. -/
  | unwritable {p : Program} {tree : Node} {appended : Bool}
      (hcheck : checkSettings params config = .ok ())
      (hp : Program.parse? (editModule source params config).code = some p)
      (hensure : config.exports.ensure p.tree = .ok (tree, appended))
      (h : Program.isValid (tree.render p.comments) = false) :
      TransformFault moduleId source params config (.serialize moduleId [])

section

variable {moduleId source : String} {params : BuildParams} {config : TransformConfig}

/-- The settings are checked first, and the first one that fails is the error. -/
theorem fault_of_checkSettings {e : TransformError} (h : checkSettings params config = .error e) :
    TransformFault moduleId source params config e := by
  rw [checkSettings] at h
  cases hconfig : config.validate with
  | error cause =>
      rw [hconfig] at h
      obtain rfl := Except.error.inj h
      exact .config hconfig
  | ok u =>
      rw [hconfig] at h
      obtain ⟨before, key, value, after, hm, hbefore, hkey, rfl⟩ :=
        Metadata.exists_badKey_of_validate h
      exact .metadata hconfig hm hbefore hkey

/-- The export fails only where its own statement cannot be read. -/
theorem ExportConvention.badExport_of_ensure {e : ExportConvention} {tree : Node}
    {cause : ConfigError} (h : e.ensure tree = .error cause) :
    e.tree? = none ∧ cause = .badExport e.statement := by
  rw [ensure] at h
  split at h
  · cases h
  · cases htree : e.tree? with
    | some statement => rw [htree] at h; cases h
    | none =>
        rw [htree] at h
        exact ⟨rfl, (Except.error.inj h).symm⟩

/-- After the settings, the finishing stage is the only one that fails. -/
theorem fault_of_finishModule {e : TransformError} (hcheck : checkSettings params config = .ok ())
    (h : finishModule moduleId params config (editModule source params config).isEdited
      (editModule source params config).code = .error e) :
    TransformFault moduleId source params config e := by
  cases hp : Program.parse? (editModule source params config).code with
  | none =>
      rw [finishModule_of_unreadable hp] at h
      obtain rfl := Except.error.inj h
      cases hedited : (editModule source params config).isEdited with
      | true => exact .result hcheck hedited hp
      | false => exact .source hcheck hedited (code_of_not_edited hedited ▸ hp)
  | some p =>
      cases hensure : config.exports.ensure p.tree with
      | error cause =>
          rw [finishModule_of_badExport hp hensure] at h
          obtain rfl := Except.error.inj h
          obtain ⟨htree, rfl⟩ := ExportConvention.badExport_of_ensure hensure
          exact .badExport hcheck htree
      | ok ensured =>
          -- the banner is no fault any more, for the keys have been checked
          obtain ⟨b, hbanner⟩ := Metadata.exists_banner (checkSettings_eq_ok_iff.mp hcheck).2
          rw [finishModule_of_ensure hp hensure, hbanner] at h
          cases hvalid : Program.isValid (ensured.1.render p.comments) with
          | true =>
              rw [if_pos hvalid] at h
              cases h
          | false =>
              rw [if_neg (Bool.eq_false_iff.mp hvalid)] at h
              obtain rfl := Except.error.inj h
              exact .unwritable hcheck hp hensure hvalid

/-- A transform that fails has one of the faults, and reports it as its error. -/
theorem transformNamed_fault {e : TransformError}
    (h : transformNamed moduleId source params config = .error e) :
    TransformFault moduleId source params config e := by
  cases hcheck : checkSettings params config with
  | error e' =>
      rw [transformNamed_of_settings hcheck] at h
      obtain rfl := Except.error.inj h
      exact fault_of_checkSettings hcheck
  | ok u => exact fault_of_finishModule hcheck ((transformNamed_error_iff hcheck).mp h)

end

/-- What a transform fails with. -/
theorem transformNamed_error (moduleId source : String) (params : BuildParams)
    (config : TransformConfig) :
    let run := editModule source params config
    let result := transformNamed moduleId source params config
    (∀ cause, config.validate = .error cause → result = .error (.config cause))
      ∧ (∀ before key value after, config.validate = .ok () →
          params.metadata = before ++ (key, value) :: after →
          (∀ e ∈ before, Metadata.isKey e.1 = true) → Metadata.isKey key = false →
          result = .error (.metadata key .badKey))
      ∧ (config.validate = .ok () → (∀ e ∈ params.metadata, Metadata.isKey e.1 = true) →
          ((∃ m ds, result = .error (.parse m ds))
              ↔ Program.isValid (params.metadata.strip source) = false)
            ∧ (run.isEdited = true → Program.isValid run.code = false →
                result = .error (.serialize moduleId []))
            ∧ (run.ending ≠ .unreadable → run.isEdited = false →
                Program.isValid run.code = true)
            ∧ ∀ e, params.metadata.banner? ≠ .error e)
      ∧ (∀ m ds, result = .error (.parse m ds) → m = moduleId ∧ run.isEdited = false
          ∧ Program.isValid (params.metadata.strip source) = false)
      ∧ (∀ m ds, result = .error (.serialize m ds) → m = moduleId ∧ (run.isEdited = true
          ∨ ∃ p tree appended, Program.parse? run.code = some p
              ∧ config.exports.ensure p.tree = .ok (tree, appended)
              ∧ Program.isValid (tree.render p.comments) = false))
      ∧ (∀ key cause, result = .error (.metadata key cause) → config.validate = .ok ()
          ∧ ∃ before value after, params.metadata = before ++ (key, value) :: after
              ∧ (∀ e ∈ before, Metadata.isKey e.1 = true) ∧ Metadata.isKey key = false)
      ∧ ∀ cause, result = .error (.config cause) → config.validate = .error cause
          ∨ config.validate = .ok () ∧ config.exports.tree? = none
            ∧ cause = .badExport config.exports.statement := by
  intro run result
  have hinvalid : ∀ {text : String}, Program.isValid text = false ↔ Program.parse? text = none := by
    simp [Program.isValid]
  refine ⟨fun cause hconfig => ?_, fun before key value after hconfig hm hbefore hkey => ?_,
    fun hconfig hkeys => ?_, fun m ds h => ?_, fun m ds h => ?_, fun key cause h => ?_,
    fun cause h => ?_⟩
  · -- the check of the settings is the first thing that is done
    refine transformNamed_of_settings ?_
    rw [checkSettings, hconfig]
    rfl
  · refine transformNamed_of_settings ?_
    rw [checkSettings, hconfig]
    exact Metadata.validate_of_badKey hm hbefore hkey
  · -- with settings in order, all that fails is finishing
    have hmeta := Metadata.validate_eq_ok_iff.mpr hkeys
    have hcheck : checkSettings params config = .ok () :=
      checkSettings_eq_ok_iff.mpr ⟨hconfig, hmeta⟩
    refine ⟨⟨fun ⟨m, ds, h⟩ => ?_, fun h => ?_⟩, fun hedited hvalid => ?_,
      isValid_of_not_edited hcheck, fun e he => ?_⟩
    · cases transformNamed_fault h with
      | source _ _ hnone => exact hinvalid.mpr hnone
    · refine ⟨moduleId, [], (transformNamed_error_iff hcheck).mpr ?_⟩
      rw [editModule_of_unreadable hcheck (hinvalid.mp h),
        finishModule_of_unreadable (hinvalid.mp h)]
      rfl
    · refine (transformNamed_error_iff hcheck).mpr ?_
      rw [finishModule_of_unreadable (hinvalid.mp hvalid), hedited]
      rfl
    · obtain ⟨b, hbanner⟩ := Metadata.exists_banner hmeta
      rw [hbanner] at he
      cases he
  · -- each kind of error is that of the faults which are reported by it
    cases transformNamed_fault h with
    | source _ hedited hnone => exact ⟨rfl, hedited, hinvalid.mpr hnone⟩
  · cases transformNamed_fault h with
    | result _ hedited _ => exact ⟨rfl, .inl hedited⟩
    | unwritable _ hp hensure hvalid => exact ⟨rfl, .inr ⟨_, _, _, hp, hensure, hvalid⟩⟩
  · cases transformNamed_fault h with
    | metadata hconfig hm hbefore hkey => exact ⟨hconfig, _, _, _, hm, hbefore, hkey⟩
  · cases transformNamed_fault h with
    | config hconfig => exact .inl hconfig
    | badExport hcheck htree =>
        exact .inr ⟨(checkSettings_eq_ok_iff.mp hcheck).1, htree, rfl⟩

/-- After its check a configuration can only fail by an export statement that is none, and that
takes a keyword as the container or as the accessor. -/
theorem transformNamed_badExport {moduleId source : String} {params : BuildParams}
    {config : TransformConfig} {cause : ConfigError} (hconfig : config.validate = .ok ())
    (h : transformNamed moduleId source params config = .error (.config cause)) :
    cause = .badExport config.exports.statement
      ∧ (config.exports.heldForm? = none ∨ config.exports.givenForm? = none) := by
  cases transformNamed_fault h with
  | config hfault =>
      rw [hconfig] at hfault
      cases hfault
  | badExport _ hnone =>
      have hplain := ExportConvention.isPlain_of_validate hconfig
      refine ⟨rfl, ?_⟩
      by_contra hforms
      obtain ⟨hheld, hgiven⟩ := not_or.mp hforms
      obtain ⟨held, hheld⟩ := Option.ne_none_iff_exists'.mp hheld
      obtain ⟨given, hgiven⟩ := Option.ne_none_iff_exists'.mp hgiven
      obtain ⟨n, hn, -⟩ := ExportConvention.exists_tree hplain hheld hgiven
      rw [hnone] at hn
      cases hn

end Graft
