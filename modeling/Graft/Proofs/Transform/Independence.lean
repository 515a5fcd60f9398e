import Graft.Proofs.Config.Validation
import Graft.Proofs.Round.Bound
import Graft.Proofs.Transform.Errors
import Graft.Proofs.Transform.Passes
/-!
What a transform does not depend on.

Three of its settings are not read where the program is edited.

- The bound only cuts off the rounds, so it is not seen by a transform whose rounds ended before it;
  and of two bounds the smaller one has a first part of the rounds of the larger one
  (`transformNamed_bound`).
- The name of the module labels errors and is read nowhere else.
- The metadata is read before the rounds, to take a banner off, and after them, to put one on;
  between the two there is one run and one final text. Two transforms whose metadata takes off the
  same banner fail with one error under two labels, or put their own banners over one text
  (`transformNamed_metadata`).
-/
namespace Graft

open Text

-- ============================================================ the bound

namespace TransformConfig

/-- The check of the settings only asks of the bound that it is not zero. -/
theorem validate_withMaxPasses {c : TransformConfig} {k k' : Nat}
    (h : { c with maxPasses := k }.validate = .ok ()) (hk' : k' ≠ 0) :
    { c with maxPasses := k' }.validate = .ok () := by
  obtain ⟨hnames, hmethods, hreplacements, -⟩ := validate_eq_ok_iff.mp h
  exact validate_eq_ok_iff.mpr ⟨hnames, hmethods, hreplacements, hk'⟩

end TransformConfig

/-- A run under a bound is the run of all other settings, cut off there. -/
theorem editModule_withMaxPasses (source : String) (params : BuildParams)
    (config : TransformConfig) (k : Nat) :
    editModule source params { config with maxPasses := k }
      = Run.of config params.pluginName k (params.metadata.strip source) :=
  Run.of_withMaxPasses config k params.pluginName k (params.metadata.strip source)

/-- A transform whose last round changed nothing is the same under every bound that its rounds
fit under, and under any two bounds the rounds are the same as far as both go. -/
theorem transformNamed_bound (moduleId source : String) (params : BuildParams)
    (config : TransformConfig) :
    (∀ k out, transformNamed moduleId source params { config with maxPasses := k } = .ok out →
        (out.converged = true
          ∨ ∃ last, (editModule source params { config with maxPasses := k }).rounds.getLast?
              = some last ∧ last.stats.total = 0) →
        ∀ k', out.passes ≤ k' →
          transformNamed moduleId source params { config with maxPasses := k' } = .ok out)
      ∧ ∀ k k', k < k' →
          (editModule source params { config with maxPasses := k }).rounds
            <+: (editModule source params { config with maxPasses := k' }).rounds := by
  refine ⟨fun k out h hlast k' hk' => ?_, fun k k' hlt => ?_⟩
  · obtain ⟨⟨⟨⟩, hcheck⟩, hfinish, hpasses, hconverged, hstats⟩ := transformNamed_ok h
    obtain ⟨-, -, hone, -⟩ := transformNamed_passes h
    rw [editModule_withMaxPasses] at hfinish hpasses hconverged hstats hlast
    have hfollows := (Run.follows_of config params.pluginName k (params.metadata.strip source)).1
    have hstopped := hlast.elim
      (fun hconv => .inl (beq_iff_eq.mp (hconverged.symm.trans hconv))) hfollows.stopped_iff.mpr
    have hrun := Run.of_eq_of_stopped hstopped (hpasses ▸ hk')
    have hcheck' : checkSettings params { config with maxPasses := k' } = .ok () := by
      obtain ⟨hconfig, hmetadata⟩ := checkSettings_eq_ok_iff.mp hcheck
      exact checkSettings_eq_ok_iff.mpr
        ⟨TransformConfig.validate_withMaxPasses hconfig (by omega), hmetadata⟩
    rw [transformNamed_of_checked hcheck', editModule_withMaxPasses, hrun]
    obtain ⟨code, passes, converged, stats⟩ := out
    obtain ⟨rfl, rfl, rfl⟩ : _ ∧ _ ∧ _ := ⟨hpasses, hconverged, hstats⟩
    exact congrArg (Except.map _) hfinish
  · rw [editModule_withMaxPasses, editModule_withMaxPasses]
    exact Run.rounds_prefix (Nat.le_of_lt hlt)

/-- A pure call and the name that nothing else uses go in two rounds, under a bound of five and
under one of two. -/
theorem transformNamed_bound_of_pure_call :
    ∃ out, transformNamed "m" "let{get}=BdApi;get()" ⟨"p", []⟩
          { TransformConfig.standard with maxPasses := 5 } = .ok out
      ∧ out.converged = true ∧ out.passes = 2
      ∧ transformNamed "m" "let{get}=BdApi;get()" ⟨"p", []⟩
          { TransformConfig.standard with maxPasses := 2 } = .ok out := by
  have hruns : ((transformNamed "m" "let{get}=BdApi;get()" ⟨"p", []⟩
      { TransformConfig.standard with maxPasses := 5 }).toOption.any
        fun out => out.converged && out.passes == 2) = true := by
    decide +kernel
  cases hout : transformNamed "m" "let{get}=BdApi;get()" ⟨"p", []⟩
      { TransformConfig.standard with maxPasses := 5 } with
  | error e =>
      rw [hout] at hruns
      cases hruns
  | ok out =>
      rw [hout] at hruns
      obtain ⟨hconverged, htwo⟩ : out.converged = true ∧ out.passes = 2 := by
        simpa [Except.toOption] using hruns
      exact ⟨out, rfl, hconverged, htwo,
        (transformNamed_bound "m" "let{get}=BdApi;get()" ⟨"p", []⟩ .standard).1 5 out hout
          (.inl hconverged) 2 (Nat.le_of_eq htwo)⟩

-- ============================================================ labels and banners

/-- An error under another name for the module that it is about. -/
def TransformError.labelled (moduleId : String) : TransformError → TransformError
  | .parse _ diagnostics => .parse moduleId diagnostics
  | .serialize _ diagnostics => .serialize moduleId diagnostics
  | .config cause => .config cause
  | .metadata key cause => .metadata key cause

/-- Whether a code is a text under the banner of some metadata; no metadata has none. -/
def Metadata.Tops (m : Metadata) (text code : String) : Prop :=
  m = [] ∧ code = text ∨ ∃ banner, m.banner? = .ok (some banner) ∧ code = prepend text banner

/-- A banner that is written stands on top of the text, and one that is not leaves the text
alone. -/
theorem Metadata.tops_of_banner? {m : Metadata} {banner : Option String}
    (h : m.banner? = .ok banner) (text : String) :
    m.Tops text ((banner.map (prepend text)).getD text) := by
  cases banner with
  | some banner => exact .inr ⟨banner, h, rfl⟩
  | none =>
      refine .inl ⟨?_, rfl⟩
      cases m with
      | nil => rfl
      | cons entry m =>
          rw [Metadata.banner?, List.isEmpty_cons, if_neg Bool.false_ne_true] at h
          cases hvalid : Metadata.validate (entry :: m) with
          | error e => rw [hvalid] at h; cases h
          | ok u => rw [hvalid] at h; cases h

/-- Finishing a module reads the name of the module for the label of an error and the metadata for
the banner; what is labelled, and what the banner stands over, comes from neither. -/
theorem finishModule_eq (moduleId plugin : String) {metadata : Metadata} {banner : Option String}
    (hbanner : metadata.banner? = .ok banner) (config : TransformConfig) (isEdited : Bool)
    (code : String) :
    finishModule moduleId ⟨plugin, metadata⟩ config isEdited code
      = ((finishModule "" ⟨"", []⟩ config isEdited code).mapError (·.labelled moduleId)).map
          fun text => (banner.map (Metadata.prepend text)).getD text := by
  cases hp : Program.parse? code with
  | none =>
      rw [finishModule_of_unreadable hp, finishModule_of_unreadable hp]
      cases isEdited <;> rfl
  | some p =>
      cases hensure : config.exports.ensure p.tree with
      | error cause =>
          rw [finishModule_of_badExport hp hensure, finishModule_of_badExport hp hensure]
          rfl
      | ok ensured =>
          rw [finishModule_of_ensure hp hensure, finishModule_of_ensure hp hensure, hbanner]
          cases Program.isValid (ensured.1.render p.comments) <;> rfl

/-- Two transforms of the same program under metadata that takes the same banner off it: either
both fail with one error under their own labels, or both come to one final text under their own
banners, in as many rounds with the same edits. -/
theorem transformNamed_metadata {source : String} {m₁ m₂ : Metadata}
    (moduleId₁ moduleId₂ plugin : String) (config : TransformConfig)
    (hm₁ : m₁.validate = .ok ()) (hm₂ : m₂.validate = .ok ())
    (hstrip : m₁.strip source = m₂.strip source) :
    (∃ e : TransformError,
        transformNamed moduleId₁ source ⟨plugin, m₁⟩ config = .error (e.labelled moduleId₁)
          ∧ transformNamed moduleId₂ source ⟨plugin, m₂⟩ config = .error (e.labelled moduleId₂))
      ∨ ∃ text out₁ out₂, transformNamed moduleId₁ source ⟨plugin, m₁⟩ config = .ok out₁
          ∧ transformNamed moduleId₂ source ⟨plugin, m₂⟩ config = .ok out₂
          ∧ out₁.passes = out₂.passes ∧ out₁.converged = out₂.converged
          ∧ out₁.stats = out₂.stats
          ∧ m₁.Tops text out₁.code ∧ m₂.Tops text out₂.code := by
  cases hconfig : config.validate with
  | error cause =>
      -- the settings fail before anything is labelled
      have hsettings (m : Metadata) :
          checkSettings ⟨plugin, m⟩ config = .error (.config cause) := by
        rw [checkSettings, hconfig]
        rfl
      exact .inl ⟨.config cause, transformNamed_of_settings (hsettings m₁),
        transformNamed_of_settings (hsettings m₂)⟩
  | ok u =>
      -- both runs edit the one stripped text
      have hrun : editModule source ⟨plugin, m₁⟩ config = editModule source ⟨plugin, m₂⟩ config :=
        congrArg (Run.of config plugin config.maxPasses) hstrip
      obtain ⟨banner₁, hbanner₁⟩ := Metadata.exists_banner hm₁
      obtain ⟨banner₂, hbanner₂⟩ := Metadata.exists_banner hm₂
      rw [transformNamed_of_checked (checkSettings_eq_ok_iff.mpr ⟨hconfig, hm₁⟩),
        transformNamed_of_checked (checkSettings_eq_ok_iff.mpr ⟨hconfig, hm₂⟩), hrun,
        finishModule_eq moduleId₁ plugin hbanner₁, finishModule_eq moduleId₂ plugin hbanner₂]
      -- what the last step makes without a label and a banner is shared by both
      cases finishModule "" ⟨"", []⟩ config (editModule source ⟨plugin, m₂⟩ config).isEdited
          (editModule source ⟨plugin, m₂⟩ config).code with
      | error e => exact .inl ⟨e, rfl, rfl⟩
      | ok text =>
          exact .inr ⟨text, _, _, rfl, rfl, rfl, rfl, rfl, Metadata.tops_of_banner? hbanner₁ text,
            Metadata.tops_of_banner? hbanner₂ text⟩

/-- A module that begins with a banner loses it to the same key with two values, and gets two other
banners over one text. -/
theorem transformNamed_metadata_of_name :
    let source := "/**\n * @name E\n */\nlet e=BdApi;e.get()"
    let m₁ : Metadata := [("name", .string "F")]
    let m₂ : Metadata := [("name", .string "G"), ("version", .string "2")]
    m₁.strip source ≠ source ∧ ∃ text out₁ out₂,
      transformNamed "a" source ⟨"p", m₁⟩ .standard = .ok out₁
      ∧ transformNamed "b" source ⟨"p", m₂⟩ .standard = .ok out₂
      ∧ out₁.passes = out₂.passes ∧ out₁.stats = out₂.stats
      ∧ m₁.Tops text out₁.code ∧ m₂.Tops text out₂.code := by
  intro source m₁ m₂
  have hstrip : m₁.strip source = m₂.strip source ∧ m₁.strip source ≠ source := by
    decide +kernel
  have hok : (transformNamed "a" source ⟨"p", m₁⟩ .standard).toOption.isSome = true := by
    decide +kernel
  refine ⟨hstrip.2, ?_⟩
  rcases transformNamed_metadata "a" "b" "p" .standard (by decide : m₁.validate = .ok ())
    (by decide : m₂.validate = .ok ()) hstrip.1 with
    ⟨e, herror, -⟩ | ⟨text, out₁, out₂, h₁, h₂, hpasses, -, hstats, htops₁, htops₂⟩
  · rw [herror] at hok
    cases hok
  · exact ⟨text, out₁, out₂, h₁, h₂, hpasses, hstats, htops₁, htops₂⟩

end Graft
