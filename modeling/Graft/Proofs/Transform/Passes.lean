import Graft.Proofs.Round.Passes
import Graft.Proofs.Transform.Stages
/-!
What the numbers of a transform say about its rounds.

A transform that succeeds has come to a program, so its run settled, got stuck or was cut off, and
each of these is told by its last round. The numbers that it reports are the length of the row of
rounds and the sum of what they changed (`transformNamed_passes`).
-/
namespace Graft

/-- A transform that succeeds has come to a program. -/
theorem ending_ne_unreadable {moduleId source : String} {params : BuildParams}
    {config : TransformConfig} {out : String}
    (h : finishModule moduleId params config (editModule source params config).isEdited
      (editModule source params config).code = .ok out) :
    (editModule source params config).ending ≠ .unreadable := by
  intro hending
  obtain ⟨hfollows, -, -⟩ := Run.follows_of config params.pluginName config.maxPasses
    (params.metadata.strip source)
  obtain ⟨p, -, -, hp, -⟩ := exists_ensure_of_finishModule h
  cases (hfollows.parse?_eq_none hending).symm.trans hp

/-- The rounds of a transform and what it reports of them. -/
theorem transformNamed_passes {moduleId source : String} {params : BuildParams}
    {config : TransformConfig} {out : TransformOutput}
    (h : transformNamed moduleId source params config = .ok out) :
    let run := editModule source params config
    Run.Follows config params.pluginName (params.metadata.strip source) run.rounds run.code
        run.ending
      ∧ out.passes = run.rounds.length ∧ 1 ≤ out.passes ∧ out.passes ≤ config.maxPasses
      ∧ out.stats =
          { statementsElided := (run.rounds.map fun r => r.stats.statementsElided).sum
            patternsPruned := (run.rounds.map fun r => r.stats.patternsPruned).sum
            importsSubstituted := (run.rounds.map fun r => r.stats.importsSubstituted).sum
            membersBound := (run.rounds.map fun r => r.stats.membersBound).sum
            declaratorsSplit := (run.rounds.map fun r => r.stats.declaratorsSplit).sum }
      ∧ (∀ round ∈ run.rounds, ∃ text p, Program.parse? text = some p
          ∧ round.plan = (planEdits config params.pluginName p.tree).1
          ∧ round.stats = if round.plan.isEmpty then .zero
              else (round.plan.apply params.pluginName p.tree).2)
      ∧ (∀ round ∈ run.rounds.dropLast, 1 ≤ round.stats.total)
      ∧ (out.converged = true ↔
          ∃ last, run.rounds.getLast? = some last ∧ last.plan.isEmpty = true)
      ∧ (out.converged = true → out.passes - 1 ≤ out.stats.total)
      ∧ (out.converged = true → out.passes = 1 → out.stats = .zero
          ∧ finishModule moduleId params config false (params.metadata.strip source)
              = .ok out.code)
      ∧ (out.converged = false → out.passes = config.maxPasses
          ∨ ∃ last, run.rounds.getLast? = some last ∧ last.plan.isEmpty = false
              ∧ last.stats.total = 0) := by
  intro run
  obtain ⟨⟨_, hcheck⟩, hfinish, hpasses, hconverged, hstats⟩ := transformNamed_ok h
  have hpos := TransformConfig.maxPasses_pos hcheck
  obtain ⟨hfollows, hle, hexhausted⟩ := Run.follows_of config params.pluginName config.maxPasses
    (params.metadata.strip source)
  change Run.Follows config params.pluginName (params.metadata.strip source) run.rounds run.code
    run.ending at hfollows
  change run.rounds.length ≤ config.maxPasses at hle
  change run.ending = .exhausted → run.rounds.length = config.maxPasses at hexhausted
  have hread : run.ending ≠ .unreadable := ending_ne_unreadable hfinish
  have hlength : 1 ≤ run.rounds.length := by
    by_cases hending : run.ending = .exhausted
    · rw [hexhausted hending]
      exact hpos
    · exact hfollows.length_pos hending hread
  have hsettled : out.converged = true ↔ run.ending = .settled := by
    rw [hconverged]
    exact beq_iff_eq
  refine ⟨hfollows, hpasses, hpasses ▸ hlength, hpasses ▸ hle, hstats.trans run.stats_eq,
    fun round hround => ?_,
    fun round hround => Nat.pos_of_ne_zero (hfollows.total_ne_zero round hround),
    hsettled.trans hfollows.settled_iff, fun _ => ?_, fun hconv hone => ?_, fun hconv => ?_⟩
  · obtain ⟨text, htext⟩ := hfollows.exists_text round hround
    exact ⟨text, Round.exists_applied htext⟩
  · rw [hpasses, hstats]
    exact run.length_le_total hfollows.total_ne_zero
  · -- the only round planned nothing, so nothing was changed
    rw [hsettled.mp hconv] at hfollows
    obtain ⟨hcode, round, hrounds, hedited⟩ := hfollows.of_length_eq_one (hpasses ▸ hone)
    have hzero : run.stats = .zero := by
      rw [Run.stats, hrounds, List.map_singleton, Round.stats_of_not_edited hedited]
      rfl
    have hedited : run.isEdited = false := by
      rw [Run.isEdited, hrounds, List.any_cons, hedited]
      rfl
    refine ⟨hstats.trans hzero, ?_⟩
    rw [← hcode, ← hedited]
    exact hfinish
  · cases hending : run.ending with
    | settled => rw [hsettled.mpr hending] at hconv; cases hconv
    | unreadable => exact absurd hending hread
    | exhausted => exact .inl (hpasses.trans (hexhausted hending))
    | stuck => exact .inr (hfollows.stuck_iff.mp hending)

/-- A call of a pure method and the name that nothing else uses go in the first round; the second
one has nothing to do. -/
theorem transformNamed_passes_of_pure_call :
    ∃ out, transformNamed "m" "let{get}=BdApi;get()" ⟨"p", []⟩ .standard = .ok out
      ∧ out.passes = 2 ∧ out.converged = true
      ∧ (editModule "let{get}=BdApi;get()" ⟨"p", []⟩ .standard).rounds.length = 2
      ∧ out.passes - 1 ≤ out.stats.total := by
  have hruns : ((transformNamed "m" "let{get}=BdApi;get()" ⟨"p", []⟩
      .standard).toOption.any fun out => out.passes == 2 && out.converged) = true := by
    decide +kernel
  cases hout : transformNamed "m" "let{get}=BdApi;get()" ⟨"p", []⟩ .standard with
  | error e =>
      rw [hout] at hruns
      cases hruns
  | ok out =>
      rw [hout] at hruns
      obtain ⟨htwo, hconverged⟩ : out.passes = 2 ∧ out.converged = true := by
        simpa [Except.toOption] using hruns
      obtain ⟨-, hpasses, -, -, -, -, -, -, htotal, -, -⟩ := transformNamed_passes hout
      exact ⟨out, rfl, htwo, hconverged, hpasses.symm.trans htwo, htotal hconverged⟩

end Graft
