import Graft.Proofs.Round.Passes
/-!
The bound of a run.

No round reads the bound: it only says where a row of rounds is cut off. So three things can be told
from the row alone.

- A run under a smaller bound begins every run under a larger one (`Run.rounds_prefix`), by
  induction on the smaller bound.
- A run that a round of its own has ended is the run under every bound that has room for it
  (`Run.of_eq_of_stopped`).
- Which round that is: the last one, if it changed nothing (`Run.Follows.stopped_iff`).
-/
namespace Graft

-- ====================================================== rounds without the bound

/-- What is planned for a text, and what comes of it, is the same whatever the bound. -/
theorem Round.of?_withMaxPasses (config : TransformConfig) (bound : Nat)
    (plugin source : String) :
    Round.of? { config with maxPasses := bound } plugin source = Round.of? config plugin source :=
  rfl

namespace Run

/-- The bound of the settings is not the bound of the run until the run is given it. -/
theorem of_withMaxPasses (config : TransformConfig) (bound : Nat) (plugin : String) (budget : Nat)
    (source : String) :
    of { config with maxPasses := bound } plugin budget source = of config plugin budget source := by
  induction budget generalizing source with
  | zero => rfl
  | succ budget ih => simp only [of, Round.of?_withMaxPasses, ih]

variable {config : TransformConfig} {plugin source code : String} {rounds : List Round}
  {ending : RunEnd}

-- ====================================================== runs under two bounds

/-- A row of rounds that a round of its own has ended is the run under every bound that has room
for it. -/
theorem Follows.of_eq (h : Follows config plugin source rounds code ending)
    (hstopped : ending = .settled ∨ ending = .stuck) {budget : Nat}
    (hle : rounds.length ≤ budget) :
    Run.of config plugin budget source = ⟨code, rounds, ending⟩ := by
  induction h generalizing budget with
  | exhausted | unreadable => exact hstopped.elim nofun nofun
  | settled hround hedited =>
      obtain ⟨budget, rfl⟩ := Nat.exists_eq_succ_of_ne_zero (Nat.ne_of_gt hle)
      simp only [Run.of, hround, hedited]
  | stuck hround hedited hstats =>
      obtain ⟨budget, rfl⟩ := Nat.exists_eq_succ_of_ne_zero (Nat.ne_of_gt hle)
      simp only [Run.of, hround, hedited, hstats, BEq.rfl, if_true]
  | next hround hedited hstats _ ih =>
      obtain ⟨budget, rfl⟩ := Nat.exists_eq_succ_of_ne_zero
        (Nat.ne_of_gt (Nat.lt_of_lt_of_le (Nat.succ_pos _) hle))
      simp only [Run.of, hround, hedited, beq_iff_eq, hstats, if_false]
      rw [ih hstopped (Nat.le_of_succ_le_succ hle)]

/-- A run that a round of its own has ended does not depend on the bound. -/
theorem of_eq_of_stopped {budget budget' : Nat}
    (hstopped : (of config plugin budget source).ending = .settled
      ∨ (of config plugin budget source).ending = .stuck)
    (hle : (of config plugin budget source).rounds.length ≤ budget') :
    of config plugin budget' source = of config plugin budget source :=
  (follows_of config plugin budget source).1.of_eq hstopped hle

/-- The rounds of a run begin those of every run under a larger bound. -/
theorem rounds_prefix {budget budget' : Nat} (hle : budget ≤ budget') :
    (of config plugin budget source).rounds <+: (of config plugin budget' source).rounds := by
  induction budget generalizing budget' source with
  | zero => exact List.nil_prefix
  | succ budget ih =>
      obtain ⟨budget', rfl⟩ := Nat.exists_eq_succ_of_ne_zero
        (Nat.ne_of_gt (Nat.lt_of_lt_of_le (Nat.succ_pos _) hle))
      rw [of, of]
      cases Round.of? config plugin source with
      | none => exact List.prefix_rfl
      | some round =>
          dsimp only
          cases round.edited with
          | none => exact List.prefix_rfl
          | some edited =>
              obtain ⟨next, stats⟩ := edited
              dsimp only
              split
              case isTrue => exact List.prefix_rfl
              case isFalse =>
                  exact (List.prefix_cons_inj round).mpr (ih (Nat.le_of_succ_le_succ hle))

-- ====================================================== rounds that end a run

namespace Follows

/-- A round that plans nothing changes nothing. -/
theorem total_eq_zero_of_idle (h : Follows config plugin source rounds code ending) {round : Round}
    (hround : round ∈ rounds) (hidle : round.plan.isEmpty = true) : round.stats.total = 0 := by
  obtain ⟨text, htext⟩ := h.exists_text round hround
  rw [Round.stats_of_not_edited ((Round.edited_eq_none_iff htext).mpr hidle)]
  rfl

/-- A round of its own has ended a run if and only if the last round changed nothing. -/
theorem stopped_iff (h : Follows config plugin source rounds code ending) :
    (ending = .settled ∨ ending = .stuck)
      ↔ ∃ last, rounds.getLast? = some last ∧ last.stats.total = 0 := by
  rw [h.settled_iff, h.stuck_iff]
  constructor
  · rintro (⟨last, hlast, hidle⟩ | ⟨last, hlast, -, htotal⟩)
    · exact ⟨last, hlast, h.total_eq_zero_of_idle (List.mem_of_getLast? hlast) hidle⟩
    · exact ⟨last, hlast, htotal⟩
  · rintro ⟨last, hlast, htotal⟩
    cases hidle : last.plan.isEmpty with
    | true => exact .inl ⟨last, hlast, hidle⟩
    | false => exact .inr ⟨last, hlast, hidle, htotal⟩

end Follows

end Run

end Graft
