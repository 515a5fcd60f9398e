import Mathlib.Algebra.GroupWithZero.Nat
import Graft.Round
/-!
The rounds of a run, one after the other.

# Rows of rounds

`Run.Follows` says of a row of rounds that each one reads the text that the one before wrote, and
for what reason the last one is the last. It knows no bound: that a run is cut off is one of the
four ends. A run is such a row (`Run.follows_of`), no longer than its bound, and as long as its
bound if it was cut off. That is the one induction on the bound; all that follows is by induction on
the row.

# What the row says

- Every round but the last one changes something (`Run.Follows.total_ne_zero`).
- A run settles if and only if its last round planned nothing (`Run.Follows.settled_iff`), and it is
  stuck if and only if that round had something to do and changed nothing (`Run.Follows.stuck_iff`).
- The text after a run that settled is the one that its last round read
  (`Run.Follows.exists_program`).
- What a run has changed is the sum of what its rounds have, one kind of edit at a time
  (`Run.stats_eq`), so there are no more rounds than changes, but for the last one.
-/
namespace Graft

-- ============================================================ one round

namespace Round

/-- The round on a text: the plan for its program, and what came of applying it unless it was
empty. -/
theorem exists_of_of? {config : TransformConfig} {plugin source : String} {round : Round}
    (h : of? config plugin source = some round) :
    ∃ p, Program.parse? source = some p ∧ round.plan = (planEdits config plugin p.tree).1
      ∧ round.edited = if round.plan.isEmpty then none
          else some ((round.plan.apply plugin p.tree).1.render p.comments,
            (round.plan.apply plugin p.tree).2) := by
  obtain ⟨p, hp, rfl⟩ := Option.map_eq_some_iff.mp h
  refine ⟨p, hp, ?_⟩
  by_cases hempty : (planEdits config plugin p.tree).1.isEmpty = true
  · simp only [hempty, if_true, and_self]
  · simp only [hempty, if_false, Bool.false_eq_true, and_self]

/-- There is a round for a text just when the text can be read. -/
theorem of?_eq_none_iff {config : TransformConfig} {plugin source : String} :
    of? config plugin source = none ↔ Program.parse? source = none := by
  rw [of?, Option.map_eq_none_iff]

/-- A round leaves the text alone if and only if its plan is empty. -/
theorem edited_eq_none_iff {config : TransformConfig} {plugin source : String} {round : Round}
    (h : of? config plugin source = some round) :
    round.edited = none ↔ round.plan.isEmpty = true := by
  obtain ⟨p, -, -, hedited⟩ := exists_of_of? h
  rw [hedited]
  split
  case isTrue hempty => exact ⟨fun _ => hempty, fun _ => rfl⟩
  case isFalse hempty => exact ⟨nofun, fun hempty' => absurd hempty' hempty⟩

/-- A round that edits reports what it applied. -/
theorem stats_of_edited {round : Round} {next : String} {stats : TransformStats}
    (h : round.edited = some (next, stats)) : round.stats = stats := by
  rw [Round.stats, h]
  rfl

/-- A round that edits nothing reports nothing. -/
theorem stats_of_not_edited {round : Round} (h : round.edited = none) : round.stats = .zero := by
  rw [Round.stats, h]
  rfl

/-- What a round has changed is what applying its plan to its program has. -/
theorem exists_applied {config : TransformConfig} {plugin source : String} {round : Round}
    (h : of? config plugin source = some round) :
    ∃ p, Program.parse? source = some p ∧ round.plan = (planEdits config plugin p.tree).1
      ∧ round.stats = if round.plan.isEmpty then .zero
          else (round.plan.apply plugin p.tree).2 := by
  obtain ⟨p, hp, hplan, hedited⟩ := exists_of_of? h
  refine ⟨p, hp, hplan, ?_⟩
  by_cases hempty : round.plan.isEmpty = true
  · rw [if_pos hempty] at hedited ⊢
    exact stats_of_not_edited hedited
  · rw [if_neg hempty] at hedited ⊢
    exact stats_of_edited hedited

end Round

-- ============================================================ rows of rounds

namespace Run

/-- Whether some rounds follow each other from a text on, what text comes after them, and why there
are no more of them. -/
inductive Follows (config : TransformConfig) (plugin : String) :
    (source : String) → (rounds : List Round) → (code : String) → RunEnd → Prop
  /-- There may be no round. -/
  | exhausted (source : String) : Follows config plugin source [] source .exhausted
  /-- There can be no round. -/
  | unreadable {source : String} (hround : Round.of? config plugin source = none) :
      Follows config plugin source [] source .unreadable
  /-- One that has nothing to do. -/
  | settled {source : String} {round : Round}
      (hround : Round.of? config plugin source = some round) (hedited : round.edited = none) :
      Follows config plugin source [round] source .settled
  /-- One that changes nothing. -/
  | stuck {source next : String} {round : Round} {stats : TransformStats}
      (hround : Round.of? config plugin source = some round)
      (hedited : round.edited = some (next, stats)) (hstats : stats.total = 0) :
      Follows config plugin source [round] next .stuck
  /-- One that changes something, and what follows it. -/
  | next {source next code : String} {round : Round} {stats : TransformStats}
      {rounds : List Round} {ending : RunEnd}
      (hround : Round.of? config plugin source = some round)
      (hedited : round.edited = some (next, stats)) (hstats : stats.total ≠ 0)
      (hrest : Follows config plugin next rounds code ending) :
      Follows config plugin source (round :: rounds) code ending

variable {config : TransformConfig} {plugin source code : String} {rounds : List Round}
  {ending : RunEnd}

/-- A run is a row of rounds, within its bound. -/
theorem follows_of (config : TransformConfig) (plugin : String) (budget : Nat) (source : String) :
    Follows config plugin source (of config plugin budget source).rounds
        (of config plugin budget source).code (of config plugin budget source).ending
      ∧ (of config plugin budget source).rounds.length ≤ budget
      ∧ ((of config plugin budget source).ending = .exhausted →
          (of config plugin budget source).rounds.length = budget) := by
  induction budget generalizing source with
  | zero => exact ⟨.exhausted source, Nat.le_refl 0, fun _ => rfl⟩
  | succ budget ih =>
      rw [of]
      cases hround : Round.of? config plugin source with
      | none => exact ⟨.unreadable hround, Nat.zero_le _, nofun⟩
      | some round =>
          dsimp only
          cases hedited : round.edited with
          | none => exact ⟨.settled hround hedited, Nat.le_add_left 1 budget, nofun⟩
          | some edited =>
              obtain ⟨next, stats⟩ := edited
              dsimp only
              by_cases hstats : stats.total = 0
              · rw [if_pos (beq_iff_eq.mpr hstats)]
                exact ⟨.stuck hround hedited hstats, Nat.le_add_left 1 budget, nofun⟩
              · rw [if_neg (by simpa using hstats)]
                obtain ⟨hrest, hle, heq⟩ := ih next
                exact ⟨.next hround hedited hstats hrest, Nat.succ_le_succ hle,
                  fun h => congrArg (· + 1) (heq h)⟩

namespace Follows

/-- Every round is the one on some text. -/
theorem exists_text (h : Follows config plugin source rounds code ending) :
    ∀ round ∈ rounds, ∃ text, Round.of? config plugin text = some round := by
  induction h with
  | exhausted | unreadable => exact fun _ hmem => nomatch hmem
  | settled hround | stuck hround => exact List.forall_mem_singleton.mpr ⟨_, hround⟩
  | next hround _ _ _ ih => exact List.forall_mem_cons.mpr ⟨⟨_, hround⟩, ih⟩

/-- Every round but the last one changes something. -/
theorem total_ne_zero (h : Follows config plugin source rounds code ending) :
    ∀ round ∈ rounds.dropLast, round.stats.total ≠ 0 := by
  induction h with
  | exhausted | unreadable | settled | stuck => exact fun _ hmem => nomatch hmem
  | @next source next code round stats rounds ending hround hedited hstats hrest ih =>
      intro r hr
      cases rounds with
      | nil => cases hr
      | cons r' rounds =>
          rcases List.mem_cons.mp hr with rfl | hr
          · rwa [Round.stats_of_edited hedited]
          · exact ih r hr

/-- No round at all is an end that no round has decided on. -/
theorem ending_of_nil (h : Follows config plugin source [] code ending) :
    ending ≠ .settled ∧ ending ≠ .stuck := by
  cases h with
  | exhausted | unreadable => exact ⟨nofun, nofun⟩

/-- What holds of the last one of a single round. -/
theorem exists_last_singleton {round : Round} {P : Round → Prop} :
    (∃ last, [round].getLast? = some last ∧ P last) ↔ P round := by
  simp only [List.getLast?_singleton, Option.some.injEq, exists_eq_left']

/-- A run settles if and only if its last round planned nothing. -/
theorem settled_iff (h : Follows config plugin source rounds code ending) :
    ending = .settled ↔ ∃ last, rounds.getLast? = some last ∧ last.plan.isEmpty = true := by
  induction h with
  | exhausted | unreadable => exact ⟨nofun, fun ⟨_, hlast, _⟩ => nomatch hlast⟩
  | settled hround hedited =>
      rw [exists_last_singleton, ← Round.edited_eq_none_iff hround]
      exact ⟨fun _ => hedited, fun _ => rfl⟩
  | stuck hround hedited =>
      rw [exists_last_singleton, ← Round.edited_eq_none_iff hround, hedited]
      exact ⟨nofun, nofun⟩
  | @next source next code round stats rounds ending hround hedited hstats hrest ih =>
      cases rounds with
      | cons r rounds => rwa [List.getLast?_cons_cons]
      | nil =>
          -- cut off after this round, or the next text is no program
          rw [exists_last_singleton, ← Round.edited_eq_none_iff hround, hedited]
          exact ⟨fun hending => absurd hending hrest.ending_of_nil.1, nofun⟩

/-- A run is stuck if and only if its last round had something to do and changed nothing. -/
theorem stuck_iff (h : Follows config plugin source rounds code ending) :
    ending = .stuck ↔ ∃ last, rounds.getLast? = some last ∧ last.plan.isEmpty = false
      ∧ last.stats.total = 0 := by
  have hplanned : ∀ {source next : String} {round : Round} {stats : TransformStats},
      Round.of? config plugin source = some round → round.edited = some (next, stats) →
      round.plan.isEmpty = false := by
    intro source next round stats hround hedited
    refine eq_false_of_ne_true fun hempty => ?_
    rw [(Round.edited_eq_none_iff hround).mpr hempty] at hedited
    cases hedited
  induction h with
  | exhausted | unreadable => exact ⟨nofun, fun ⟨_, hlast, _⟩ => nomatch hlast⟩
  | settled hround hedited =>
      rw [exists_last_singleton, (Round.edited_eq_none_iff hround).mp hedited]
      exact ⟨nofun, nofun⟩
  | stuck hround hedited hstats =>
      rw [exists_last_singleton, Round.stats_of_edited hedited]
      exact ⟨fun _ => ⟨hplanned hround hedited, hstats⟩, fun _ => rfl⟩
  | @next source next code round stats rounds ending hround hedited hstats hrest ih =>
      cases rounds with
      | cons r rounds => rwa [List.getLast?_cons_cons]
      | nil =>
          rw [exists_last_singleton, Round.stats_of_edited hedited]
          exact ⟨fun hending => absurd hending hrest.ending_of_nil.2, fun h => absurd h.2 hstats⟩

/-- The text after a run that settled is the one that its last round read: a program for which
nothing is planned. -/
theorem exists_program (h : Follows config plugin source rounds code ending)
    (hending : ending = .settled) :
    ∃ p, Program.parse? code = some p
      ∧ (planEdits config plugin p.tree).1.isEmpty = true := by
  induction h with
  | exhausted | unreadable | stuck => cases hending
  | settled hround hedited =>
      obtain ⟨p, hp, hplan, -⟩ := Round.exists_of_of? hround
      exact ⟨p, hp, hplan ▸ (Round.edited_eq_none_iff hround).mp hedited⟩
  | next _ _ _ _ ih => exact ih hending

/-- A run whose only round planned nothing leaves its text alone. -/
theorem of_length_eq_one (h : Follows config plugin source rounds code .settled)
    (hlength : rounds.length = 1) :
    code = source ∧ ∃ round, rounds = [round] ∧ round.edited = none := by
  cases h with
  | settled hround hedited => exact ⟨rfl, _, rfl, hedited⟩
  | next hround hedited hstats hrest =>
      obtain rfl := List.length_eq_zero_iff.mp (Nat.succ.inj hlength)
      cases hrest

/-- A run that was not cut off, and that came to a program, has a round. -/
theorem length_pos (h : Follows config plugin source rounds code ending)
    (hexhausted : ending ≠ .exhausted) (hread : ending ≠ .unreadable) : 0 < rounds.length := by
  cases h with
  | exhausted => exact absurd rfl hexhausted
  | unreadable => exact absurd rfl hread
  | settled | stuck | next => exact Nat.succ_pos _

/-- What no round has changed is the text that the run began with. -/
theorem code_eq (h : Follows config plugin source rounds code ending)
    (hnone : ∀ round ∈ rounds, round.edited = none) : code = source := by
  cases h with
  | exhausted | unreadable | settled => rfl
  | stuck hround hedited | next hround hedited =>
      rw [hnone _ List.mem_cons_self] at hedited
      cases hedited

/-- A run that reads no program either began with none, or wrote it. -/
theorem parse?_eq_none (h : Follows config plugin source rounds code ending)
    (hending : ending = .unreadable) : Program.parse? code = none := by
  induction h with
  | exhausted | settled | stuck => cases hending
  | unreadable hround => exact Round.of?_eq_none_iff.mp hround
  | next _ _ _ _ ih => exact ih hending

end Follows

-- ============================================================ what a run has changed

/-- What was counted before a row of rounds is added to what the row counts. -/
theorem foldl_absorb_map (rounds : List Round) (s : TransformStats) :
    (rounds.map Round.stats).foldl TransformStats.absorb s
      = s.absorb ((rounds.map Round.stats).foldl TransformStats.absorb .zero) := by
  induction rounds generalizing s with
  | nil => rfl
  | cons round rounds ih =>
      rw [List.map_cons, List.foldl_cons, List.foldl_cons, ih, ih (TransformStats.zero.absorb _),
        TransformStats.zero_absorb, TransformStats.absorb_assoc]

/-- What a run has changed is the sum of what its rounds have, one kind of edit at a time. -/
theorem stats_eq (run : Run) :
    run.stats =
      { statementsElided := (run.rounds.map fun r => r.stats.statementsElided).sum
        patternsPruned := (run.rounds.map fun r => r.stats.patternsPruned).sum
        importsSubstituted := (run.rounds.map fun r => r.stats.importsSubstituted).sum
        membersBound := (run.rounds.map fun r => r.stats.membersBound).sum
        declaratorsSplit := (run.rounds.map fun r => r.stats.declaratorsSplit).sum } := by
  rw [Run.stats]
  induction run.rounds with
  | nil => rfl
  | cons round rounds ih =>
      rw [List.map_cons, List.foldl_cons, foldl_absorb_map, ih, TransformStats.zero_absorb]
      rfl

/-- The totals of a run are the sums of the totals of its rounds. -/
theorem total_stats (run : Run) :
    run.stats.total = (run.rounds.map fun r => r.stats.total).sum := by
  rw [Run.stats]
  induction run.rounds with
  | nil => rfl
  | cons round rounds ih =>
      rw [List.map_cons, List.foldl_cons, foldl_absorb_map, TransformStats.zero_absorb,
        TransformStats.total_absorb, ih, List.map_cons, List.sum_cons]

/-- Rounds of which all but the last one changed something have changed as many things. -/
theorem length_le_total (run : Run)
    (h : ∀ round ∈ run.rounds.dropLast, round.stats.total ≠ 0) :
    run.rounds.length - 1 ≤ run.stats.total := by
  rw [total_stats]
  generalize run.rounds = rounds at h
  induction rounds with
  | nil => exact Nat.zero_le _
  | cons round rounds ih =>
      cases rounds with
      | nil => exact Nat.zero_le _
      | cons round' rounds =>
          have hfirst := h round List.mem_cons_self
          have hothers := ih fun r hr => h r (List.mem_cons_of_mem _ hr)
          simp only [List.map_cons, List.sum_cons, List.length_cons] at hothers ⊢
          omega

end Run

end Graft
