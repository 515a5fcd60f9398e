import Graft.Proofs.Edit.Access
import Graft.Proofs.Grammar.Program
import Graft.Round
/-!
Rounds of editing come to an end by themselves.

# What is left to do

`Node.measure` is a pair, compared lexicographically: first the weight of the program, then the
number of accesses that are loose.

- To elide, prune, substitute or split makes a program lighter.
- To bind leaves its weight alone, and leaves one access less that is loose.

So a round that changes anything lowers the measure, with one decrease for all five kinds of edits
(`planEdits_measure`). Whether a value comes from the host plays no part in this: a round may well
make values of the host out of others, and so find new edits for the next one, but not without
taking something away.

# From trees to texts

The measure is one of trees, and the next round reads a text. So it has to read the tree that was
written, which is what is asked of the texts of a run (`Run.Rereads`), and the measure does not
depend on offsets (`Node.Alike.measure_eq`).

# The end

`Run.of_endsByItself` is the result: the run without a bound is no longer than some bound
(`Run.EndsByItself`). The induction is on the measure, along the texts that the rounds read
(`Run.Reads`). What follows a round that changes something ends by the hypothesis, and a round that
plans nothing, changes nothing, or finds no program is the last one. It takes that `bind` is no
method to be bound itself: the access to it that every binding adds would be loose again.
-/
namespace Graft

namespace Node

/-- What is left to do in a program at most: how much can be taken away, and the number of
accesses that may have to be bound. -/
def measure (host : HostNamespace) (plugin : String) (n : Node) : Nat × Nat :=
  (n.weight, n.loose host plugin .value)

/-- Trees that are alike have the same measure, wherever they stand in their texts. -/
theorem Alike.measure_eq {m n : Node} (h : m.Alike n) (host : HostNamespace) (plugin : String) :
    m.measure host plugin = n.measure host plugin := by
  rw [measure, measure, ← m.weight_unplaced, ← n.weight_unplaced, ← m.loose_unplaced,
    ← n.loose_unplaced, h]

end Node

/-- A plan that changes anything lowers what is left to do. -/
theorem planEdits_measure {config : TransformConfig} {plugin source : String} {p : Program}
    (hbind : "bind" ∉ config.host.bindableMethods) (hp : Program.parse? source = some p)
    {tree : Node} {stats : TransformStats}
    (happly : (planEdits config plugin p.tree).1.apply plugin p.tree = (tree, stats))
    (hstats : stats.total ≠ 0) :
    Prod.Lex (· < ·) (· < ·) (tree.measure config.host plugin)
      (p.tree.measure config.host plugin) := by
  have hw := Program.wellPlaced_of_parse? hp
  have hbindable : config.host.isBindable "bind" = false := by
    simpa [HostNamespace.isBindable] using hbind
  obtain ⟨rfl, rfl⟩ := Prod.mk.inj happly
  -- a cut takes weight away, and a bound access is loose no more; the counts say which one happened
  have hweight : (EditPlan.remake (planEdits config plugin p.tree).1 plugin true
        p.tree).result.weight
      + (EditPlan.remake (planEdits config plugin p.tree).1 plugin true p.tree).stats.cuts
        ≤ p.tree.weight :=
    EditPlan.weight_remake (planEdits_grounded config plugin p.tree) hw p.tree
      (Node.self_mem_parts _) true
  have hloose := EditPlan.loose_remake (planEdits_loose config plugin p.tree hbindable) hw p.tree
    .value fun a ha => ha
  rw [TransformStats.total_eq] at hstats
  change (EditPlan.remake _ plugin true p.tree).stats.cuts
    + (EditPlan.remake _ plugin true p.tree).stats.membersBound ≠ 0 at hstats
  by_cases hcuts : (EditPlan.remake (planEdits config plugin p.tree).1 plugin true
      p.tree).stats.cuts = 0
  · -- without a cut the weight has not grown, and the loose accesses are fewer
    have hle := hloose hcuts
    simp only [Standing.isValue] at hle
    rcases Nat.lt_or_eq_of_le (show
      (EditPlan.remake (planEdits config plugin p.tree).1 plugin true p.tree).result.weight
        ≤ p.tree.weight by omega) with hlt | heq
    · exact .left _ _ hlt
    · refine Prod.lex_def.mpr (.inr ⟨heq, ?_⟩)
      show (EditPlan.remake _ plugin true p.tree).result.loose config.host plugin .value < _
      simp only [Node.measure]
      omega
  · exact .left _ _ (by
      show (EditPlan.remake _ plugin true p.tree).result.weight < _
      omega)

namespace Run

/-- The texts that the rounds of a run read, however many rounds there may be. -/
inductive Reads (config : TransformConfig) (plugin source : String) : String → Prop
  | start : Reads config plugin source source
  | next {text next : String} {round : Round} {stats : TransformStats}
      (h : Reads config plugin source text) (hround : Round.of? config plugin text = some round)
      (hedited : round.edited = some (next, stats)) (hstats : stats.total ≠ 0) :
      Reads config plugin source next

/-- Whether the program that a round on a text writes is read as what it is, if it can be read. -/
def Rereads (config : TransformConfig) (plugin text : String) : Prop :=
  ∀ p ∈ Program.parse? text,
    ∀ q ∈ Program.parse? (((planEdits config plugin p.tree).1.apply plugin p.tree).1.render
      p.comments),
    ((planEdits config plugin p.tree).1.apply plugin p.tree).1.Alike q.tree

instance (config : TransformConfig) (plugin text : String) :
    Decidable (Rereads config plugin text) :=
  inferInstanceAs (Decidable (∀ p ∈ Program.parse? text,
    ∀ q ∈ Program.parse? (((planEdits config plugin p.tree).1.apply plugin p.tree).1.render
      p.comments),
    ((planEdits config plugin p.tree).1.apply plugin p.tree).1.Alike q.tree))

/-- What a round that changes something wrote. -/
theorem edited_of? {config : TransformConfig} {plugin text next : String} {round : Round}
    {stats : TransformStats} (hround : Round.of? config plugin text = some round)
    (hedited : round.edited = some (next, stats)) :
    ∃ p tree, Program.parse? text = some p
      ∧ (planEdits config plugin p.tree).1.apply plugin p.tree = (tree, stats)
      ∧ next = tree.render p.comments := by
  obtain ⟨p, hp, rfl⟩ := Option.map_eq_some_iff.mp hround
  dsimp only at hedited
  split at hedited
  case isTrue => cases hedited
  case isFalse =>
    obtain ⟨rfl, rfl⟩ := Prod.mk.inj (Option.some.inj hedited)
    exact ⟨p, _, hp, rfl, rfl⟩

/-- A round that changes something lowers what is left to do, if the next one reads what it
wrote. -/
theorem measure_lt {config : TransformConfig} {plugin text next : String} {round : Round}
    {stats : TransformStats} {p q : Program} (hbind : "bind" ∉ config.host.bindableMethods)
    (hreread : Rereads config plugin text) (hround : Round.of? config plugin text = some round)
    (hedited : round.edited = some (next, stats)) (hstats : stats.total ≠ 0)
    (hp : Program.parse? text = some p) (hq : Program.parse? next = some q) :
    Prod.Lex (· < ·) (· < ·) (q.tree.measure config.host plugin)
      (p.tree.measure config.host plugin) := by
  obtain ⟨p', tree, hp', happly, rfl⟩ := edited_of? hround hedited
  obtain rfl := Option.some.inj (hp.symm.trans hp')
  have halike := hreread p hp q (by rw [happly]; exact hq)
  rw [happly] at halike
  rw [← halike.measure_eq]
  exact planEdits_measure hbind hp happly hstats

-- ============================================================ the end of a run

/-- Whether a run is no longer than it is, however many rounds there may be. -/
def EndsByItself (config : TransformConfig) (plugin text : String) : Prop :=
  ∃ bound, ∀ budget, bound ≤ budget → (Run.of config plugin budget text).ending ≠ .exhausted

/-- If the run under a budget never ends by exhausting it, whatever the budget, the loop ends by
itself. -/
theorem endsByItself_of_last {config : TransformConfig} {plugin text : String}
    (h : ∀ budget, (Run.of config plugin (budget + 1) text).ending ≠ .exhausted) :
    EndsByItself config plugin text := by
  refine ⟨1, fun budget hbudget => ?_⟩
  obtain ⟨b, rfl⟩ := Nat.exists_eq_add_of_le' hbudget
  exact h b

/-- A text that is no program is the end. -/
theorem endsByItself_of_unreadable {config : TransformConfig} {plugin text : String}
    (h : Program.parse? text = none) : EndsByItself config plugin text := by
  refine endsByItself_of_last fun budget => ?_
  rw [Run.of, Round.of?, h]
  exact nofun

/-- A run ends by itself if what follows its first round does. -/
theorem endsByItself_of_next {config : TransformConfig} {plugin text : String}
    (h : ∀ round next stats, Round.of? config plugin text = some round →
      round.edited = some (next, stats) → stats.total ≠ 0 → EndsByItself config plugin next) :
    EndsByItself config plugin text := by
  cases hround : Round.of? config plugin text with
  | none =>
      refine endsByItself_of_last fun budget => ?_
      rw [Run.of, hround]
      exact nofun
  | some round =>
      cases hedited : round.edited with
      | none =>
          refine endsByItself_of_last fun budget => ?_
          simp [Run.of, hround, hedited]
      | some edited =>
          obtain ⟨next, stats⟩ := edited
          by_cases hstats : stats.total = 0
          · refine endsByItself_of_last fun budget => ?_
            simp [Run.of, hround, hedited, hstats]
          · obtain ⟨bound, hbound⟩ := h round next stats hround hedited hstats
            refine ⟨bound + 1, fun budget hbudget => ?_⟩
            obtain ⟨b, rfl⟩ := Nat.exists_eq_add_of_le' hbudget
            simpa [Run.of, hround, hedited, hstats] using hbound (b + bound) (by omega)

/-- From any program of a run on, there are finitely many rounds: by induction on what is left to
do. -/
theorem endsByItself_of_reads {config : TransformConfig} {plugin source : String}
    (hbind : "bind" ∉ config.host.bindableMethods)
    (hreread : ∀ text, Reads config plugin source text → Rereads config plugin text)
    (μ : Nat × Nat) :
    ∀ text p, Reads config plugin source text → Program.parse? text = some p →
      p.tree.measure config.host plugin = μ → EndsByItself config plugin text := by
  have hwf : WellFounded (Prod.Lex (α := Nat) (β := Nat) (· < ·) (· < ·)) :=
    (Prod.lex Nat.lt_wfRel Nat.lt_wfRel).wf
  induction μ using hwf.induction with
  | _ μ ih =>
      rintro text p hreads hp rfl
      refine endsByItself_of_next fun round next stats hround hedited hstats => ?_
      cases hq : Program.parse? next with
      | none => exact endsByItself_of_unreadable hq
      | some q =>
          exact ih _ (measure_lt hbind (hreread text hreads) hround hedited hstats hp hq) next q
            (hreads.next hround hedited hstats) hq rfl

/-- The rounds on a text come to an end by themselves, if `bind` itself need not be bound: every
round that changes anything lowers what is left to do, and so after finitely many of them one
plans nothing, changes nothing, or reads what is no program. -/
theorem of_endsByItself {config : TransformConfig} {plugin source : String}
    (hbind : "bind" ∉ config.host.bindableMethods)
    (hreread : ∀ text, Reads config plugin source text → Rereads config plugin text) :
    (∀ text p tree stats, Program.parse? text = some p →
        (planEdits config plugin p.tree).1.apply plugin p.tree = (tree, stats) →
        stats.total ≠ 0 →
        Prod.Lex (· < ·) (· < ·) (tree.measure config.host plugin)
          (p.tree.measure config.host plugin))
      ∧ (∀ text next round stats p q, Reads config plugin source text →
          Round.of? config plugin text = some round → round.edited = some (next, stats) →
          stats.total ≠ 0 → Program.parse? text = some p → Program.parse? next = some q →
          Prod.Lex (· < ·) (· < ·) (q.tree.measure config.host plugin)
            (p.tree.measure config.host plugin))
      ∧ ∃ bound, ∀ budget, bound ≤ budget →
          (Run.of config plugin budget source).ending ≠ .exhausted := by
  refine ⟨fun text p tree stats hp happly hstats => planEdits_measure hbind hp happly hstats,
    fun text next round stats p q hreads hround hedited hstats hp hq =>
      measure_lt hbind (hreread text hreads) hround hedited hstats hp hq, ?_⟩
  cases hp : Program.parse? source with
  | none => exact endsByItself_of_unreadable hp
  | some p => exact endsByItself_of_reads hbind hreread _ source p .start hp rfl

/-- An access that is bound in the first round; the second one has nothing to do. -/
theorem of_bound_access_endsByItself :
    (∃ round stats, Round.of? .standard "p" "BdApi.after(1);" = some round
        ∧ round.edited = some ("BdApi.after.bind(null, \"p\")(1);\n", stats))
      ∧ ∃ bound, ∀ budget, bound ≤ budget →
          (Run.of .standard "p" budget "BdApi.after(1);").ending ≠ .exhausted := by
  have hfirst : (Round.of? .standard "p" "BdApi.after(1);").map (fun r => r.edited.map Prod.fst)
      = some (some "BdApi.after.bind(null, \"p\")(1);\n") := by
    decide +kernel
  have hsecond : (Round.of? .standard "p" "BdApi.after.bind(null, \"p\")(1);\n").map (·.edited.isNone)
      = some true := by
    decide +kernel
  obtain ⟨round, hround, hedited⟩ := Option.map_eq_some_iff.mp hfirst
  obtain ⟨⟨next, stats⟩, hedited, rfl⟩ := Option.map_eq_some_iff.mp hedited
  refine ⟨⟨round, stats, hround, hedited⟩, ?_⟩
  -- the run reads two texts only: the start, and what the first round makes of it
  have hreads : ∀ text, Reads .standard "p" "BdApi.after(1);" text →
      text = "BdApi.after(1);" ∨ text = "BdApi.after.bind(null, \"p\")(1);\n" := by
    intro text h
    induction h with
    | start => exact .inl rfl
    | next h hround' hedited' hstats ih =>
        rcases ih with rfl | rfl
        · rw [hround'] at hround
          obtain rfl := Option.some.inj hround
          exact .inr (Prod.mk.inj (Option.some.inj (hedited'.symm.trans hedited))).1
        · rw [hround', Option.map_some, hedited'] at hsecond
          cases hsecond
  refine (of_endsByItself (by decide) fun text h => ?_).2.2
  rcases hreads text h with rfl | rfl
  · decide +kernel
  · decide +kernel

end Run

end Graft
