import Graft.Proofs.Edit.Renamed
import Graft.Proofs.Round.Ends
import Graft.Proofs.Round.Passes
/-!
Rounds for plugins of different names.

A round on renamed programs plans as much for both, does as much to both, and leaves renamed
programs behind (`Run.exists_rounds_of_renamed`). If the next round reads what was written
(`Run.Restores`), it begins with renamed programs again. So two runs on renamed programs go on for
as long and end for the same reason (`Run.renamed_of`). The induction is on the budget, with one
round of each run at a time.
-/
namespace Graft

open Node

/-- There is a round on a program, and it writes something unless nothing is planned. -/
theorem Round.exists_of_parse? (config : TransformConfig) (plugin : String) {source : String}
    {p : Program} (hp : Program.parse? source = some p) :
    ∃ round, Round.of? config plugin source = some round
      ∧ round.edited = if (planEdits config plugin p.tree).1.isEmpty then none
          else some (((planEdits config plugin p.tree).1.apply plugin p.tree).1.render p.comments,
            ((planEdits config plugin p.tree).1.apply plugin p.tree).2) := by
  obtain ⟨round, hround⟩ := Option.ne_none_iff_exists'.mp fun hnone =>
    absurd (Round.of?_eq_none_iff.mp hnone) (by rw [hp]; nofun)
  obtain ⟨p', hp', hplan, hedited⟩ := Round.exists_of_of? hround
  obtain rfl := Option.some.inj (hp'.symm.trans hp)
  exact ⟨round, hround, hplan ▸ hedited⟩

namespace Run

section

variable {config : TransformConfig} {plugin source text next : String}
  (hfirst : (Round.of? config plugin source).map (fun r => r.edited.map Prod.fst)
    = some (some next))
  (hsecond : (Round.of? config plugin next).map (fun r => r.edited.map Prod.fst) = some none)
include hfirst hsecond

/-- A run whose second round writes nothing has read what it began with and what the first round
wrote. -/
theorem Reads.eq_or_eq (h : Reads config plugin source text) : text = source ∨ text = next := by
  induction h with
  | start => exact .inl rfl
  | next _ hround hedited _ ih =>
      rcases ih with rfl | rfl
      · rw [hround, Option.map_some, hedited] at hfirst
        exact .inr (Option.some.inj (Option.some.inj hfirst))
      · rw [hround, Option.map_some, hedited] at hsecond
        cases hsecond

/-- A run whose second round writes nothing comes to what the first round wrote. -/
theorem code_of_two_rounds (budget : Nat) :
    (Run.of config plugin (budget + 2) source).code = next := by
  obtain ⟨round, hround, hfirst⟩ := Option.map_eq_some_iff.mp hfirst
  obtain ⟨⟨_, stats⟩, hedited, rfl⟩ := Option.map_eq_some_iff.mp hfirst
  obtain ⟨round', hround', hsecond⟩ := Option.map_eq_some_iff.mp hsecond
  simp only [Run.of, hround, hedited, hround', Option.map_eq_none_iff.mp hsecond]
  split <;> rfl

end

/-- Whether the program that a round on a text writes, if it writes one, is read as what it is. -/
def Restores (config : TransformConfig) (plugin text : String) : Prop :=
  ∀ p ∈ Program.parse? text, (planEdits config plugin p.tree).1.isEmpty = false →
    ∃ q ∈ Program.parse? (((planEdits config plugin p.tree).1.apply plugin p.tree).1.render
      p.comments),
    ((planEdits config plugin p.tree).1.apply plugin p.tree).1.Alike q.tree

instance (config : TransformConfig) (plugin text : String) :
    Decidable (Restores config plugin text) :=
  inferInstanceAs (Decidable (∀ p ∈ Program.parse? text,
    (planEdits config plugin p.tree).1.isEmpty = false →
    ∃ q ∈ Program.parse? (((planEdits config plugin p.tree).1.apply plugin p.tree).1.render
      p.comments),
    ((planEdits config plugin p.tree).1.apply plugin p.tree).1.Alike q.tree))

/-- What two rounds on renamed programs come to: both write nothing, or both write programs that are
read as renamed ones, after the same edits. -/
theorem exists_rounds_of_renamed {config : TransformConfig} {a b text text' : String} {p q : Program}
    (hp : Program.parse? text = some p) (hq : Program.parse? text' = some q)
    (h : Node.Renamed a b p.tree q.tree) (hleft : Restores config a text)
    (hright : Restores config b text') :
    ∃ round round', Round.of? config a text = some round ∧ Round.of? config b text' = some round'
      ∧ (round.edited = none ∧ round'.edited = none
        ∨ ∃ next next' stats p' q', round.edited = some (next, stats)
            ∧ round'.edited = some (next', stats) ∧ Program.parse? next = some p'
            ∧ Program.parse? next' = some q' ∧ Node.Renamed a b p'.tree q'.tree) := by
  obtain ⟨hempty, happly, hstats⟩ := planEdits_renamed (Program.wellPlaced_of_parse? hp)
    (Program.wellPlaced_of_parse? hq) (Program.form_of_parse? hp) (Program.form_of_parse? hq) config h
  obtain ⟨round, hround, hedited⟩ := Round.exists_of_parse? config a hp
  obtain ⟨round', hround', hedited'⟩ := Round.exists_of_parse? config b hq
  refine ⟨round, round', hround, hround', ?_⟩
  rw [hempty, hstats] at hedited'
  cases hidle : (planEdits config a p.tree).1.isEmpty with
  | true =>
      rw [hidle, if_pos rfl] at hedited hedited'
      exact .inl ⟨hedited, hedited'⟩
  | false =>
      rw [hidle, if_neg Bool.false_ne_true] at hedited hedited'
      obtain ⟨p', hp', hpalike⟩ := hleft p hp hidle
      obtain ⟨q', hq', hqalike⟩ := hright q hq (hempty.trans hidle)
      exact .inr ⟨_, _, _, p', q', hedited, hedited', hp', hq', happly.of_alike hpalike hqalike⟩

/-- Whether two runs have gone the same way, and have come to renamed programs. -/
structure Renamed (a b : String) (r s : Run) : Prop where
  ending : s.ending = r.ending
  stats : s.rounds.map Round.stats = r.rounds.map Round.stats
  code : ∃ p q, Program.parse? r.code = some p ∧ Program.parse? s.code = some q
    ∧ Node.Renamed a b p.tree q.tree

namespace Renamed

variable {a b : String} {r s : Run} (h : Renamed a b r s)
include h

theorem length_eq : s.rounds.length = r.rounds.length := by
  rw [← List.length_map (f := Round.stats), h.stats, List.length_map]

theorem converged_eq : s.converged = r.converged := by
  rw [converged, h.ending, converged]

theorem stats_eq : s.stats = r.stats := by
  rw [Run.stats, h.stats, Run.stats]

end Renamed

/-- Two runs on renamed programs go the same way. -/
theorem renamed_of {config : TransformConfig} {a b source source' : String}
    (hleft : ∀ text, Reads config a source text → Restores config a text)
    (hright : ∀ text, Reads config b source' text → Restores config b text) (budget : Nat) :
    ∀ text text' p q, Reads config a source text → Reads config b source' text' →
      Program.parse? text = some p → Program.parse? text' = some q →
      Node.Renamed a b p.tree q.tree →
      Renamed a b (Run.of config a budget text) (Run.of config b budget text') := by
  induction budget with
  | zero =>
      intro text text' p q _ _ hp hq h
      exact ⟨rfl, rfl, p, q, hp, hq, h⟩
  | succ budget ih =>
      intro text text' p q hreads hreads' hp hq h
      obtain ⟨round, round', hround, hround', hedits⟩ :=
        exists_rounds_of_renamed hp hq h (hleft text hreads) (hright text' hreads')
      -- the two rounds both plan nothing, or both edit
      rcases hedits with ⟨hnone, hnone'⟩
        | ⟨next, next', stats, p', q', hedited, hedited', hp', hq', hnext⟩
      · have hstats : round'.stats = round.stats := by
          rw [Round.stats_of_not_edited hnone, Round.stats_of_not_edited hnone']
        simp only [Run.of, hround, hround', hnone, hnone']
        exact ⟨rfl, congrArg ([·]) hstats, p, q, hp, hq, h⟩
      · have hstats : round'.stats = round.stats := by
          rw [Round.stats_of_edited hedited, Round.stats_of_edited hedited']
        -- an edit that counts nothing ends both runs here, any other one leaves both to the
        -- induction
        by_cases htotal : stats.total = 0
        · simp only [Run.of, hround, hround', hedited, hedited', htotal, BEq.rfl, if_true]
          exact ⟨rfl, congrArg ([·]) hstats, p', q', hp', hq', hnext⟩
        · have hrest := ih next next' p' q' (hreads.next hround hedited htotal)
            (hreads'.next hround' hedited' htotal) hp' hq' hnext
          simp only [Run.of, hround, hround', hedited, hedited', beq_iff_eq, htotal, if_false]
          exact ⟨hrest.ending, congrArg₂ List.cons hstats hrest.stats, hrest.code⟩

end Run

end Graft
