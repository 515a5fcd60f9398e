import Graft.Grammar.Program
import Graft.Proofs.Grammar.Statement
/-!
Whatever is read as a program is well placed (`Program.wellPlaced_of_parse?`).

The rules of the grammar call each other in circles, and the circles are cut by building the rules
level by level. So soundness is an induction on the level: the rules at the bottom give nothing
(`Rules.sound_none`), and rules in terms of sound rules are sound (`Rules.Sound.next`), which is
where the theorems about the single readers are put together. A program is read by the rules of one
level, over all of its tokens.
-/
namespace Graft

namespace Rules

/-- Rules that fail are sound. -/
theorem sound_none : Rules.none.Sound where
  assignment _ _ _ := Parse.ends_failure
  binary _ _ _ _ := Parse.ends_failure
  unary _ _ _ := Parse.ends_failure
  postfixed _ _ _ := Parse.ends_failure
  primary _ _ _ := Parse.ends_failure
  pattern _ _ _ := Parse.ends_failure
  statement _ _ _ _ := Parse.ends_failure

/-- Rules in terms of sound rules are sound. -/
theorem Sound.next {r : Rules} (h : r.Sound) (fuel : Nat) : (r.next fuel).Sound := by
  have h' : Sound { r with fuel := fuel } := { h with }
  exact
    { assignment := fun _ _ hc => Parse.assignment_reads h' hc
      binary := fun _ least _ hc => Parse.binary_reads h' least hc
      unary := fun _ _ hc => Parse.unary_reads h' hc
      postfixed := fun _ _ hc => Parse.postfixed_reads h' hc
      primary := fun _ _ hc => Parse.primary_reads h' hc
      pattern := fun _ _ hc => Parse.bindingPattern_reads h' hc
      statement := fun _ _ _ hc => Parse.statement_reads h' hc }

/-- The rules are sound at every level. -/
theorem sound_level (n : Nat) : (level n).Sound := by
  induction n with
  | zero => exact sound_none
  | succ n ih => exact ih.next (n + 1)

end Rules

namespace Program

/-- A program that was read is well placed. -/
theorem wellPlaced_of_parse? {source : String} {p : Program} (h : parse? source = some p) :
    p.tree.WellPlaced := by
  unfold parse? at h
  simp only [Option.bind_eq_bind, Option.bind_eq_some_iff] at h
  obtain ⟨c, hc, ⟨parts, c'⟩, hparts, h⟩ := h
  split at h
  · cases h
  · obtain rfl := Option.some.inj h
    obtain ⟨hsound, -⟩ := Cursor.readFrom?_sound hc
    have hread := Parse.directivesAndStatements_readsAll (Rules.sound_level _) ?_ _ _ hsound
      parts c' hparts
    · refine .node (Node.fits_of_isWhole rfl (Node.suits_of_isPlain rfl parts)
        (fun _ => hread.free) ?_ ?_)
        hread.laid.wellPlaced
      · exact hread.laid.row.mono (Nat.zero_le _) hread.onward.sound.gap
      · exact fun k hk _ _ =>
          Nat.lt_of_le_of_lt (hread.kinds k hk).rank (Nat.lt_add_of_pos_right Nat.two_pos)
    · intro c b c' h
      exact (Prod.mk.inj (Option.some.inj h)).2.symm

/-- A program that is read is a program. -/
theorem form_of_parse? {source : String} {p : Program} (h : parse? source = some p) :
    ∃ line, p.tree.form = .program line := by
  unfold parse? at h
  simp only [Option.bind_eq_bind, Option.bind_eq_some_iff] at h
  obtain ⟨_, _, _, _, h⟩ := h
  split at h
  · cases h
  · obtain rfl := Option.some.inj h
    exact ⟨_, rfl⟩

end Program

end Graft
