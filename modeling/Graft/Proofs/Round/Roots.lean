import Graft.Proofs.Edit.Counts
import Graft.Proofs.Round.Ends
import Graft.Proofs.Scope.Names
/-!
The names that replacements of modules start with.

A call that loads a module becomes a chain of names wherever it stands, and nothing looks at the
scopes around it: a parameter with the first name of the chain would be what the chain starts with.
But no edit declares a name (`planEdits_introduces_nothing`). So if the program that a run begins
with declares no such name, then no program of the run does (`Run.Reads.undeclared`), and the first
name of a chain is global wherever a round has put it (`Run.Reads.isGlobalUse`).
-/
namespace Graft

open Node

/-- What an edit makes of a program declares no name that the program does not declare, however it
is read again. -/
theorem planEdits_undeclared {config : TransformConfig} {plugin source name : String}
    {p q : Program} (hp : Program.parse? source = some p)
    (hfree : ∀ b ∈ p.tree.bindings, b.form ≠ .binding name)
    (halike : ((planEdits config plugin p.tree).1.apply plugin p.tree).1.Alike q.tree) :
    ∀ b ∈ q.tree.bindings, b.form ≠ .binding name := by
  intro b hb hname
  obtain ⟨b', hb', hsame⟩ := Alike.exists_part halike.symm (List.mem_filter.mp hb).1
  have hform : b'.form = .binding name := by
    rw [← form_unplaced, ← hsame, form_unplaced, hname]
  have hmem : b' ∈ ((planEdits config plugin p.tree).1.apply plugin p.tree).1.bindings :=
    List.mem_filter.mpr ⟨hb', by rw [isBinding, hform]⟩
  have hle : ((planEdits config plugin p.tree).1.apply plugin p.tree).1.bindings.count b'
      ≤ p.tree.bindings.count b' := planEdits_introduces_nothing hp b'
  have hpos := List.count_pos_iff.mpr hmem
  exact hfree b' (List.count_pos_iff.mp (by omega)) hform

namespace Run

variable {config : TransformConfig} {plugin source text name : String}

/-- No program of a run declares a name that the first one does not declare. -/
theorem Reads.undeclared (h : Reads config plugin source text)
    (hreread : ∀ text, Reads config plugin source text → Rereads config plugin text)
    (hsource : ∀ p ∈ Program.parse? source, ∀ b ∈ p.tree.bindings, b.form ≠ .binding name) :
    ∀ p ∈ Program.parse? text, ∀ b ∈ p.tree.bindings, b.form ≠ .binding name := by
  induction h with
  | start => exact hsource
  | @next text _ _ _ h hround hedited _ ih =>
      intro q hq
      obtain ⟨p, tree, hp, happly, rfl⟩ := edited_of? hround hedited
      have halike := hreread text h p hp q (by rw [happly]; exact hq)
      exact planEdits_undeclared hp (ih p hp) halike

/-- A name that the program a run begins with does not declare is global wherever a program of the
run uses it, also where a round has put it. -/
theorem Reads.isGlobalUse (h : Reads config plugin source text)
    (hreread : ∀ text, Reads config plugin source text → Rereads config plugin text)
    (hsource : ∀ p ∈ Program.parse? source, ∀ b ∈ p.tree.bindings, b.form ≠ .binding name)
    {p : Program} (hp : Program.parse? text = some p) {n : Node} (hn : n ∈ p.tree.identifiers)
    (hname : n.form = .identifier name) :
    (Bindings.ofProgram p.tree).isGlobalUse n.span.start = true :=
  Bindings.isGlobalUse_of_undeclared (Program.wellPlaced_of_parse? hp) (Program.form_of_parse? hp)
    (h.undeclared hreread hsource p hp) hn hname

/-- A parameter with the first name of a replacement is what the replacement starts with. -/
example : ((Round.of? .standard "p" "function f(BdApi) \x7b return require('react'); \x7d").bind
    (·.edited)).any (fun edited => (Program.parse? edited.1).any fun q =>
      q.tree.identifiers.any fun n => n.form == .identifier "BdApi"
        && !(Bindings.ofProgram q.tree).isGlobalUse n.span.start) = true := by
  decide +kernel

end Run

end Graft
