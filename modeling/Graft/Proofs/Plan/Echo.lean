import Graft.Proofs.Edit.Access
import Graft.Proofs.Plan.Match
/-!
Two programs of which the planner finds out the same.

The planner asks a program where names are declared, which of them keep a value, and how often they
are used. A second program is an echo of the first one if related nodes get the same answers, but
that its names may be used more often (`Survey.Echo`). Where the planner has nothing to do in the
first program it has nothing to do in the second one: it would elide, replace and bind the same
nodes (`Survey.Echo.visit_idle`), and what is unused there is unused here, so it could only prune
and split less (`Survey.Echo.visitPatterns_idle`).
-/
namespace Graft

namespace Survey

open Node

/-- What a call of a method named `bind` binds: the access it is called on, if its arguments are the
two that a bound member is given. -/
theorem boundTarget?_member (v : Survey) (isOptional : Bool) (name : String) (span : Span)
    (target this plugin : Node) :
    v.boundTarget? (.node (.member isOptional name) span [target]) [this, plugin]
      = if name == "bind" && this.form == .nullValue && plugin.stringText? == some v.plugin
          && target.form.isMember
        then some target.span else none := rfl

/-- Whether related nodes of two programs get the same answers, their texts included. -/
structure Echo (v w : Survey) (E : Node → Node → Prop) : Prop extends Match v w id E where
  plugin : w.plugin = v.plugin
  /-- Accesses are told apart by their spans in both programs. -/
  access : ∀ {m n m' n'}, E m n → E m' n' → m.form.isMember = true → m'.form.isMember = true →
    (m.span = m'.span ↔ n.span = n'.span)
  /-- Names may be used more often in the second program. -/
  count : ∀ k, v.origin.bindings.useCount k ≤ w.origin.bindings.useCount k

namespace Echo

variable {v w : Survey} {E : Node → Node → Prop} (h : Echo v w E)
include h

theorem sameForm {m n : Node} (hE : E m n) : m.form = n.form := by
  have hform := h.form hE
  rwa [Form.mapText_id, Form.mapText_id] at hform

/-- A node that is related to one of a known form. -/
theorem exists_same {form : Form} {span : Span} {ks : List Node} {n : Node}
    (hE : E (.node form span ks) n) :
    ∃ span' js, n = .node form span' js ∧ List.Forall₂ E ks js := by
  cases n with
  | node form' span' js =>
      obtain rfl : form = form' := h.sameForm hE
      exact ⟨span', js, rfl, h.children hE⟩

theorem stringText? {m n : Node} (hE : E m n) : n.stringText? = m.stringText? := by
  rw [Node.stringText?, Node.stringText?, h.sameForm hE]

/-- Related calls of a loader are substituted alike. -/
theorem substitutionFor? {callee callee' : Node} {arguments arguments' : List Node}
    (hcallee : E callee callee') (harguments : List.Forall₂ E arguments arguments') :
    w.substitutionFor? callee' arguments' = v.substitutionFor? callee arguments := by
  obtain ⟨form, span, ks⟩ := callee
  obtain ⟨span', js, rfl, -⟩ := h.exists_same hcallee
  rw [Survey.substitutionFor?.eq_def, Survey.substitutionFor?.eq_def]
  cases form with
  | identifier name =>
      rcases harguments with _ | ⟨hargument, _ | ⟨_, _⟩⟩
      · rfl
      · have hglobal := h.isGlobal hcallee rfl
        simp only [Node.form, hglobal, h.stringText? hargument, h.config]
      · rfl
  | _ => rfl

/-- Related calls bind related accesses, or bind none. -/
theorem boundTarget? {callee callee' : Node} {arguments arguments' : List Node}
    (hcallee : E callee callee') (harguments : List.Forall₂ E arguments arguments') :
    (v.boundTarget? callee arguments = none ∧ w.boundTarget? callee' arguments' = none)
      ∨ ∃ m n, E m n ∧ m.form.isMember = true
        ∧ v.boundTarget? callee arguments = some m.span
        ∧ w.boundTarget? callee' arguments' = some n.span := by
  obtain ⟨form, span, ks⟩ := callee
  obtain ⟨span', js, rfl, hchildren⟩ := h.exists_same hcallee
  cases form with
  | member isOptional name =>
      rcases hchildren with _ | ⟨htarget, _ | ⟨_, _⟩⟩
      · exact .inl ⟨rfl, rfl⟩
      · rcases harguments with _ | ⟨hthis, _ | ⟨hplugin, _ | ⟨_, _⟩⟩⟩
        · exact .inl ⟨rfl, rfl⟩
        · exact .inl ⟨rfl, rfl⟩
        · rw [boundTarget?_member, boundTarget?_member, ← h.sameForm hthis, ← h.sameForm htarget,
            h.stringText? hplugin, h.plugin]
          split
          case isTrue hbinds =>
            exact .inr ⟨_, _, htarget, (Bool.and_eq_true_iff.mp hbinds).2, rfl, rfl⟩
          case isFalse => exact .inl ⟨rfl, rfl⟩
        · exact .inl ⟨rfl, rfl⟩
      · exact .inl ⟨rfl, rfl⟩
  | _ => exact .inl ⟨rfl, rfl⟩

end Echo
end Survey
end Graft
