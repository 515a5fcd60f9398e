import Graft.Proofs.Export.Ensured
import Graft.Proofs.Tree.Renamed
/-!
Exporting plugins of different names.

Whether a program exports its plugin does not depend on what it binds to plugins, and the statement
that is appended holds no string. So renamed programs have their export ensured in the same way, and
are renamed after it (`ExportConvention.ensure_renamed`).
-/
namespace Graft

open Node

variable {a b : String} {m n : Node}

namespace Node.Renamed

/-- Renamed places name the same property of renamed objects, if they name one. -/
theorem rel_slot? (h : Renamed a b m n) :
    Option.Rel (fun x y => Renamed a b x.1 y.1 ∧ x.2 = y.2) m.slot? n.slot? := by
  cases h with
  | bound => exact .none
  | @node form _ _ ks js _ _ hlength hkids =>
      cases form with
      | place =>
          rcases forall₂ hlength hkids with _ | ⟨htarget, _ | _⟩
          · exact .none
          · cases htarget with
            | bound => exact .none
            | @node inner _ _ ks js _ _ hlength' hkids' =>
                cases inner with
                | member isOptional name =>
                    rcases forall₂ hlength' hkids' with _ | ⟨hobject, _ | _⟩
                    · exact .none
                    · exact .some ⟨hobject, rfl⟩
                    · exact .none
                | index isOptional =>
                    rcases forall₂ hlength' hkids' with _ | ⟨hobject, _ | ⟨hkey, _ | _⟩⟩
                    · exact .none
                    · exact .none
                    · simp only [slot?, hkey.stringText?_eq]
                      cases Node.stringText? _ with
                      | none => exact .none
                      | some name => exact .some ⟨hobject, rfl⟩
                    · exact .none
                | _ => exact .none
          · simp [slot?]
      | _ => exact .none

/-- Renamed statements assign the export both or neither. -/
theorem isAssignedBy_eq (h : Renamed a b m n) (e : ExportConvention) :
    e.isAssignedBy n = e.isAssignedBy m := by
  cases h with
  | bound => rfl
  | @node form _ _ ks js _ _ hlength hkids =>
      cases form with
      | expressionStatement =>
          rcases forall₂ hlength hkids with _ | ⟨hvalue, _ | _⟩
          · rfl
          · cases hvalue with
            | bound => rfl
            | @node inner _ _ ks js _ _ hlength' hkids' =>
                cases inner with
                | assign op =>
                    cases op with
                    | plain =>
                        rcases forall₂ hlength' hkids' with _ | ⟨htarget, _ | ⟨_, _ | _⟩⟩
                        · rfl
                        · rfl
                        · have hslot := htarget.rel_slot?
                          simp only [ExportConvention.isAssignedBy]
                          generalize Node.slot? _ = x at hslot
                          generalize Node.slot? _ = y at hslot
                          cases hslot with
                          | none => rfl
                          | some hxy => simp only [hxy.1.form_eq, hxy.2]
                        · rfl
                    | _ => rfl
                | _ => rfl
          · simp [ExportConvention.isAssignedBy]
      | _ => rfl

/-- Renamed programs have renamed statements. -/
theorem forall₂_statements {line : Option String} (h : Renamed a b m n)
    (hm : m.form = .program line) : List.Forall₂ (Renamed a b) m.statements n.statements := by
  cases h with
  | bound => cases hm
  | node _ _ hlength hkids =>
      refine List.rel_filter (fun k j hkj => ?_) (forall₂ hlength hkids)
      dsimp only
      rw [hkj.form_eq]

/-- Renamed programs export their plugins both or neither. -/
theorem isIn_eq {line : Option String} (h : Renamed a b m n) (hm : m.form = .program line)
    (e : ExportConvention) : e.isIn n = e.isIn m := by
  have hstatements := h.forall₂_statements hm
  rw [ExportConvention.isIn, ExportConvention.isIn]
  generalize m.statements = ks at hstatements
  generalize n.statements = js at hstatements
  induction hstatements with
  | nil => rfl
  | cons hkj _ ih => rw [List.any_cons, List.any_cons, hkj.isAssignedBy_eq, ih]

/-- A program without strings is renamed to itself. -/
theorem self_of_any (h : m.any Form.isString = false) : Renamed a b m m := by
  induction m with
  | node form span ks ih =>
      rw [any_node, Bool.or_eq_false_iff] at h
      have hnone : (Node.node form span ks).stringText? = none := by
        cases form <;> first | rfl | cases h.1
      refine node_of_no_text hnone (List.forall₂_same.mpr fun k hk => ih k hk ?_)
      exact eq_false_of_ne_true (List.any_eq_false.mp h.2 k hk)

end Node.Renamed

namespace ExportConvention

variable {e : ExportConvention}

/-- The statement that is appended is renamed to itself: it holds no string. -/
theorem renamed_tree (h : e.IsPlain) (hn : e.tree? = some n) : Renamed a b n n := by
  obtain ⟨held, given, hheld, hgiven, hshape⟩ := isSome_forms h hn
  have hatom : ∀ {l : Lexeme} {form : Form}, l.holder? = some form → form.isString = false := by
    intro l form hl
    unfold Lexeme.holder? Lexeme.atom? at hl
    split at hl
    · cases hl
      rfl
    · split at hl <;> cases hl <;> rfl
  refine Renamed.self_of_any ?_
  rw [← any_unplaced, hshape]
  simp only [shape, made, access, any_node, List.any_cons, List.any_nil, Form.isString,
    Bool.or_false, Bool.false_or, Bool.or_eq_false_iff]
  exact ⟨hatom hheld, hatom (Parse.holder?_of_atom? hgiven)⟩

/-- The export is ensured in renamed programs in the same way. -/
theorem ensure_renamed (he : e.IsPlain) {line : Option String} (hm : m.form = .program line)
    (h : Renamed a b m n) :
    (∃ cause, e.ensure m = .error cause ∧ e.ensure n = .error cause)
      ∨ ∃ m' n' appended, e.ensure m = .ok (m', appended) ∧ e.ensure n = .ok (n', appended)
        ∧ Renamed a b m' n' := by
  rw [ensure, ensure, h.isIn_eq hm]
  split
  · exact .inr ⟨m, n, false, rfl, rfl, h⟩
  · cases htree : e.tree? with
    | none => exact .inl ⟨_, rfl, rfl⟩
    | some statement =>
        refine .inr ⟨_, _, true, rfl, rfl, ?_⟩
        cases h with
        | bound => cases hm
        | node left right hlength hkids =>
            exact Renamed.node_of_forall₂ left right
              (List.rel_append (Renamed.forall₂ hlength hkids) (.cons (renamed_tree he htree) .nil))

end ExportConvention

end Graft
