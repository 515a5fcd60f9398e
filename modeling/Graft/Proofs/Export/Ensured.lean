import Graft.Proofs.Export.Read
import Graft.Proofs.Transform.Stages
/-!
Programs that export their plugin.

# The statement that is appended

Whether there is a statement to append at all is a matter of the three names alone
(`ExportConvention.exists_ensure_iff`): its text has one shape, whatever the names are, and only a
keyword can keep it from being a statement.

# Appending it once

The statement counts as the export exactly if the container is a name
(`ExportConvention.isAssignedBy_tree`). Then the program exports its plugin from then on, also after
it has been written and read again, and no second statement is appended
(`ExportConvention.ensure_again`). A keyword such as `this` can be the container as well; the
statement is then not recognised, and the next time it is appended again
(`ExportConvention.ensure_repeats`).

# Nothing to plan for it

The statement gives the planner nothing to decide (`ExportConvention.IsShaped.bystander`), so a
program for which nothing was planned is still one after its export was ensured
(`ExportConvention.isEmpty_planEdits_ensured`).
-/
namespace Graft

namespace ExportConvention

open Node

variable {e : ExportConvention} {tree tree' n : Node}

-- ============================================== what is appended

/-- The names of an export pass the check of a configuration only if they are plain. -/
theorem isPlain_of_validate {config : TransformConfig} (h : config.validate = .ok ()) :
    config.exports.IsPlain := by
  have hfields : ∀ f ∈ config.namedFields, Text.isPlainIdentifier f.2 = true := by
    intro f hf
    have hf' := List.find?_eq_none.mp (TransformConfig.validate_eq_ok_iff.mp h).1 f hf
    rwa [Bool.not_eq_true, Bool.not_eq_false'] at hf'
  exact
    { container := hfields ("exports.container", _) (by simp [TransformConfig.namedFields])
      property := hfields ("exports.property", _) (by simp [TransformConfig.namedFields])
      accessor := hfields ("exports.accessor", _) (by simp [TransformConfig.namedFields]) }

/-- A plain convention has a statement of one shape, for what holds the slot and what it is
given. -/
theorem isSome_forms (h : e.IsPlain) (hn : e.tree? = some n) :
    ∃ held given, e.heldForm? = some held ∧ e.givenForm? = some given
      ∧ n.unplaced = e.shape held given := by
  cases hheld : e.heldForm? with
  | none =>
      rw [tree?_eq_none h (.inl hheld)] at hn
      cases hn
  | some held =>
      cases hgiven : e.givenForm? with
      | none =>
          rw [tree?_eq_none h (.inr hgiven)] at hn
          cases hn
      | some given =>
          obtain ⟨m, hm, hshape⟩ := exists_tree h hheld hgiven
          rw [hn] at hm
          obtain rfl := Option.some.inj hm
          exact ⟨held, given, rfl, rfl, hshape⟩

/-- A statement of that shape assigns the slot exactly if the container holds it. -/
theorem isAssignedBy_shape (held given : Form) :
    e.isAssignedBy (e.shape held given) = (held == .identifier e.container) := by
  show (held == .identifier e.container && e.property == e.property) = _
  rw [beq_self_eq_true, Bool.and_true]

/-- The appended statement counts as the export if its container is read as a name. -/
theorem isAssignedBy_tree (h : e.IsPlain) (hn : e.tree? = some n) :
    e.isAssignedBy n = (e.heldForm? == some (.identifier e.container)) := by
  obtain ⟨held, given, hheld, -, hshape⟩ := isSome_forms h hn
  rw [← isAssignedBy_unplaced, hshape, isAssignedBy_shape, hheld, Option.some_beq_some]

/-- What is given to the slot is a value without parts. -/
theorem isAtom_of_givenForm? {given : Form} (h : e.givenForm? = some given) :
    given.isAtom = true := by
  rw [givenForm?] at h
  unfold Lexeme.atom? at h
  split at h <;> cases h <;> rfl

/-- A statement of a plain convention that is recognised has the shape of one. -/
theorem isShaped_of_isAssignedBy (h : e.IsPlain) (hn : e.tree? = some n)
    (hassigned : e.isAssignedBy n = true) : e.IsShaped n := by
  obtain ⟨held, given, hheld, hgiven, hshape⟩ := isSome_forms h hn
  rw [← isAssignedBy_unplaced, hshape, isAssignedBy_shape, beq_iff_eq] at hassigned
  exact ⟨given, isAtom_of_givenForm? hgiven, hassigned ▸ hshape⟩

/-- A container that is no keyword is read as a name. -/
theorem heldForm?_of_name (h : Keyword.ofText? e.container.toList = none) :
    e.heldForm? = some (.identifier e.container) := by
  rw [heldForm?, wordLexeme, h, String.ofList_toList]
  rfl

-- ================================================ appending it once

/-- Where the slot is assigned already, nothing is added. -/
theorem ensure_of_isIn (h : e.isIn tree = true) : e.ensure tree = .ok (tree, false) := by
  rw [ensure, if_pos h]

theorem isIn_singleton (form : Form) (span : Span) (n : Node) :
    e.isIn (.node form span [n]) = e.isAssignedBy n := by
  obtain ⟨inner, own, js⟩ := n
  cases inner <;> first | rfl | exact Bool.or_false _

/-- One statement more assigns the slot or it does not. -/
theorem isIn_append (form : Form) (span : Span) (ks : List Node) (n : Node) :
    e.isIn (.node form span (ks ++ [n])) = (e.isIn (.node form span ks) || e.isAssignedBy n) := by
  rw [← isIn_singleton form span n]
  simp only [isIn, statements, children, List.filter_append, List.any_append]

/-- A program in which the export was ensured exports its plugin, if the appended statement counts
as the export. -/
theorem isIn_of_ensure (hrecognised : ∀ n, e.tree? = some n → e.isAssignedBy n = true)
    {appended : Bool} (h : e.ensure tree = .ok (tree', appended)) : e.isIn tree' = true := by
  unfold ensure at h
  split at h
  case isTrue hin =>
    obtain ⟨rfl, -⟩ := by simpa using h
    exact hin
  case isFalse =>
    cases hn : e.tree? with
    | none => simp [hn] at h
    | some n =>
        obtain ⟨rfl, -⟩ := by simpa [hn] using h
        rw [isIn_append, hrecognised n hn, Bool.or_true]

/-- No second statement is appended, neither to the same program nor to one read from its text, if
the container is a name. -/
theorem ensure_again (h : e.IsPlain) (hname : Keyword.ofText? e.container.toList = none)
    {appended : Bool} (hensure : e.ensure tree = .ok (tree', appended)) {t : Node}
    (halike : tree'.Alike t) : e.isIn t = true ∧ e.ensure t = .ok (t, false) := by
  have hin : e.isIn t = true := by
    rw [← e.isIn_eq_of_alike halike]
    refine isIn_of_ensure (fun n hn => ?_) hensure
    rw [isAssignedBy_tree h hn, heldForm?_of_name hname, beq_self_eq_true]
  exact ⟨hin, ensure_of_isIn hin⟩

/-- A keyword as the container, if it can stand there at all: the appended statement is not taken
for the export, and the next time it is appended again. -/
theorem ensure_repeats (h : e.IsPlain)
    (hkeyword : (Keyword.ofText? e.container.toList).isSome = true)
    (hnot : e.isIn tree = false) {appended : Bool}
    (hensure : e.ensure tree = .ok (tree', appended)) :
    ∃ n, e.tree? = some n ∧ tree' = .node tree.form tree.span (tree.children ++ [n])
      ∧ e.isIn tree' = false
      ∧ e.ensure tree' = .ok (.node tree.form tree.span (tree.children ++ [n] ++ [n]), true) := by
  unfold ensure at hensure
  rw [hnot, if_neg Bool.false_ne_true] at hensure
  cases hn : e.tree? with
  | none => simp [hn] at hensure
  | some n =>
      obtain ⟨rfl, -⟩ := by simpa [hn] using hensure
      have hassigned : e.isAssignedBy n = false := by
        rw [isAssignedBy_tree h hn, heldForm?, beq_eq_false_iff_ne]
        intro hheld
        obtain ⟨w, hw⟩ := Option.isSome_iff_exists.mp hkeyword
        rw [wordLexeme, hw] at hheld
        unfold Lexeme.holder? Lexeme.atom? at hheld
        split at hheld
        · cases hheld
        · split at hheld <;> simp_all
      have hagain : e.isIn (.node tree.form tree.span (tree.children ++ [n])) = false := by
        rw [isIn_append, hassigned, Bool.or_false, ← hnot]
        rfl
      refine ⟨n, rfl, rfl, hagain, ?_⟩
      rw [ensure, hagain, if_neg Bool.false_ne_true, hn]
      rfl

/-- Whether the export can be ensured depends on the program only if one of the names is a keyword
that stands for no value. -/
theorem exists_ensure_iff (h : e.IsPlain) (tree : Node) :
    (∃ r, e.ensure tree = .ok r)
      ↔ e.isIn tree = true ∨ e.heldForm?.isSome = true ∧ e.givenForm?.isSome = true := by
  unfold ensure
  by_cases hin : e.isIn tree = true
  · simp [hin]
  · simp only [hin, if_false, false_or, Bool.false_eq_true]
    cases hn : e.tree? with
    | none =>
        simp only [reduceCtorEq, exists_false, false_iff, not_and]
        intro hheld hgiven
        obtain ⟨held, hheld⟩ := Option.isSome_iff_exists.mp hheld
        obtain ⟨given, hgiven⟩ := Option.isSome_iff_exists.mp hgiven
        obtain ⟨m, hm, -⟩ := exists_tree h hheld hgiven
        rw [hn] at hm
        cases hm
    | some n =>
        obtain ⟨held, given, hheld, hgiven, -⟩ := isSome_forms h hn
        simp [hheld, hgiven]

-- ======================================== planning after it is there

/-- A program for which nothing was planned gives nothing to plan after its export was ensured and
its text was read again. -/
theorem isEmpty_planEdits_ensured (h : e.IsPlain)
    (hrecognised : ∀ n, e.tree? = some n → e.isAssignedBy n = true) {config : TransformConfig}
    {plugin : String} {line : Option String} {t : Node} (hform : tree.form = .program line)
    (htree : tree.Keyed) (ht : t.Keyed) (hensured : e.Ensured tree tree') (halike : tree'.Alike t)
    (hidle : (planEdits config plugin tree).1.isEmpty = true) :
    (planEdits config plugin t).1.isEmpty = true := by
  obtain ⟨form, span, ks⟩ := tree
  obtain rfl : form = .program line := hform
  obtain rfl | ⟨n, hn, rfl⟩ := hensured
  · obtain ⟨own, js, rfl, -⟩ := exists_of_unplaced (halike.symm.trans (unplaced_node _ _ _))
    exact isEmpty_planEdits_alike htree ht halike hidle
  · -- the last statement that was read is the appended one, and the others are alike
    have hunplaced := halike.symm.trans (unplaced_node _ _ _)
    obtain ⟨own, js, rfl, hjs⟩ := exists_of_unplaced hunplaced
    rw [children, List.map_append, List.map_singleton] at hjs
    obtain ⟨init, last, rfl, hinit, hlast⟩ := List.map_eq_append_iff.mp hjs
    obtain ⟨m, rfl, hm⟩ := exists_of_map_unplaced hlast
    have hshaped : e.IsShaped m :=
      (isShaped_of_isAssignedBy h hn (hrecognised n hn)).of_alike hm.symm
    change (node (.program line) own (init ++ [m])).Keyed at ht
    have hkeyed : (node (.program line) own init).Keyed := by
      rw [keyed_program, List.flatMap_append, List.filterMap_append] at ht
      exact keyed_program.mpr (List.nodup_append.mp ht).1
    have halike' : (node (.program line) span ks).Alike (node (.program line) own init) := by
      rw [Alike, unplaced_node, unplaced_node, hinit]
    exact isEmpty_planEdits_append ht hshaped.bystander
      (isEmpty_planEdits_alike htree hkeyed halike' hidle)

end ExportConvention

end Graft
