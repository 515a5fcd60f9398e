import Graft.Edit
import Graft.Proofs.Tree.Parts
/-!
What becomes of a node when a plan is carried out.

# One rule for all forms

Every form of node has its own way to rebuild its children: statements among each other, entries of
a pattern, declarators of a declaration, a child that stands alone. But each of them turns every
child into a list of nodes: none, the child as it was rebuilt, or the declarators that it was
divided into (`EditPlan.replacement`). A node is put together again from these lists, and only a
call that loads a module and an access that is bound become something else (`EditPlan.remake_eq`).
From here on no proof goes back to the ways of the single forms.

# What can become of a node

What an edit keeps or lowers does not depend on which of the lists it is, so it is read off two
weaker facts: what can become of a child (`EditPlan.Becomes`), and of a node (`EditPlan.Outcome`).
Both are inductive, with one case for each thing that an edit can do, and a claim about edits is an
induction on the node with a case analysis of these (`EditPlan.remake_outcome`).
-/
namespace Graft

namespace TransformStats

/-- It does not matter in which order counts are added up. -/
theorem absorb_comm (s t : TransformStats) : s.absorb t = t.absorb s := by
  simp [absorb, Nat.add_comm]

theorem absorb_left_comm (s t u : TransformStats) :
    s.absorb (t.absorb u) = t.absorb (s.absorb u) := by
  rw [← absorb_assoc, absorb_comm s t, absorb_assoc]

end TransformStats

namespace EditPlan

/-- A node after its edits, and what was done to it. -/
def remake (p : EditPlan) (plugin : String) (isValue : Bool) (n : Node) : Edited Node :=
  n.fold (p.rebuild plugin) isValue

/-- Whether a form is a pattern whose entries can go away. -/
def isPattern : Form → Bool
  | .objectPattern _ | .arrayPattern _ => true
  | _ => false

/-- Only an expression statement is removed. -/
theorem form_of_isRemoved {p : EditPlan} {n : Node} (h : p.isRemoved n = true) :
    n.form = .expressionStatement := by
  rw [isRemoved, Bool.and_eq_true, beq_iff_eq] at h
  exact h.1

/-- Whether every child of a form becomes one node. -/
def isFixed (form : Form) : Bool :=
  match form with
  | .variableDeclaration _ => false
  | _ => !Survey.isStatementList form && !isPattern form

/-- What can become of a child of a node of some form. -/
inductive Becomes (p : EditPlan) (plugin : String) (form : Form) (k : Node) :
    Edited (List Node) → Prop
  /-- A statement goes away from among others. -/
  | removed (hform : Survey.isStatementList form = true) (h : p.isRemoved k = true) :
      Becomes p plugin form k ⟨[], { statementsElided := 1 }⟩
  /-- A statement that stands alone goes away. -/
  | emptied (h : p.isRemoved k = true) :
      Becomes p plugin form k ⟨[Node.made .empty []], { statementsElided := 1 }⟩
  /-- An entry of a pattern goes away. -/
  | pruned (hform : isPattern form = true) (h : p.removedPatterns.contains k.span = true) :
      Becomes p plugin form k ⟨[], { patternsPruned := 1 }⟩
  /-- The child is rebuilt. -/
  | remade (h : p.isRemoved k = true → isPattern form = true) :
      Becomes p plugin form k
        ⟨[(p.remake plugin form.holdsValues k).result],
          (p.remake plugin form.holdsValues k).stats⟩
  /-- The child is rebuilt, and declares nothing any more. -/
  | vanished (hform : Survey.isStatementList form = true) (h : p.isRemoved k = false)
      (hempty : declaresNothing (p.remake plugin true k).result = true) :
      Becomes p plugin form k ⟨[], (p.remake plugin true k).stats⟩
  /-- A declarator is rebuilt and divided. -/
  | divided {kind : VariableKind} (hform : form = .variableDeclaration kind)
      {parts : Edited (List Node)}
      (hparts : parts = splitDeclarator plugin ((p.splits.lookup k.span).getD [])
        (p.droppable.contains k.span) (p.remake plugin true k).result) :
      Becomes p plugin form k
        ⟨parts.result, (p.remake plugin true k).stats.absorb parts.stats⟩

/-- What can become of the children of a node of some form. -/
inductive AllBecome (p : EditPlan) (plugin : String) (form : Form) :
    List Node → Edited (List Node) → Prop
  | nil : AllBecome p plugin form [] ⟨[], .zero⟩
  | cons {k : Node} {ks : List Node} {out more : Edited (List Node)}
      (head : Becomes p plugin form k out) (tail : AllBecome p plugin form ks more) :
      AllBecome p plugin form (k :: ks)
        ⟨out.result ++ more.result, out.stats.absorb more.stats⟩

/-- What can become of a node, given what becomes of its children. -/
inductive Outcome (p : EditPlan) (plugin : String) (form : Form) (span : Span) (isValue : Bool)
    (parts : Edited (List Node)) : Edited Node → Prop
  /-- A call that loads a module becomes a chain of names. -/
  | substituted {isOptional isPure : Bool} (hform : form = .call isOptional isPure)
      {names : List String} (hlookup : p.substitutions.lookup span = some names) {chain : Node}
      (hchain : Node.ofChain? names = some chain) :
      Outcome p plugin form span isValue parts
        ⟨chain, parts.stats.absorb { importsSubstituted := 1 }⟩
  /-- An access becomes a call that binds it. -/
  | bound {isOptional : Bool} {name : String} (hform : form = .member isOptional name)
      (hvalue : isValue = true) (hbound : p.boundMembers.contains span = true) :
      Outcome p plugin form span isValue parts
        ⟨(Node.node form span parts.result).boundTo plugin,
          parts.stats.absorb { membersBound := 1 }⟩
  /-- Any other node stays what it is. -/
  | kept (h : ∀ isOptional name, form = .member isOptional name →
      (isValue && p.boundMembers.contains span) = false) :
      Outcome p plugin form span isValue parts ⟨.node form span parts.result, parts.stats⟩

section

variable (p : EditPlan) (plugin : String)

/-- A child with what rebuilds it. -/
abbrev told (k : Node) : Child Rebuild := (k, k.fold (p.rebuild plugin))

-- ============================================================ lists of children

/-- Counts that are added up one by one are the counts of the row. -/
theorem foldl_absorb (parts : List (Edited Node)) (s : TransformStats) :
    parts.foldl (fun s p => s.absorb p.stats) s = s.absorb (Edited.collect parts).stats := by
  unfold Edited.collect
  induction parts generalizing s with
  | nil => rfl
  | cons e parts ih =>
      rw [List.foldl_cons, List.foldl_cons, ih, ih (TransformStats.zero.absorb e.stats),
        TransformStats.zero_absorb, TransformStats.absorb_assoc]

/-- A row of edited nodes is collected from its first one and the others. -/
theorem collect_cons (e : Edited Node) (parts : List (Edited Node)) :
    Edited.collect (e :: parts)
      = ⟨e.result :: (Edited.collect parts).result,
          e.stats.absorb (Edited.collect parts).stats⟩ := by
  rw [← foldl_absorb parts e.stats]
  simp [Edited.collect]

-- ============================================================ one child

/-- Whether a pattern loses an entry. -/
def losesEntry (above : Form) (k : Node) : Bool :=
  match above with
  | .objectPattern _ => p.removedPatterns.contains k.span
  | .arrayPattern _ => k.form == .rest && p.removedPatterns.contains k.span
  | _ => false

/-- What stands in place of a child of a node of some form, and what was done for it. -/
def replacement (above : Form) (k : Node) : Edited (List Node) :=
  let remade := p.remake plugin above.holdsValues k
  match above with
  | .objectPattern _ | .arrayPattern _ =>
      if p.losesEntry above k then ⟨[], { patternsPruned := 1 }⟩ else ⟨[remade.result], remade.stats⟩
  | .variableDeclaration _ =>
      let parts := splitDeclarator plugin ((p.splits.lookup k.span).getD [])
        (p.droppable.contains k.span) remade.result
      ⟨parts.result, remade.stats.absorb parts.stats⟩
  | _ =>
      if p.isRemoved k then
        ⟨if Survey.isStatementList above then [] else [Node.made .empty []],
          { statementsElided := 1 }⟩
      else if Survey.isStatementList above && declaresNothing remade.result then ⟨[], remade.stats⟩
      else ⟨[remade.result], remade.stats⟩

/-- An entry that a pattern loses. -/
theorem replacement_of_losesEntry {above : Form} {k : Node} (h : p.losesEntry above k = true) :
    p.replacement plugin above k = ⟨[], { patternsPruned := 1 }⟩ := by
  unfold replacement
  split
  case h_1 => rw [if_pos h]
  case h_2 => rw [if_pos h]
  case h_3 => cases h
  case h_4 hobject harray _ =>
    unfold losesEntry at h
    split at h
    case h_1 => exact absurd rfl (hobject _)
    case h_2 => exact absurd rfl (harray _)
    case h_3 => cases h

/-- What stands in place of children of a node of some form. -/
def gather (above : Form) : List Node → Edited (List Node)
  | [] => ⟨[], .zero⟩
  | k :: ks =>
      { result := (p.replacement plugin above k).result ++ (gather above ks).result
        stats := (p.replacement plugin above k).stats.absorb (gather above ks).stats }

/-- What stands in place of the children of a node. The test of a case does not stand among the
statements of the case, but alone, as the value of the switch does. -/
def gatherAll (form : Form) (children : List Node) : Edited (List Node) :=
  match form, children with
  | .case, test :: statements =>
      { result := (p.replacement plugin .switch test).result
          ++ (p.gather plugin .case statements).result
        stats := (p.replacement plugin .switch test).stats.absorb
          (p.gather plugin .case statements).stats }
  | _, _ => p.gather plugin form children

/-- A node that is put together again from what stands in place of its children. -/
def finish (form : Form) (span : Span) (isValue : Bool) (parts : Edited (List Node)) :
    Edited Node :=
  match form with
  | .call .. =>
      match if isValue then (p.substitutions.lookup span).bind Node.ofChain? else none with
      | some chain => ⟨chain, parts.stats.absorb { importsSubstituted := 1 }⟩
      | none => ⟨.node form span parts.result, parts.stats⟩
  | .member .. =>
      if isValue && p.boundMembers.contains span then
        ⟨(Node.node form span parts.result).boundTo plugin,
          parts.stats.absorb { membersBound := 1 }⟩
      else ⟨.node form span parts.result, parts.stats⟩
  | _ => ⟨.node form span parts.result, parts.stats⟩

-- ============================================================ all children

/-- A child that stands alone. -/
theorem rebuildOne_eq {above : Form} (hform : isFixed above = true) (k : Node) :
    p.replacement plugin above k
      = ⟨[(p.rebuildOne above.holdsValues (told p plugin k)).result],
          (p.rebuildOne above.holdsValues (told p plugin k)).stats⟩ := by
  unfold replacement rebuildOne
  split
  case h_1 => cases hform
  case h_2 => cases hform
  case h_3 => cases hform
  case h_4 =>
    have hlist : Survey.isStatementList above = false := by
      unfold isFixed at hform
      split at hform
      · cases hform
      · simp only [Bool.and_eq_true, Bool.not_eq_true'] at hform
        exact hform.1
    rw [hlist]
    split
    case isTrue h => rfl
    case isFalse h => rfl

/-- Children that stand alone each. -/
theorem collect_rebuildOne {above : Form} (hform : isFixed above = true) (ks : List Node) :
    Edited.collect ((ks.map (told p plugin)).map (p.rebuildOne above.holdsValues))
      = p.gather plugin above ks := by
  induction ks with
  | nil => rfl
  | cons k ks ih =>
      rw [List.map_cons, List.map_cons, collect_cons, ih, gather, rebuildOne_eq p plugin hform]
      rfl

/-- One more part that goes away. -/
theorem elided_succ {m n : Nat} (h : n ≤ m) :
    ({ statementsElided := m + 1 - n } : TransformStats)
      = TransformStats.absorb { statementsElided := 1 } { statementsElided := m - n } := by
  simp only [TransformStats.absorb, TransformStats.mk.injEq, and_true]
  omega

/-- To prune one entry more counts one more. -/
theorem pruned_succ {m n : Nat} (h : n ≤ m) :
    ({ patternsPruned := m + 1 - n } : TransformStats)
      = TransformStats.absorb { patternsPruned := 1 } { patternsPruned := m - n } := by
  simp only [TransformStats.absorb, TransformStats.mk.injEq, and_true, true_and]
  omega

/-- Statements that stand among each other. -/
theorem rebuildList_eq {above : Form} (hlist : Survey.isStatementList above = true)
    (ks : List Node) :
    p.rebuildList (ks.map (told p plugin)) = p.gather plugin above ks := by
  -- of the forms that list statements none is treated in a way of its own
  have hreplacement : ∀ k, p.replacement plugin above k
      = if p.isRemoved k then ⟨[], { statementsElided := 1 }⟩
        else ⟨if declaresNothing (p.remake plugin true k).result then []
            else [(p.remake plugin true k).result], (p.remake plugin true k).stats⟩ := by
    intro k
    have hother : ∀ {e : Edited (List Node)}, (if p.isRemoved k then
          ⟨[], { statementsElided := 1 }⟩
        else if declaresNothing (p.remake plugin true k).result then
          ⟨[], (p.remake plugin true k).stats⟩
        else ⟨[(p.remake plugin true k).result], (p.remake plugin true k).stats⟩) = e →
        e = if p.isRemoved k then ⟨[], { statementsElided := 1 }⟩
          else ⟨if declaresNothing (p.remake plugin true k).result then []
            else [(p.remake plugin true k).result], (p.remake plugin true k).stats⟩ := by
      rintro e rfl
      split
      · rfl
      · split <;> rfl
    cases above <;> first | exact hother rfl | cases hlist
  induction ks with
  | nil => rfl
  | cons k ks ih =>
      have hlen := List.length_filter_le (fun c : Child Rebuild => !p.isRemoved c.1)
        (ks.map (told p plugin))
      rw [gather, ← ih, hreplacement]
      by_cases h : p.isRemoved k = true
      · simp only [rebuildList, List.map_cons, List.filter_cons, h, Bool.not_true,
          Bool.false_eq_true, if_false, if_true, List.length_cons, List.nil_append]
        rw [elided_succ hlen, TransformStats.absorb_left_comm]
      · have hfalse : p.isRemoved k = false := eq_false_of_ne_true h
        simp only [rebuildList, List.map_cons, List.filter_cons, hfalse, Bool.not_false, if_true,
          Bool.false_eq_true, if_false, List.length_cons, collect_cons, Nat.add_sub_add_right]
        rw [TransformStats.absorb_assoc]
        change Edited.mk (if !declaresNothing (p.remake plugin true k).result then _ else _) _ = _
        cases declaresNothing (p.remake plugin true k).result with
        | true => rfl
        | false => rfl

/-- Entries of a pattern, some of which go away. -/
theorem collect_staying {above : Form} (hform : isPattern above = true) (goes : Node → Bool)
    (hgoes : ∀ k, goes k = p.losesEntry above k) (ks : List Node) :
    (Edited.collect (((ks.map (told p plugin)).filter fun c => !goes c.1).map
        fun c => c.2 true)).also
      { patternsPruned := (ks.map (told p plugin)).length
          - ((ks.map (told p plugin)).filter fun c => !goes c.1).length }
      = p.gather plugin above ks := by
  have hreplacement : ∀ k, p.replacement plugin above k
      = if goes k then ⟨[], { patternsPruned := 1 }⟩
        else ⟨[(p.remake plugin true k).result], (p.remake plugin true k).stats⟩ := by
    intro k
    rw [hgoes]
    cases above <;> first | rfl | cases hform
  induction ks with
  | nil => rfl
  | cons k ks ih =>
      have hlen := List.length_filter_le (fun c : Child Rebuild => !goes c.1)
        (ks.map (told p plugin))
      rw [gather, ← ih, hreplacement]
      cases h : goes k with
      | true =>
          simp only [List.map_cons, List.filter_cons, h, Bool.not_true, Bool.false_eq_true,
            if_false, if_true, List.length_cons, List.nil_append, Edited.also]
          rw [pruned_succ hlen, TransformStats.absorb_left_comm]
      | false =>
          simp only [List.map_cons, List.filter_cons, h, Bool.not_false, if_true, if_false,
            Bool.false_eq_true, List.length_cons, Nat.add_sub_add_right, collect_cons, Edited.also,
            List.singleton_append]
          rw [TransformStats.absorb_assoc]
          rfl

/-- The declarators of a declaration are rebuilt as children of every form are. -/
theorem rebuildDeclarators_eq (kind : VariableKind) (ks : List Node) :
    p.rebuildDeclarators plugin (ks.map (told p plugin))
      = p.gather plugin (.variableDeclaration kind) ks := by
  induction ks with
  | nil => rfl
  | cons k ks ih =>
      rw [gather, ← ih]
      rfl

-- ============================================================ nodes

/-- A node is remade by the rule for its form, from what its children tell. -/
theorem remake_node (form : Form) (span : Span) (children : List Node) (isValue : Bool) :
    p.remake plugin isValue (.node form span children)
      = p.rebuild plugin form span (children.map (told p plugin)) isValue := by
  rw [remake, Node.fold_node]

/-- A node is put together again from what stands in place of its children. -/
theorem remake_eq (form : Form) (span : Span) (children : List Node) (isValue : Bool) :
    p.remake plugin isValue (.node form span children)
      = p.finish plugin form span isValue (p.gatherAll plugin form children) := by
  rw [remake_node]
  -- most forms rebuild every child alone, and some list statements
  have heach : isFixed form = true → Edited.collect
      ((children.map (told p plugin)).map (p.rebuildOne form.holdsValues))
        = p.gather plugin form children := fun hform => collect_rebuildOne p plugin hform children
  have hlist : Survey.isStatementList form = true →
      p.rebuildList (children.map (told p plugin)) = p.gather plugin form children :=
    fun hform => rebuildList_eq p plugin hform children
  cases form with
  | program _ =>
      simp only [rebuild, hlist rfl]
      rfl
  | functionBody =>
      simp only [rebuild, hlist rfl]
      rfl
  | block =>
      simp only [rebuild, hlist rfl]
      rfl
  | staticBlock =>
      simp only [rebuild, hlist rfl]
      rfl
  | case =>
      cases children with
      | nil => rfl
      | cons test statements =>
          have htest : p.replacement plugin .switch test
              = ⟨[(p.rebuildOne true (told p plugin test)).result],
                  (p.rebuildOne true (told p plugin test)).stats⟩ :=
            rebuildOne_eq p plugin (show isFixed .switch = true from rfl) test
          have hstatements : p.rebuildList (statements.map (told p plugin))
              = p.gather plugin .case statements := rebuildList_eq p plugin rfl statements
          simp only [rebuild, List.map_cons, hstatements, gatherAll, htest]
          rfl
  | objectPattern role =>
      have heq : p.rebuildProperties (children.map (told p plugin))
          = p.gather plugin (.objectPattern role) children :=
        collect_staying p plugin rfl (fun k => p.removedPatterns.contains k.span) (fun _ => rfl)
          children
      simp only [rebuild, heq]
      rfl
  | arrayPattern role =>
      have heq : p.rebuildElements (children.map (told p plugin))
          = p.gather plugin (.arrayPattern role) children :=
        collect_staying p plugin rfl
          (fun k => k.form == .rest && p.removedPatterns.contains k.span) (fun _ => rfl) children
      simp only [rebuild, heq]
      rfl
  | variableDeclaration kind =>
      simp only [rebuild, rebuildDeclarators_eq p plugin kind]
      rfl
  | call isOptional isPure =>
      have heq := heach rfl
      simp only [Form.holdsValues] at heq
      simp only [rebuild, heq]
      rfl
  | member isOptional name =>
      have heq := heach rfl
      simp only [Form.holdsValues] at heq
      simp only [rebuild, heq]
      rfl
  | _ =>
      have heq := heach rfl
      simp only [Form.holdsValues] at heq
      simp only [rebuild, heq]
      rfl

-- ============================================================ what can become of a node

/-- What stands in place of a child can become of it. -/
theorem becomes_replacement (above : Form) (k : Node) :
    Becomes p plugin above k (p.replacement plugin above k) := by
  unfold replacement
  split
  case h_1 =>
    split
    case isTrue h => exact .pruned rfl h
    case isFalse => exact .remade fun _ => rfl
  case h_2 =>
    split
    case isTrue h => exact .pruned rfl (Bool.and_eq_true_iff.mp h).2
    case isFalse => exact .remade fun _ => rfl
  case h_3 => exact .divided rfl rfl
  case h_4 =>
    split
    case isTrue h =>
      split
      case isTrue hlist => exact .removed hlist h
      case isFalse => exact .emptied h
    case isFalse h =>
      dsimp only
      split
      case isTrue hempty =>
        rw [Bool.and_eq_true] at hempty
        have hvalues : above.holdsValues = true := by
          have hlist := hempty.1
          cases above <;> first | rfl | cases hlist
        rw [hvalues] at hempty ⊢
        exact .vanished hempty.1 (eq_false_of_ne_true h) hempty.2
      case isFalse => exact .remade fun h' => absurd h' h

/-- Children that are gathered have become what a child may become. -/
theorem allBecome_gather (above : Form) (ks : List Node) :
    AllBecome p plugin above ks (p.gather plugin above ks) := by
  induction ks with
  | nil => exact .nil
  | cons k ks ih => exact .cons (becomes_replacement p plugin above k) ih

/-- And so have the children of every form. -/
theorem allBecome_gatherAll (form : Form) (children : List Node) :
    AllBecome p plugin form children (p.gatherAll plugin form children) := by
  unfold gatherAll
  split
  case h_1 test statements =>
    refine .cons ?_ (allBecome_gather p plugin .case statements)
    -- the test of a case stands alone
    unfold replacement
    dsimp only
    split
    case isTrue h => exact .emptied h
    case isFalse h => exact .remade fun h' => absurd h' h
  case h_2 => exact allBecome_gather p plugin form children

/-- What becomes of a node. -/
theorem remake_outcome (form : Form) (span : Span) (children : List Node) (isValue : Bool) :
    ∃ parts, AllBecome p plugin form children parts
      ∧ Outcome p plugin form span isValue parts
          (p.remake plugin isValue (.node form span children)) := by
  rw [remake_eq]
  refine ⟨_, allBecome_gatherAll p plugin form children, ?_⟩
  unfold finish
  split
  case h_1 =>
    split
    case h_1 chain heq =>
      split at heq
      case isTrue hvalue =>
        obtain ⟨names, hlookup, hchain⟩ := Option.bind_eq_some_iff.mp heq
        exact .substituted rfl hlookup hchain
      case isFalse => cases heq
    case h_2 => exact .kept nofun
  case h_2 =>
    split
    case isTrue h =>
      obtain ⟨hvalue, hbound⟩ := Bool.and_eq_true_iff.mp h
      exact .bound rfl hvalue hbound
    case isFalse h => exact .kept fun _ _ _ => eq_false_of_ne_true h
  case h_3 hmember => exact .kept fun _ _ h => absurd h (hmember _ _)

end

end EditPlan

end Graft
