import Mathlib.Algebra.GroupWithZero.Nat
import Graft.Proofs.Edit.Rebuild
import Graft.Proofs.Plan.Grounds
import Graft.Proofs.Tree.Alike
import Graft.Proofs.Tree.Identity
/-!
What every edit but one takes away.

A program weighs as much as there is in it that an edit can take away (`Node.weight`): statements
that are values, entries of patterns, and calls of one argument that is a string, for a module may
be loaded there. Whether an edit would take them away plays no part.

# Edits make lighter

An edit that elides, prunes, substitutes or splits makes a program lighter, each time it is done
(`EditPlan.weight_remake`). The induction is on the node, with what can become of it, and what was
cut in the children is added up.

- A chain of names weighs nothing, so a call that becomes one pays for it
  (`Node.isStaticChain_ofChain`).
- A split needs a reason: it copies a value once for every property that moves. But only a row of
  names is copied, and a row of names weighs nothing, so the declarator gets lighter by the
  properties that its pattern loses (`EditPlan.weigh_splitDeclarator`).
- To bind an access makes nothing lighter, and nothing heavier either (`Node.weight_boundTo`). What
  it does take away is counted apart.
-/
namespace Graft

/-- The number of edits that took something away. -/
def TransformStats.cuts (s : TransformStats) : Nat :=
  s.statementsElided + s.patternsPruned + s.importsSubstituted + s.declaratorsSplit

namespace TransformStats

@[simp] theorem cuts_zero : TransformStats.zero.cuts = 0 := rfl

@[simp] theorem cuts_absorb (s t : TransformStats) : (s.absorb t).cuts = s.cuts + t.cuts := by
  simp only [cuts, absorb]
  omega

@[simp] theorem membersBound_absorb (s t : TransformStats) :
    (s.absorb t).membersBound = s.membersBound + t.membersBound := rfl

/-- What an edit changes is what it cuts and what it binds. -/
theorem total_eq (s : TransformStats) : s.total = s.cuts + s.membersBound := by
  simp only [total, cuts]
  omega

end TransformStats

/-- What a node weighs without its children. -/
def Form.weight (form : Form) (children : List Node) : Nat :=
  match form, children with
  | .call .., [_, argument] => if argument.stringText?.isSome then 1 else 0
  | .objectPattern _, _ | .arrayPattern _, _ => children.length
  | .expressionStatement, _ => 1
  | _, _ => 0

namespace Node

/-- How much there is in a tree that an edit can take away. -/
def weight : Node → Nat :=
  fold fun form _ children => form.weight (children.map Prod.fst) + (children.map Prod.snd).sum

/-- What some nodes weigh. -/
def weigh (ns : List Node) : Nat := (ns.map weight).sum

/-- A tree weighs what its root weighs and what its children weigh. -/
theorem weight_node (form : Form) (span : Span) (children : List Node) :
    (node form span children).weight = form.weight children + weigh children := by
  rw [weight, fold_node]
  simp [weigh, weight, Function.comp_def]

@[simp] theorem weigh_nil : weigh [] = 0 := rfl

@[simp] theorem weigh_cons (n : Node) (ns : List Node) : weigh (n :: ns) = n.weight + weigh ns :=
  rfl

@[simp] theorem weigh_append (ms ns : List Node) : weigh (ms ++ ns) = weigh ms + weigh ns := by
  simp [weigh]

/-- The weight of a tree does not depend on where it was read. -/
theorem weight_unplaced (n : Node) : n.unplaced.weight = n.weight := by
  induction n with
  | node form span children ih =>
      have hself : form.weight (children.map unplaced) = form.weight children := by
        cases form with
        | call isOptional isPure =>
            match children with
            | [_, argument] => simp [Form.weight]
            | [] | [_] | _ :: _ :: _ :: _ => rfl
        | objectPattern role => exact List.length_map ..
        | arrayPattern role => exact List.length_map ..
        | _ => rfl
      have hall : weigh (children.map unplaced) = weigh children := by
        rw [weigh, weigh, List.map_map]
        exact congrArg List.sum (List.map_congr_left ih)
      rw [unplaced_node, weight_node, weight_node, hself, hall]

-- ============================================================ nodes made anew

theorem weight_access (object : Node) (name : String) :
    (object.access name).weight = object.weight := by
  rw [access, made, weight_node]
  simp [Form.weight]

/-- What binds a value weighs nothing. -/
theorem weight_boundTo (target : Node) (plugin : String) :
    (target.boundTo plugin).weight = target.weight := by
  rw [boundTo, made, weight_node]
  simp only [weigh_cons, weight_access, made, weight_node]
  simp [Form.weight]

/-- A chain of names is a row of names, and weighs nothing. -/
theorem isStaticChain_ofChain {names : List String} {chain : Node}
    (h : ofChain? names = some chain) : chain.isStaticChain = true ∧ chain.weight = 0 := by
  cases names with
  | nil => cases h
  | cons first names =>
      obtain rfl := Option.some.inj h
      have hfold : ∀ n : Node, n.isStaticChain = true ∧ n.weight = 0 →
          (names.foldl access n).isStaticChain = true ∧ (names.foldl access n).weight = 0 := by
        induction names with
        | nil => exact fun _ hn => hn
        | cons name names ih =>
            exact fun n hn => ih rfl (n.access name) ⟨hn.1, (weight_access n name).trans hn.2⟩
      exact hfold _ ⟨rfl, rfl⟩

/-- A static chain is a name or an access. -/
theorem form_of_isStaticChain {n : Node} (h : n.isStaticChain = true) :
    (∃ name, n.form = .identifier name) ∨ ∃ isOptional name, n.form = .member isOptional name := by
  rw [isStaticChain.eq_def] at h
  split at h
  · exact .inl ⟨_, rfl⟩
  · exact .inr ⟨_, _, rfl⟩
  · cases h

end Node

namespace EditPlan

open Node

variable {p : EditPlan} {plugin : String} {v : Survey} {l : Liveness} {tree : Node}

theorem mem_of_lookup {α : Type} {entries : List (Span × α)} {span : Span} {a : α}
    (h : entries.lookup span = some a) : (span, a) ∈ entries := by
  obtain ⟨before, after, rfl, -⟩ := List.lookup_eq_some_iff.mp h
  exact List.mem_append_right before List.mem_cons_self

-- ================================================================ splitting

/-- What moves out of a pattern and what stays in it are the entries of the pattern. -/
theorem weigh_moved (splits : List PropertySplit) (properties : List Node) :
    (properties.filterMap (movedValue? splits)).length
        + (properties.filter fun n => (movedValue? splits n).isNone).length = properties.length
      ∧ weigh ((properties.filterMap (movedValue? splits)).map Prod.snd)
        + weigh (properties.filter fun n => (movedValue? splits n).isNone) ≤ weigh properties := by
  induction properties with
  | nil => exact ⟨rfl, Nat.le_refl _⟩
  | cons n properties ih =>
      obtain ⟨hlength, hweigh⟩ := ih
      cases hmoved : movedValue? splits n with
      | none =>
          simp only [List.filterMap_cons, List.filter_cons, hmoved, Option.isNone_none, if_true,
            List.length_cons, weigh_cons]
          omega
      | some m =>
          have hle : m.2.weight ≤ n.weight := by
            unfold movedValue? at hmoved
            split at hmoved
            case h_1 span key value =>
              obtain ⟨s, -, rfl⟩ := Option.map_eq_some_iff.mp hmoved
              rw [weight_node]
              simp only [weigh_cons]
              omega
            case h_2 => cases hmoved
          simp only [List.filterMap_cons, List.filter_cons, hmoved, Option.isNone_some,
            Bool.false_eq_true, if_false, List.length_cons, List.map_cons, weigh_cons]
          omega

/-- A declarator with a value that weighs nothing gets lighter with every part that it is divided
into. -/
theorem weigh_splitDeclarator {splits : List PropertySplit} {isDroppable : Bool} {n : Node}
    (h : splits ≠ [] → ∀ span pattern value,
      n = .node .declarator span [pattern, value] → value.weight = 0) :
    weigh (splitDeclarator plugin splits isDroppable n).result
      + (splitDeclarator plugin splits isDroppable n).stats.cuts ≤ n.weight := by
  unfold splitDeclarator
  split
  case h_2 => simp
  case h_1 span role inner properties value =>
    obtain ⟨hlength, hweigh⟩ := weigh_moved splits properties
    generalize hmoved : properties.filterMap (movedValue? splits) = moved at hlength hweigh
    generalize (properties.filter fun n => (movedValue? splits n).isNone) = staying
      at hlength hweigh
    -- the value stands in every part, so it must weigh nothing if there is one
    have hmade : weigh (moved.map fun m =>
        Node.made .declarator [m.2, (value.access m.1).boundTo plugin])
          = weigh (moved.map Prod.snd) := by
      have hvalue : moved = [] ∨ value.weight = 0 := by
        by_cases hsplits : splits = []
        · subst hsplits
          refine .inl (hmoved ▸ List.filterMap_eq_nil_iff.mpr fun n _ => ?_)
          unfold movedValue?
          split <;> rfl
        · exact .inr (h hsplits span _ value rfl)
      rcases hvalue with rfl | hvalue
      · rfl
      · clear hmoved hlength hweigh
        induction moved with
        | nil => rfl
        | cons m moved ih =>
            rw [List.map_cons, weigh_cons, ih, made, weight_node]
            simp [weight_boundTo, weight_access, hvalue, Form.weight]
    simp only [weigh_append, hmade, TransformStats.cuts, List.length_map, weight_node,
      Form.weight, weigh_cons, weigh_nil]
    split <;> simp [weight_node, Form.weight] <;> omega

-- ============================================================ children

/-- What is asked of what becomes of a child: it is as light as the child was, and lighter for
every cut. In a pattern an entry that stays counts too. -/
theorem weigh_becomes {form : Form} {k : Node} {out : Edited (List Node)}
    (h : Becomes p plugin form k out)
    (hk : ∀ isValue, (p.remake plugin isValue k).result.weight
      + (p.remake plugin isValue k).stats.cuts ≤ k.weight)
    (hsplit : (p.splits.lookup k.span).getD [] ≠ [] → ∀ span pattern value,
      (p.remake plugin true k).result = .node .declarator span [pattern, value] →
        value.weight = 0) :
    weigh out.result + out.stats.cuts + (if isPattern form then out.result.length else 0)
      ≤ k.weight + (if isPattern form then 1 else 0) := by
  -- only a statement goes, and a statement weighs at least one by itself
  have hremoved : p.isRemoved k = true → 1 ≤ k.weight := by
    intro hr
    obtain ⟨hform, -⟩ := Bool.and_eq_true_iff.mp hr
    cases k with
    | node form span children =>
        obtain rfl : form = .expressionStatement := eq_of_beq hform
        rw [weight_node, Form.weight]
        omega
  cases h with
  | removed hform hr =>
      have := hremoved hr
      simp only [weigh_nil, TransformStats.cuts, List.length_nil]
      split <;> omega
  -- the statement left empty weighs nothing, so what was removed pays for the removal
  | emptied hr =>
      have := hremoved hr
      have hempty : (made .empty []).weight = 0 := rfl
      simp only [weigh_cons, weigh_nil, TransformStats.cuts, List.length_singleton, hempty]
      split <;> omega
  | pruned hform _ =>
      simp only [hform, if_true, weigh_nil, TransformStats.cuts, List.length_nil]
      omega
  | remade _ =>
      have := hk form.holdsValues
      simp only [weigh_cons, weigh_nil, List.length_singleton]
      split <;> omega
  | vanished hform _ _ =>
      have := hk true
      simp only [weigh_nil, List.length_nil]
      split <;> omega
  -- what the parts of a declarator weigh and cost is no more than the remade declarator weighed
  | divided hform hparts =>
      subst hform hparts
      have h₁ := hk true
      have h₂ : weigh (splitDeclarator plugin ((p.splits.lookup k.span).getD [])
            (p.droppable.contains k.span) (p.remake plugin true k).result).result
          + (splitDeclarator plugin ((p.splits.lookup k.span).getD [])
            (p.droppable.contains k.span) (p.remake plugin true k).result).stats.cuts
          ≤ (p.remake plugin true k).result.weight := weigh_splitDeclarator hsplit
      simp only [TransformStats.cuts_absorb, isPattern, Bool.false_eq_true, if_false]
      omega

/-- What becomes of children weighs less by what is cut in them, and a pattern pays for each entry
that it keeps. -/
theorem weigh_allBecome {form : Form} {ks : List Node} {out : Edited (List Node)}
    (h : AllBecome p plugin form ks out)
    (hks : ∀ k ∈ ks, ∀ out, Becomes p plugin form k out →
      weigh out.result + out.stats.cuts + (if isPattern form then out.result.length else 0)
        ≤ k.weight + (if isPattern form then 1 else 0)) :
    weigh out.result + out.stats.cuts + (if isPattern form then out.result.length else 0)
      ≤ weigh ks + (if isPattern form then ks.length else 0) := by
  induction h with
  | nil => simp
  | cons head tail ih =>
      have h₁ := hks _ List.mem_cons_self _ head
      have h₂ := ih fun k hk => hks k (List.mem_cons_of_mem _ hk)
      simp only [weigh_append, weigh_cons, TransformStats.cuts_absorb, List.length_append,
        List.length_cons]
      by_cases hform : isPattern form = true
      · simp only [if_pos hform] at h₁ h₂ ⊢
        omega
      · simp only [if_neg hform] at h₁ h₂ ⊢
        omega

/-- A child that becomes one node is rebuilt, or was a statement and is empty now. -/
theorem Becomes.fixed {form : Form} {k : Node} {out : Edited (List Node)}
    (h : Becomes p plugin form k out) (hform : isFixed form = true) :
    (p.isRemoved k = true ∧ out = ⟨[Node.made .empty []], { statementsElided := 1 }⟩)
      ∨ p.isRemoved k = false ∧ out = ⟨[(p.remake plugin form.holdsValues k).result],
          (p.remake plugin form.holdsValues k).stats⟩ := by
  have hlist : Survey.isStatementList form = false ∧ isPattern form = false := by
    unfold isFixed at hform
    split at hform
    · cases hform
    · simpa using hform
  cases h with
  | removed hf _ => rw [hlist.1] at hf; cases hf
  | emptied hr => exact .inl ⟨hr, rfl⟩
  | pruned hf _ => rw [hlist.2] at hf; cases hf
  | remade hr =>
      refine .inr ⟨eq_false_of_ne_true fun h => ?_, rfl⟩
      rw [hlist.2] at hr
      cases hr h
  | vanished hf _ _ => rw [hlist.1] at hf; cases hf
  | divided hf _ => subst hf; cases hform

/-- Children of a form that becomes one node each. -/
theorem AllBecome.fixed {form : Form} {ks : List Node} {out : Edited (List Node)}
    (h : AllBecome p plugin form ks out) (hform : isFixed form = true) :
    out.result = ks.map fun k =>
      if p.isRemoved k then made .empty [] else (p.remake plugin form.holdsValues k).result := by
  induction h with
  | nil => rfl
  | cons head tail ih =>
      rw [List.map_cons, ih]
      rcases head.fixed hform with ⟨hr, rfl⟩ | ⟨hr, rfl⟩
      · simp [hr]
      · simp [hr]

-- ============================================================ nodes

/-- What is a string after the edits was one before. -/
theorem stringText?_remake {n : Node} {isValue : Bool}
    (h : (p.remake plugin isValue n).result.stringText?.isSome = true) :
    n.stringText?.isSome = true := by
  cases n with
  | node form span children =>
      obtain ⟨parts, -, houtcome⟩ := p.remake_outcome plugin form span children isValue
      generalize p.remake plugin isValue (.node form span children) = out at h houtcome
      cases houtcome with
      | substituted _ _ hchain =>
          unfold stringText? at h
          rcases form_of_isStaticChain (isStaticChain_ofChain hchain).1 with
            ⟨name, hform⟩ | ⟨o, name, hform⟩
          · rw [hform] at h
            cases h
          · rw [hform] at h
            cases h
      | bound => cases h
      | kept => exact h

/-- A row of names weighs nothing, and still does after the edits. -/
theorem weight_remake_static {n : Node} (hw : n.WellPlaced) (h : n.isStaticChain = true) :
    ∀ isValue, (p.remake plugin isValue n).result.weight = 0 := by
  induction n with
  | node form span children ih =>
      intro isValue
      obtain ⟨parts, hall, houtcome⟩ := p.remake_outcome plugin form span children isValue
      cases hw with
      | node fits hws =>
      -- of the children only those of an access weigh, and they are a row of names too
      have hparts : weigh parts.result = 0 ∧ form.weight parts.result = 0
          ∧ (∀ isOptional isPure, form ≠ .call isOptional isPure) := by
        rw [isStaticChain.eq_def] at h
        split at h
        case h_1 heq =>
          cases heq
          obtain rfl := fits.word rfl
          cases hall
          exact ⟨rfl, rfl, nofun⟩
        case h_2 isOptional name span' object heq =>
          cases heq
          refine ⟨?_, rfl, nofun⟩
          rw [hall.fixed rfl]
          have hobject := ih object List.mem_cons_self (hws object List.mem_cons_self) h true
          simp only [List.map_cons, List.map_nil, weigh_cons, weigh_nil, Nat.add_zero]
          split
          · rfl
          · exact hobject
        case h_3 => cases h
      generalize p.remake plugin isValue (.node form span children) = out at houtcome
      cases houtcome with
      | substituted hform => exact absurd hform (hparts.2.2 _ _)
      | bound =>
          dsimp only
          rw [weight_boundTo, weight_node, hparts.1, hparts.2.1]
      | kept =>
          dsimp only
          rw [weight_node, hparts.1, hparts.2.1]

/-- The declarator that a plan divides has a row of names for its value, and so has what it
becomes. -/
theorem weight_split (hp : GroundedIn v l tree p) (hw : tree.WellPlaced) {k : Node}
    (hk : k ∈ tree.parts) (hsplits : (p.splits.lookup k.span).getD [] ≠ []) {span : Span}
    {pattern value : Node}
    (h : (p.remake plugin true k).result = .node .declarator span [pattern, value]) :
    value.weight = 0 := by
  cases k with
  | node form span' children =>
      obtain ⟨parts, hall, houtcome⟩ := p.remake_outcome plugin form span' children true
      generalize p.remake plugin true (.node form span' children) = out at h houtcome
      cases houtcome with
      | substituted _ _ hchain =>
          dsimp only at h
          rw [h] at hchain
          cases (isStaticChain_ofChain hchain).1
      | bound => cases h
      | kept =>
          obtain ⟨rfl, rfl, hresult⟩ := Node.node.inj h
          obtain ⟨splits, hlookup⟩ : ∃ splits, p.splits.lookup span' = some splits := by
            cases hlookup : p.splits.lookup span' with
            | none => simp [span, hlookup] at hsplits
            | some splits => exact ⟨splits, rfl⟩
          obtain ⟨pattern', value', hmem, -, hstatic, -⟩ := hp.splits _ (mem_of_lookup hlookup)
          obtain ⟨-, -, rfl⟩ := Node.node.inj
            (hw.eq_of_span_eq hk hmem (isBare_node ..) (isBare_node ..) rfl rfl)
          have hvalue : value'.WellPlaced :=
            (hw.part hmem).part (mem_parts_node.mpr (.inr ⟨value', by simp, self_mem_parts _⟩))
          rw [hall.fixed rfl] at hresult
          simp only [List.map_cons, List.map_nil, List.cons.injEq, and_true] at hresult
          rw [← hresult.2]
          split
          · rfl
          · exact weight_remake_static hvalue hstatic true

/-- Of a form that is no pattern, what becomes of the children makes it no heavier. -/
theorem formWeight_le {form : Form} {ks : List Node} {out : Edited (List Node)}
    (h : AllBecome p plugin form ks out) (hform : isPattern form = false) :
    form.weight out.result ≤ form.weight ks := by
  cases form with
  | call isOptional isPure =>
      rw [h.fixed rfl]
      match ks with
      | [_, k] =>
          simp only [Form.weight, List.map_cons, List.map_nil]
          by_cases hr : p.isRemoved k = true
          · simp [hr, made, stringText?, Node.form]
          · rw [if_neg hr]
            by_cases hs : (p.remake plugin true k).result.stringText?.isSome = true
            · rw [if_pos (stringText?_remake hs)]
              split <;> omega
            · exact if_neg hs ▸ Nat.zero_le _
      | [] | [_] | _ :: _ :: _ :: _ => exact Nat.le_refl _
  | objectPattern _ => cases hform
  | arrayPattern _ => cases hform
  | _ => exact Nat.le_refl _

/-- An edit that takes something away makes the program lighter, and none makes it heavier. -/
theorem weight_remake (hp : GroundedIn v l tree p) (hw : tree.WellPlaced) (n : Node)
    (hn : n ∈ tree.parts) :
    ∀ isValue, (p.remake plugin isValue n).result.weight
      + (p.remake plugin isValue n).stats.cuts ≤ n.weight := by
  induction n with
  | node form span children ih =>
      intro isValue
      have hchild : ∀ k ∈ children, k ∈ tree.parts := fun k hk =>
        mem_parts_trans (mem_parts_node.mpr (.inr ⟨k, hk, self_mem_parts k⟩)) hn
      obtain ⟨parts, hall, houtcome⟩ := p.remake_outcome plugin form span children isValue
      have hsum := weigh_allBecome hall fun k hk out hout =>
        weigh_becomes hout (ih k hk (hchild k hk)) fun hsplits _ _ _ =>
          weight_split hp hw (hchild k hk) hsplits
      generalize p.remake plugin isValue (.node form span children) = out at houtcome
      rw [weight_node]
      cases houtcome with
      | substituted hform hlookup hchain =>
          subst hform
          -- the plan knows this call: it has one argument, a string
          obtain ⟨o, q, callee, arguments, hmem, hsub⟩ := hp.substitutions _ (mem_of_lookup hlookup)
          obtain ⟨hform, -, rfl⟩ := Node.node.inj
            (hw.eq_of_span_eq hn hmem (isBare_node ..) (isBare_node ..) rfl rfl)
          have hstring : Form.weight (.call o q) (callee :: arguments) = 1 := by
            unfold Survey.substitutionFor? at hsub
            split at hsub
            case h_1 name argument _ =>
              split at hsub
              case isTrue =>
                obtain ⟨text, htext, -⟩ := Option.bind_eq_some_iff.mp hsub
                simp [Form.weight, htext]
              case isFalse => cases hsub
            case h_2 => cases hsub
          have hcuts : TransformStats.cuts { importsSubstituted := 1 } = 1 := rfl
          simp only [isPattern, Bool.false_eq_true, if_false] at hsum
          simp only [(isStaticChain_ofChain hchain).2, TransformStats.cuts_absorb, hcuts, hform,
            hstring]
          omega
      | bound hform =>
          subst hform
          have hcuts : TransformStats.cuts { membersBound := 1 } = 0 := rfl
          have hform := formWeight_le hall rfl
          simp only [isPattern, Bool.false_eq_true, if_false] at hsum
          simp only [weight_boundTo, weight_node, TransformStats.cuts_absorb, hcuts]
          omega
      | kept =>
          simp only [weight_node]
          by_cases hpattern : isPattern form = true
          · have hlength : ∀ ks : List Node, form.weight ks = ks.length := by
              intro ks
              cases form <;> first | rfl | cases hpattern
            simp only [if_pos hpattern] at hsum
            simp only [hlength]
            omega
          · have hform := formWeight_le hall (eq_false_of_ne_true hpattern)
            simp only [if_neg hpattern] at hsum
            omega

end EditPlan

end Graft
