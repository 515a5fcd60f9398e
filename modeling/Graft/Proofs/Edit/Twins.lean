import Graft.Proofs.Edit.Performed
import Graft.Proofs.Plan.Lockstep
/-!
Plans that name the same nodes of two programs.

Where two plans were made in lockstep (`EditPlan.MadeAlike`), whatever one of them says of a node
the other one says of the node beside it: whether it goes away, moves out, is bound or becomes a
chain of names, and which one.
-/
namespace Graft

open Node Survey

namespace Form

/-- Forms that are the same with other texts are of the same kinds, if no string is. -/
theorem kind_eq {σ : TextMap} {form form' : Form} (h : form.mapText σ = form'.mapText σ)
    (kind : Form → Bool) (hkind : ∀ units, kind (.string units) = false) :
    kind form' = kind form := by
  cases hstring : form.isString with
  | false => rw [eq_of_mapText_eq h hstring]
  | true =>
      have hstring' : form'.isString = true := by
        rw [← isString_mapText form', ← h, isString_mapText, hstring]
      obtain ⟨units, rfl⟩ := exists_of_isString hstring
      obtain ⟨units', rfl⟩ := exists_of_isString hstring'
      rw [hkind, hkind]

theorem isBare_of_isEntry {form : Form} (h : form.isEntry = true) : form.isBare = false := by
  cases form <;> first | rfl | cases h

end Form

namespace Node.SpansOf

/-- The spans of nodes that stand side by side the other way round. -/
theorem symm {σ : TextMap} {t u : Node} {kind : Form → Bool} {s s' : Span}
    (h : SpansOf t u kind s s') (halike : t.AlikeBy σ u)
    (hkind : ∀ units, kind (.string units) = false) : SpansOf u t kind s' s := by
  obtain ⟨m, n, hmn, hm, rfl, rfl⟩ := h
  exact ⟨n, m, hmn.symm, (Form.kind_eq (hmn.alikeBy halike).form_eq kind hkind).trans hm, rfl, rfl⟩

end Node.SpansOf

namespace EditPlan

/-- What two plans say about properties that move out goes together. -/
theorem Twins.flatMap_splits {t u : Node} {p q : EditPlan} (h : p.Twins t u q) :
    List.Forall₂ (PropertySplit.Twins t u) (p.splits.flatMap Prod.snd)
      (q.splits.flatMap Prod.snd) :=
  List.rel_flatMap h.splits fun _ _ hxy => hxy.2

/-- An entry that goes away stands beside one that goes away. -/
theorem MadeFor.isPruned_of_beside {v : Survey} {l : Liveness} {t u m n : Node} {p q : EditPlan}
    (h : MadeFor v l t p) (hmn : Beside t u m n) (hkind : n.form.isEntry = m.form.isEntry)
    (hpatterns : List.Forall₂ (SpansOf t u Form.isEntry) p.removedPatterns q.removedPatterns)
    (hgoes : p.isPruned m = true) : q.isPruned n = true := by
  have hbare := isBare_eq_false_of_isPruned hgoes
  obtain ⟨_, pattern, _, k, hdeclarator, hreaches, hspare⟩ := h.pruned hmn.left_mem hgoes
  have hpattern := mem_parts_trans (child_mem_parts List.mem_cons_self) (kept_subset hdeclarator)
  rw [isPruned, Bool.and_eq_true, List.contains_iff_mem] at hgoes ⊢
  refine ⟨hkind.trans hgoes.1, ?_⟩
  -- no other entry has the span
  obtain ⟨i, hi, hspan⟩ := List.mem_iff_getElem.mp hgoes.2
  have hi' : i < q.removedPatterns.length := hpatterns.length_eq ▸ hi
  obtain ⟨m', n', hmn', hm', hspan', hn'⟩ := hpatterns.get hi hi'
  obtain rfl := eq_of_spareEntry h.wellPlaced (mem_parts_trans hreaches.mem_parts hpattern) hspare
    hmn'.left_mem hm' (isBare_eq_false_of_form (Form.isBare_of_isEntry hm'))
    (hspan.symm.trans hspan'.symm)
  rw [hmn.right_unique h.wellPlaced hbare hmn', hn']
  exact List.getElem_mem hi'

/-- Two plans, each made for its program, that name the same nodes of the two programs. -/
structure MadeAlike (v w : Survey) (l l' : Liveness) (σ : TextMap) (t u : Node) (p q : EditPlan) :
    Prop where
  left : MadeFor v l t p
  right : MadeFor w l' u q
  alike : t.AlikeBy σ u
  twins : p.Twins t u q

namespace MadeAlike

variable {v w : Survey} {l l' : Liveness} {σ : TextMap} {t u : Node} {p q : EditPlan}
  (h : MadeAlike v w l l' σ t u p q) {m n : Node} (hmn : Beside t u m n)
include h hmn

/-- Nodes side by side are of one kind, if the kind does not look into strings. -/
theorem kind_eq (kind : Form → Bool) (hkind : ∀ units, kind (.string units) = false) :
    kind n.form = kind m.form :=
  Form.kind_eq (hmn.alikeBy h.alike).form_eq kind hkind

/-- A span is that of a node exactly if the span beside it is that of the node beside it. -/
theorem span_iff {kind : Form → Bool} {rank : Nat} (hkind : Form.IsMarked kind rank)
    (hm : kind m.form = true) {s s' : Span} (hs : SpansOf t u kind s s') :
    s = m.span ↔ s' = n.span :=
  hs.span_iff h.left.wellPlaced h.right.wellPlaced h.alike hkind hmn hm

/-- Nodes side by side are both removed or both not. -/
theorem isRemoved_eq : q.isRemoved n = p.isRemoved m := by
  have hkind : (n.form == .expressionStatement) = (m.form == .expressionStatement) :=
    h.kind_eq hmn (· == .expressionStatement) fun _ => rfl
  rw [isRemoved, isRemoved, hkind]
  cases hm : m.form == .expressionStatement with
  | false => rfl
  | true =>
      have hstatement : m.form.isStatement = true := by rw [beq_iff_eq.mp hm]; rfl
      exact contains_eq h.twins.statements fun x y hxy => h.span_iff hmn
        Form.isMarked_isStatement hstatement hxy

/-- Nodes side by side are both pruned or both not. -/
theorem isPruned_eq : q.isPruned n = p.isPruned m := by
  have hkind := h.kind_eq hmn Form.isEntry fun _ => rfl
  rw [Bool.eq_iff_iff]
  constructor
  · refine h.right.isPruned_of_beside hmn.symm hkind.symm ?_
    refine (List.Forall₂.flip h.twins.patterns).imp fun x y hxy =>
      SpansOf.symm hxy h.alike fun _ => rfl
  · exact h.left.isPruned_of_beside hmn hkind h.twins.patterns

/-- Calls side by side are given the same names. -/
theorem lookup_eq (hm : m.form.isCall = true) :
    q.substitutions.lookup n.span = p.substitutions.lookup m.span := by
  have hspan : ∀ {x y}, SpansOf t u Form.isCall x y → (x = m.span ↔ y = n.span) := fun hxy =>
    h.span_iff hmn Form.isMarked_isCall hm hxy
  have htwins := h.twins.substitutions
  generalize p.substitutions = es at htwins
  generalize q.substitutions = es' at htwins
  induction htwins with
  | nil => rfl
  | @cons x y _ _ hxy _ ih =>
      obtain ⟨s, chain⟩ := x
      obtain ⟨s', chain'⟩ := y
      obtain ⟨hxy, rfl⟩ := hxy
      rw [List.lookup_cons, List.lookup_cons, ih, beq_eq_of_iff (hspan hxy)]

theorem contains_boundMembers (hm : m.form.isMember = true) :
    q.boundMembers.contains n.span = p.boundMembers.contains m.span :=
  contains_eq h.twins.members fun _ _ hxy => h.span_iff hmn Form.isMarked_isMember hm hxy

theorem contains_droppable (hm : m.form.isDeclarator = true) :
    q.droppable.contains n.span = p.droppable.contains m.span :=
  contains_eq h.twins.droppable fun _ _ hxy => h.span_iff hmn Form.isMarked_isDeclarator hm hxy

/-- What moves out at one place moves out at the other one, and stands for the same method. -/
theorem map_method_split? : (q.split? n).map PropertySplit.method
    = (p.split? m).map PropertySplit.method := by
  have hkind := h.kind_eq hmn Form.isPatternProperty fun _ => rfl
  rw [split?, split?, hkind]
  cases hm : m.form.isPatternProperty with
  | false => rfl
  | true =>
      have hfound := h.twins.flatMap_splits
      rw [if_pos rfl, if_pos rfl]
      generalize p.splits.flatMap Prod.snd = ss at hfound
      generalize q.splits.flatMap Prod.snd = ss' at hfound
      induction hfound with
      | nil => rfl
      | @cons x y _ _ hxy _ ih =>
          obtain ⟨hspans, hmethod⟩ := hxy
          have hiff := h.span_iff hmn Form.isMarked_isPatternProperty hm hspans
          have hsame : (y.property == n.span) = (x.property == m.span) := by
            rw [Bool.eq_iff_iff, beq_iff_eq, beq_iff_eq]
            exact hiff.symm
          rw [List.find?_cons, List.find?_cons, hsame]
          split
          · exact congrArg some hmethod.symm
          · exact ih

theorem isMoved_eq : q.isMoved n = p.isMoved m := by
  have hsplit := congrArg Option.isSome (h.map_method_split? hmn)
  rwa [Option.isSome_map, Option.isSome_map] at hsplit

end MadeAlike

end EditPlan

end Graft
