import Graft.Proofs.Edit.Performed
/-!
Nodes that become one node.

A node of a program may go away, or be divided, when a plan is carried out. In most places it does
neither: where it does not stand among statements or declarators and is no entry of a pattern, one
node stands in its place (`EditPlan.MadeFor.exists_performed`).
-/
namespace Graft

namespace EditPlan

open Node Survey

variable {v : Survey} {l : Liveness} {tree : Node} {p : EditPlan} {plugin : String} {n : Node}

/-- What stands in place of a pattern of properties. -/
theorem performed_objectPattern (role : PatternRole) (span : Span) (ks : List Node) (above : Form) :
    p.performed plugin (.node (.objectPattern role) span ks) above
      = [.node (.objectPattern role) span
          (ks.flatMap (p.performed plugin · (.objectPattern role)))] := by
  have hform : Form.objectPattern role ≠ .expressionStatement := fun h => by cases h
  rw [performed_of_plain hform rfl]
  simp only [restored, Form.askAll, List.flatMap_map]

/-- What holds nothing but words and strings stays as it is. -/
theorem performed_of_isBare (hbare : n.isBare = true) (above : Form) :
    p.performed plugin n above = [n] := by
  refine performed_of_unplanned (fun m hm => ?_) (fun m hm => ?_) above
  · refine eq_false_of_ne_true fun hplans => ?_
    have hmb := isBare_eq_false_of_plans hplans
    rw [isBare_of_mem_parts hbare hm] at hmb
    cases hmb
  · unfold declaresNothing
    split
    case h_1 =>
      have hmb := isBare_of_mem_parts hbare hm
      cases hmb
    case h_2 => rfl

namespace MadeFor

/-- Entries go away from patterns only. -/
theorem not_pruned_of_parent (h : MadeFor v l tree p) {q : Node} (hq : q ∈ tree.parts)
    (hn : n ∈ q.children) (hform : isPattern q.form = false) : p.isPruned n = false := by
  refine eq_false_of_ne_true fun hgoes => ?_
  obtain ⟨_, pattern, _, q', hdeclarator, hreaches, hspare⟩ :=
    h.pruned (mem_parts_trans (child_mem_parts hn) hq) hgoes
  have hpt := mem_parts_trans (child_mem_parts List.mem_cons_self) (kept_subset hdeclarator)
  obtain rfl := h.wellPlaced.parent_eq hq (mem_parts_trans hreaches.mem_parts hpt) hn hspare.mem
    hspare.isBare_eq_false
  rw [hspare.pattern] at hform
  cases hform

/-- A child that neither goes away nor moves out becomes one node where it does not stand among
statements or declarators; the test of a case does not. -/
theorem exists_performed_under (h : MadeFor v l tree p) (plugin : String) {q : Node} {above : Form}
    (hq : q ∈ tree.parts) (hn : n ∈ q.children) (habove : q.form.Under above)
    (hkept : p.isPruned n = false) (hunmoved : p.isMoved n = false)
    (hlist : isStatementList above = false) (hdeclaration : above.isDeclaration = false) :
    ∃ k, p.performed plugin n above = [k] := by
  cases n with
  | node form span children =>
      rw [performed_node]
      by_cases hgoes : p.isRemoved (node form span children) = true
      · rw [if_pos hgoes, hlist]
        exact ⟨_, rfl⟩
      rw [if_neg hgoes, hkept, hunmoved]
      cases form with
      | call isOptional isPure =>
          show ∃ k, (if above = .chain then _ else _) = [k]
          split
          · exact ⟨_, rfl⟩
          · exact ⟨_, rfl⟩
      | variableDeclaration kind =>
          simp only [restored, hlist, Bool.or_self, Bool.false_and, Bool.false_eq_true, if_false]
          exact ⟨_, rfl⟩
      | declarator =>
          rw [(h.isDeclaration_iff hq hn habove).mpr rfl] at hdeclaration
          cases hdeclaration
      | _ => exact ⟨_, rfl⟩

/-- What stands neither among statements nor among declarators, and is no entry that goes away,
becomes one node. -/
theorem exists_performed (h : MadeFor v l tree p) (plugin : String) {q : Node} (hq : q ∈ tree.parts)
    (hn : n ∈ q.children) (hkept : p.isPruned n = false) (hunmoved : p.isMoved n = false)
    (hlist : isStatementList q.form = false) (hdeclaration : q.form.isDeclaration = false) :
    ∃ k, p.performed plugin n q.form = [k] :=
  h.exists_performed_under plugin hq hn (.inl rfl) hkept hunmoved hlist hdeclaration

/-- What stands in place of the value of a declarator. -/
theorem performed_value (h : MadeFor v l tree p) {span : Span} {pattern value : Node}
    (hd : .node .declarator span [pattern, value] ∈ tree.parts)
    (hstays : p.isRemoved value = false) :
    p.performed plugin value .declarator = [(p.remake plugin true value).result] := by
  have hvalue : value ∈ (node .declarator span [pattern, value]).children :=
    List.mem_cons_of_mem _ List.mem_cons_self
  obtain ⟨hunmoved, hkids⟩ := h.not_moved_of_value hd
  have hagrees : (p.replacement plugin .declarator value).result
      = p.performed plugin value .declarator :=
    h.agrees value (mem_parts_trans (child_mem_parts hvalue) hd) value (self_mem_parts _) _ hd hvalue
      _ (.inl rfl) hunmoved hkids
  rw [← hagrees, rebuildOne_eq p plugin rfl, rebuildOne]
  exact congrArg (fun e : Edited Node => [e.result]) (if_neg (by
    rw [show p.isRemoved (told p plugin value).1 = false from hstays]
    exact Bool.false_ne_true))

/-- What moves out of the pattern of a declarator can, and the value is a row of names that traces
to the host. -/
theorem of_split? (h : MadeFor v l tree p) {span : Span} {pattern value k : Node}
    (hd : .node .declarator span [pattern, value] ∈ tree.parts) (hk : k ∈ pattern.children)
    {s : PropertySplit} (hs : p.split? k = some s) :
    MovableEntry v l pattern k s ∧ v.origin.traces value = true ∧ value.isStaticChain = true := by
  have hpt := mem_parts_trans (child_mem_parts List.mem_cons_self) hd
  obtain ⟨span', pattern', value', hmoves⟩ := h.moves (mem_parts_trans (child_mem_parts hk) hpt) hs
  have hdt := kept_subset hmoves.declarator
  have hkb : k.isBare = false :=
    isBare_eq_false_of_isMoved (Option.isSome_iff_exists.mpr ⟨s, hs⟩ : p.isMoved k = true)
  obtain rfl := h.wellPlaced.parent_eq hpt
    (mem_parts_trans (child_mem_parts List.mem_cons_self) hdt) hk hmoves.entry.mem hkb
  obtain ⟨pattern'', value'', hd'', htrace, hstatic, -⟩ := h.grounded.splits _ hmoves.splits
  have hpb : pattern.isBare = false := by
    obtain ⟨role, hrole⟩ := hmoves.entry.pattern
    exact isBare_eq_false_of_form (by rw [hrole]; rfl)
  obtain ⟨-, rfl, hsame⟩ := Node.node.inj
    (h.wellPlaced.parent_eq hd hdt List.mem_cons_self List.mem_cons_self hpb)
  obtain ⟨-, -, hsame'⟩ := Node.node.inj
    (h.wellPlaced.eq_of_span_eq hd hd'' (isBare_node ..) (isBare_node ..) rfl rfl)
  obtain ⟨-, hsame'⟩ := List.cons.inj hsame'
  obtain ⟨rfl, -⟩ := List.cons.inj hsame'
  exact ⟨hmoves.entry, htrace, hstatic⟩

/-- A declarator that names move out of has a row of names for its value. -/
theorem isStaticChain_of_movedFrom (h : MadeFor v l tree p) {span : Span} {pattern value : Node}
    (hd : .node .declarator span [pattern, value] ∈ tree.parts) {m : String × Node}
    (hm : m ∈ p.movedFrom (.node .declarator span [pattern, value])) :
    value.isStaticChain = true := by
  obtain ⟨k, hk, hsome⟩ := List.mem_filterMap.mp hm
  obtain ⟨_, _, _, _, _, heq, hk⟩ := of_mem_patternEntries hk
  obtain ⟨-, -, heq⟩ := Node.node.inj heq
  obtain ⟨rfl, -⟩ := List.cons.inj heq
  obtain ⟨s, hs⟩ := split?_of_movedOut? hsome
  exact (h.of_split? hd hk hs).2.2

end MadeFor

end EditPlan

end Graft
