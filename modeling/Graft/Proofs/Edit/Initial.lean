import Graft.Proofs.Edit.Divides
import Graft.Proofs.Edit.Kinds
/-!
When the names of a declaration get their values.

A name that moves out of a pattern gets its value after what is left of the pattern. So what is left
must not use it, and nothing in an edit looks at that: a default in the pattern may read a name that
has moved behind it.

Nothing else changes its place. The declarators in front of the one that is divided stay in front of
the names that move, and those behind it stay behind them (`EditPlan.MadeFor.divides_in_order`).
What stands in place of a row of declarators is what stands in place of each, one after the other,
so the order of the row is the order of the result. Hence a name that its own pattern does not use
is used in front of its initialization only where it was (`planEdits_initializes_in_order`).
-/
namespace Graft

namespace EditPlan

open Node Survey

variable {v : Survey} {l : Liveness} {tree : Node} {p : EditPlan} {plugin : String}
  {kind : VariableKind} {own span : Span} {before after : List Node} {pattern value n : Node}

theorem mem_parts_of_patternEntries {k d : Node} (hk : k ∈ patternEntries d) : k ∈ d.parts := by
  obtain ⟨_, _, _, _, _, rfl, hk⟩ := of_mem_patternEntries hk
  exact mem_parts_of_child List.mem_cons_self (child_mem_parts hk)

/-- What names move out of is a pattern of properties, and one stands in its place. -/
theorem exists_pattern_of_movedFrom (plugin : String) {m : String × Node}
    (hm : m ∈ p.movedFrom (.node .declarator span [pattern, value])) :
    ∃ pattern', p.performed plugin pattern .declarator = [pattern'] := by
  obtain ⟨k, hk, -⟩ := List.mem_filterMap.mp hm
  obtain ⟨_, _, _, _, _, heq, -⟩ := of_mem_patternEntries hk
  obtain ⟨-, -, heq⟩ := Node.node.inj heq
  rw [(List.cons.inj heq).1]
  exact ⟨_, performed_objectPattern _ _ _ _⟩

namespace MadeFor

/-- A name of the program that stands in what is put in place of some nodes stood in one of them. -/
theorem mem_of_performed (h : MadeFor v l tree p) {ns : List Node} {above : Form}
    (hns : ∀ k ∈ ns, k ∈ tree.parts) (hn : n ∈ tree.identifiers)
    (hmem : n ∈ (ns.flatMap (p.performed plugin · above)).flatMap parts) : n ∈ ns.flatMap parts := by
  obtain ⟨hnt, hname⟩ := List.mem_filter.mp hn
  obtain ⟨name, hform⟩ := exists_name_of_isIdentifier hname
  obtain ⟨x, hx, hnx⟩ := List.mem_flatMap.mp hmem
  obtain ⟨k, hk, hx⟩ := List.mem_flatMap.mp hx
  have hspan : n.span ≠ .none := by
    refine h.wellPlaced.span_ne_none hnt (isBare_eq_false_of_form (by rw [hform]; rfl)) ?_
    rintro rfl
    obtain ⟨_, hprogram⟩ := h.program
    rw [hform] at hprogram
    cases hprogram
  exact List.mem_flatMap.mpr ⟨k, hk, h.word_of_performed (hns k hk) hx hnx (by rw [hform]; rfl) hspan⟩

/-- The declaration of a declarator that names move out of stands in nothing that goes away. -/
theorem outside_of_movedFrom (h : MadeFor v l tree p) {m : String × Node} {q : Node}
    (hd : .node .declarator span [pattern, value] ∈ tree.parts)
    (hm : m ∈ p.movedFrom (.node .declarator span [pattern, value]))
    (hq : q ∈ tree.parts) (hin : .node .declarator span [pattern, value] ∈ q.parts) :
    p.isRemoved q = false ∧ p.isPruned q = false := by
  obtain ⟨k, hk, hsome⟩ := List.mem_filterMap.mp hm
  obtain ⟨s, hs⟩ := split?_of_movedOut? hsome
  have hmoved : p.isMoved k = true := Option.isSome_iff_exists.mpr ⟨s, hs⟩
  have hkd := mem_parts_of_patternEntries hk
  have hkept : p.isPruned k = false := by
    refine eq_false_of_ne_true fun hgoes => ?_
    rw [h.not_moved_of_pruned (mem_parts_trans hkd hd) hgoes] at hmoved
    cases hmoved
  refine h.stays_around hq (mem_parts_trans hkd hin) ?_ (by simp [plans, hmoved]) hkept
  rintro rfl
  have hform := isPatternProperty_of_isMoved hmoved
  rw [eq_of_mem_parts hkd hin] at hform
  cases hform

/-- Where names move out of a declarator, the declarators in front of it stay in front of them, and
those behind it stay behind them. -/
theorem divides_in_order (h : MadeFor v l tree p) (plugin : String) {m : String × Node}
    (hd : .node (.variableDeclaration kind) own
      (before ++ .node .declarator span [pattern, value] :: after) ∈ tree.parts)
    (hm : m ∈ p.movedFrom (.node .declarator span [pattern, value])) :
    ∃ front behind, .node (.variableDeclaration kind) own
        (front ++ boundDeclarators plugin (p.remake plugin true value).result
          (p.movedFrom (.node .declarator span [pattern, value])) ++ behind)
          ∈ (p.apply plugin tree).1.parts
      ∧ (∀ n ∈ tree.identifiers, n ∈ front.flatMap parts →
          n ∈ before.flatMap parts ∨ n ∈ (node .declarator span [pattern, value]).parts)
      ∧ ∀ n ∈ tree.identifiers, n ∈ behind.flatMap parts → n ∈ after.flatMap parts := by
  have hmem := List.mem_append_right before (List.mem_cons_self (l := after)
    (a := node .declarator span [pattern, value]))
  have hin := child_mem_parts (n := node (.variableDeclaration kind) own _) hmem
  have hdt := mem_parts_trans hin hd
  obtain ⟨pattern', hpattern⟩ := exists_pattern_of_movedFrom plugin hm
  obtain ⟨front, value', hparts, -⟩ := h.performed_declarator plugin hdt hpattern
    (.variableDeclaration kind)
  -- the declaration does not vanish, for the moved names leave at least one declarator in it
  have hresult := h.declaration_mem_apply plugin hd
    (fun q hq hdq => h.outside_of_movedFrom hdt hm hq (mem_parts_trans hin hdq)) fun hnone => by
      have hgone := List.flatMap_eq_nil_iff.mp hnone _ hmem
      rw [hparts, List.append_eq_nil_iff, boundDeclarators, List.map_eq_nil_iff] at hgone
      exact List.ne_nil_of_mem hm hgone.2
  -- what the other declarators became stands around what this one became
  rw [List.flatMap_append, List.flatMap_cons, hparts, ← List.append_assoc, ← List.append_assoc]
    at hresult
  have hns : ∀ k ∈ before ++ node .declarator span [pattern, value] :: after, k ∈ tree.parts :=
    fun k hk => mem_parts_trans (child_mem_parts (n := node (.variableDeclaration kind) own _) hk) hd
  -- an identifier in front comes from an earlier declarator or from this one, one behind from a
  -- later
  refine ⟨_, _, hresult, fun n hn hnf => ?_, fun n hn hnb => ?_⟩
  · rw [List.flatMap_append] at hnf
    rcases List.mem_append.mp hnf with hnf | hnf
    · exact .inl (h.mem_of_performed (fun k hk => hns k (List.mem_append_left _ hk)) hn hnf)
    · refine .inr ?_
      have hself : n ∈ ([node .declarator span [pattern, value]].flatMap
          (p.performed plugin · (.variableDeclaration kind))).flatMap parts := by
        rw [List.flatMap_singleton, hparts, List.flatMap_append]
        exact List.mem_append_left _ hnf
      have hsource := h.mem_of_performed (fun k hk => List.mem_singleton.mp hk ▸ hdt) hn hself
      rwa [List.flatMap_singleton] at hsource
  · exact h.mem_of_performed
      (fun k hk => hns k (List.mem_append_right _ (List.mem_cons_of_mem _ hk))) hn hnb

end MadeFor

end EditPlan

open Node EditPlan

/-- Where names move out of a pattern, a symbol that the pattern itself does not use is used in
front of them only where it was before the edit: in a declarator in front of the one that is
divided, or in its value. -/
theorem planEdits_initializes_in_order {config : TransformConfig} {plugin source : String}
    {p : Program} (hp : Program.parse? source = some p) {kind : VariableKind} {own span : Span}
    {before after : List Node} {pattern value : Node} {m : String × Node} {s : Nat}
    (hd : .node (.variableDeclaration kind) own
      (before ++ .node .declarator span [pattern, value] :: after) ∈ p.tree.parts)
    (hm : m ∈ (planEdits config plugin p.tree).1.movedFrom
      (.node .declarator span [pattern, value]))
    (hpattern : ∀ n ∈ pattern.identifiers,
      (Bindings.ofProgram p.tree).symbolOfUse? n.span.start ≠ some s) :
    ∃ front behind, .node (.variableDeclaration kind) own
        (front ++ boundDeclarators plugin
          ((planEdits config plugin p.tree).1.remake plugin true value).result
          ((planEdits config plugin p.tree).1.movedFrom (.node .declarator span [pattern, value]))
          ++ behind) ∈ ((planEdits config plugin p.tree).1.apply plugin p.tree).1.parts
      ∧ ∀ n ∈ p.tree.identifiers, (Bindings.ofProgram p.tree).symbolOfUse? n.span.start = some s →
          n ∈ front.flatMap parts → n ∈ before.flatMap parts ∨ n ∈ value.parts := by
  have h := planEdits_madeFor config plugin (Program.wellPlaced_of_parse? hp)
    (Program.form_of_parse? hp)
  obtain ⟨front, behind, hresult, hfront, -⟩ := h.divides_in_order plugin hd hm
  refine ⟨front, behind, hresult, fun n hn huse hnf => (hfront n hn hnf).imp_right fun hnd => ?_⟩
  have hname := (List.mem_filter.mp hn).2
  rcases mem_parts_node.mp hnd with rfl | ⟨k, hk, hnk⟩
  · cases hname
  rcases List.mem_cons.mp hk with rfl | hk
  · exact absurd huse (hpattern n (List.mem_filter.mpr ⟨hnk, hname⟩))
  · exact List.mem_singleton.mp hk ▸ hnk

/-- A default that uses a name of its pattern comes in front of the initialization of the name. -/
example : (Program.parse? "const \x7b saveData, other = saveData \x7d = BdApi; use(other);").any (fun p =>
    ((planEdits .standard "p" p.tree).1.apply "p" p.tree).1.parts.any fun n =>
      n.form.isDeclaration
        && n.children.head?.any (·.identifiers.any (·.form == .identifier "saveData"))
        && n.children.getLast?.any (·.bindings.any (·.form == .binding "saveData"))) = true := by
  decide +kernel

end Graft
