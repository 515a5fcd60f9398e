import Graft.Proofs.Edit.Reached
import Graft.Proofs.Edit.Single
/-!
What stands in an edited program.

`EditPlan.performed` says of every node what stands in its place, but not whether that is part of
the result: something around the node may go away.

- What stands in place of a node that the edit comes to stands in the result, unless it has no
  parts, or it is an access and a declarator around it goes away
  (`EditPlan.MadeFor.mem_parts_performed`). Rows of accesses and empty patterns are all that can go
  away with a declarator, for a declarator goes away only if its value is a row of names.
- So what is put in place of a declarator that stands in nothing that goes away stands in a
  declaration of the result (`EditPlan.MadeFor.mem_declaration`).
- And what is put in place of anything that lasts stands in the result
  (`EditPlan.MadeFor.exists_mem_apply`).
-/
namespace Graft

namespace EditPlan

open Node Survey

variable {v : Survey} {l : Liveness} {tree : Node} {p : EditPlan} {plugin : String} {n : Node}

-- ============================================================ what goes away

/-- Whether nothing is put in place of a node, were it to stand among statements. -/
def goesAway (p : EditPlan) (plugin : String) (n : Node) : Bool :=
  (p.performed plugin n .block).isEmpty

/-- Whether a node stands in nothing that goes away. -/
def Lasts (p : EditPlan) (plugin : String) (tree n : Node) : Prop :=
  ∀ m ∈ tree.parts, n ∈ m.parts → p.goesAway plugin m = false

/-- What is not replaced by nothing is neither a statement nor an entry that the plan takes away. -/
theorem stays_of_goesAway (h : p.goesAway plugin n = false) :
    p.isRemoved n = false ∧ p.isPruned n = false := by
  cases n with
  | node form span children =>
      rw [goesAway, performed_node] at h
      refine ⟨eq_false_of_ne_true fun hgoes => ?_, eq_false_of_ne_true fun hgoes => ?_⟩
      · rw [if_pos hgoes] at h
        cases h
      · rw [hgoes, Bool.true_or, if_pos rfl] at h
        split at h
        · cases h
        · cases h

-- ============================================================ what has no parts

/-- What has no children has none afterwards, unless it is an access or a call. -/
theorem children_of_performed {form above : Form} {span : Span} {x : Node}
    (hx : x ∈ p.performed plugin (.node form span []) above) (hmember : form.isMember = false)
    (hcall : form.isCall = false) : x.children = [] := by
  rw [performed_node, List.map_nil, Form.askAll_nil] at hx
  split at hx
  · split at hx
    · cases hx
    · rw [List.mem_singleton.mp hx]
      rfl
  split at hx
  · cases hx
  cases form with
  | call isOptional isPure => cases hcall
  | member isOptional name => cases hmember
  | variableDeclaration kind =>
      unfold restored at hx
      dsimp only at hx
      split at hx
      · cases hx
      · rw [List.mem_singleton.mp hx]
        rfl
  | _ =>
      rw [List.mem_singleton.mp hx]
      rfl

/-- What stands in place of a part of a leaf has no children either. -/
theorem children_of_part_of_leaf {k m x : Node} {a : Form} (hleaf : k.children = [])
    (hcall : k.form.isCall = false) (hmember : k.form.isMember = false) (hm : m ∈ k.parts)
    (hx : x ∈ p.performed plugin m a) : x.children = [] := by
  cases k with
  | node form span children =>
      obtain rfl : children = [] := hleaf
      rw [parts_node, List.flatMap_nil, List.mem_singleton] at hm
      subst hm
      exact children_of_performed hx hmember hcall

namespace MadeFor

-- ============================================================ what stands in the result

/-- What is put in place of a declarator that goes away with an empty pattern has no parts. -/
theorem children_of_dropped (h : MadeFor v l tree p) {span own : Span} {children properties : List Node}
    {role : PatternRole} {value' k x y m : Node} {a : Form}
    (hd : .node .declarator span children ∈ tree.parts)
    (hparts : Form.declarator.askAll (children.map (p.performed plugin))
      = [.node (.objectPattern role) own properties, value'])
    (hdrops : p.droppable.contains span = true) (hempty : properties.isEmpty = true)
    (hk : k ∈ children) (hy : y ∈ p.performed plugin k .declarator) (hxy : x ∈ y.parts)
    (hm : m ∈ k.parts) (hx : x ∈ p.performed plugin m a) (hmember : m.form.isMember = false) :
    x.children = [] := by
  obtain ⟨pattern, value, hd', -, hstatic⟩ :=
    h.grounded.droppable _ (List.contains_iff_mem.mp hdrops)
  obtain ⟨-, -, rfl⟩ := Node.node.inj
    (h.wellPlaced.eq_of_span_eq hd hd' (isBare_node ..) (isBare_node ..) rfl rfl)
  have hvalue : value ∈ (node .declarator span [pattern, value]).children :=
    List.mem_cons_of_mem _ List.mem_cons_self
  rcases List.mem_cons.mp hk with rfl | hk
  · -- the value becomes one node, so the pattern became the empty one
    obtain ⟨w, hw⟩ := h.exists_performed plugin hd hvalue (h.not_pruned_of_parent hd hvalue rfl)
      (h.not_moved_of_value hd).1 rfl rfl
    have hw : p.performed plugin value .declarator = [w] := hw
    have happend : p.performed plugin k .declarator ++ [w]
        = [.node (.objectPattern role) own properties] ++ [value'] := by
      rw [← hw, List.singleton_append, ← hparts]
      simp [Form.askAll]
    obtain ⟨hpattern, -⟩ := List.append_inj' happend rfl
    rw [hpattern, List.mem_singleton] at hy
    obtain rfl := List.isEmpty_iff.mp hempty
    rw [hy, parts_node, List.flatMap_nil, List.mem_singleton] at hxy
    rw [hxy]
    rfl
  · obtain rfl := List.mem_singleton.mp hk
    have hkw := h.wellPlaced.part (mem_parts_trans (child_mem_parts hvalue) hd)
    rcases form_of_mem_isStaticChain hkw hstatic hm with ⟨name, hname⟩ | ⟨_, _, hform⟩
    · have hmw := hkw.part hm
      cases hmw with
      | @node form _ ks fits =>
        obtain rfl : form = .identifier name := hname
        obtain rfl := fits.word rfl
        exact children_of_performed hx rfl rfl
    · rw [hform] at hmember
      cases hmember

/-- If a declarator goes away with an empty pattern, but is not replaced by nothing, then names move
out of it, and each of them takes a copy of the value along. -/
theorem mem_dividedInto_of_dropped {span own : Span} {children : List Node} {role : PatternRole}
    {value' x : Node} (hparts : Form.declarator.askAll (children.map (p.performed plugin))
      = [.node (.objectPattern role) own [], value'])
    (hdrops : p.droppable.contains span = true)
    (hlasts : p.goesAway plugin (.node .declarator span children) = false) (hx : x ∈ value'.parts) :
    ∃ z ∈ (p.movedFrom (.node .declarator span children)).map fun m =>
        Node.made .declarator [m.2, (value'.access m.1).boundTo plugin], x ∈ z.parts := by
  have hspan : (node .declarator span children).span = span := rfl
  have hplain : Form.declarator ≠ .expressionStatement := nofun
  rw [goesAway, performed_of_plain hplain rfl, hparts] at hlasts
  simp only [restored, dividedInto, hspan, hdrops, List.isEmpty_nil, Bool.and_self, if_true,
    List.nil_append, List.isEmpty_map] at hlasts
  cases hmoved : p.movedFrom (.node .declarator span children) with
  | nil =>
      rw [hmoved] at hlasts
      cases hlasts
  | cons moved _ =>
      refine ⟨_, List.mem_map_of_mem List.mem_cons_self, ?_⟩
      have haccess : x ∈ (value'.access moved.1).parts := mem_parts_of_child List.mem_cons_self hx
      exact mem_parts_of_child (List.mem_cons_of_mem _ List.mem_cons_self)
        (mem_parts_of_child List.mem_cons_self (mem_parts_of_child List.mem_cons_self haccess))

/-- What is put in place of a child stands in what is put in place of the node. -/
theorem mem_restored (h : MadeFor v l tree p) {form above a : Form} {span : Span}
    {children : List Node} {k m x y : Node} (hn : .node form span children ∈ tree.parts)
    (hk : k ∈ children) (hy : y ∈ form.askAll (children.map (p.performed plugin)))
    (hyk : form = .declarator → y ∈ p.performed plugin k .declarator) (hxy : x ∈ y.parts)
    (hm : m ∈ k.parts) (hx : x ∈ p.performed plugin m a)
    (hlasts : m.form.isMember = true → p.Lasts plugin tree m) (hchildren : x.children ≠ []) :
    ∃ z ∈ p.restored plugin form span children above
      (form.askAll (children.map (p.performed plugin))), x ∈ z.parts := by
  have hself : x ∈ (node form span (form.askAll (children.map (p.performed plugin)))).parts :=
    mem_parts_of_child hy hxy
  cases form with
  | call isOptional isPure =>
      unfold restored
      dsimp only
      split
      · exact ⟨_, List.mem_singleton_self _, hself⟩
      cases hlookup : p.substitutions.lookup span with
      | none => exact ⟨_, List.mem_singleton_self _, hself⟩
      | some names =>
          -- nothing in a call that loads a module has parts
          obtain ⟨hleaf, hform⟩ := h.grounded.leaf_of_substituted h.wellPlaced hn hlookup k hk
          refine absurd (children_of_part_of_leaf hleaf ?_ ?_ hm hx) hchildren
          · rcases hform with ⟨_, hform⟩ | ⟨_, hform⟩
            · rw [hform]; rfl
            · rw [hform]; rfl
          · rcases hform with ⟨_, hform⟩ | ⟨_, hform⟩
            · rw [hform]; rfl
            · rw [hform]; rfl
  | member isOptional name =>
      refine ⟨_, List.mem_singleton_self _, ?_⟩
      split
      · exact mem_parts_of_child List.mem_cons_self (mem_parts_of_child List.mem_cons_self hself)
      · exact hself
  | variableDeclaration kind =>
      refine ⟨_, ?_, hself⟩
      unfold restored
      dsimp only
      rw [if_neg]
      · exact List.mem_singleton_self _
      · cases hparts : Form.askAll (.variableDeclaration kind) (children.map (p.performed plugin)) with
        | nil =>
            rw [hparts] at hy
            cases hy
        | cons => simp
  | declarator =>
      show ∃ z ∈ p.dividedInto plugin _ _, x ∈ z.parts
      unfold dividedInto
      split
      case h_2 => exact ⟨_, List.mem_singleton_self _, hself⟩
      case h_1 role own properties value' hparts =>
        by_cases hdrops : (p.droppable.contains span && properties.isEmpty) = true
        · rw [Bool.and_eq_true] at hdrops
          by_cases hmember : m.form.isMember = true
          · obtain rfl := List.isEmpty_iff.mp hdrops.2
            rw [hparts] at hy
            rcases List.mem_cons.mp hy with rfl | hy
            · -- the empty pattern has no parts
              rw [parts_node, List.flatMap_nil, List.mem_singleton] at hxy
              exact absurd (by rw [hxy]; rfl) hchildren
            · obtain ⟨z, hz, hxz⟩ := mem_dividedInto_of_dropped hparts hdrops.1
                (hlasts hmember _ hn (mem_parts_of_child hk hm)) (List.mem_singleton.mp hy ▸ hxy)
              exact ⟨z, List.mem_append_right _ hz, hxz⟩
          · exact absurd (h.children_of_dropped hn hparts hdrops.1 hdrops.2 hk (hyk rfl) hxy hm hx
              (eq_false_of_ne_true hmember)) hchildren
        · refine ⟨_, List.mem_append_left _ ?_, hself⟩
          rw [show (node .declarator span children).span = span from rfl, if_neg hdrops]
          exact List.mem_singleton_self _
  | _ => exact ⟨_, List.mem_singleton_self _, hself⟩

/-- What is put in place of a node that the edit comes to stands in what is put in place of the
tree, if it has parts, and if the node lasts or is no access. -/
theorem mem_parts_performed (h : MadeFor v l tree p) {t m x : Node} {above a : Form}
    (ht : t ∈ tree.parts) (hm : (a, m) ∈ p.reached t above) (hx : x ∈ p.performed plugin m a)
    (hlasts : m.form.isMember = true → p.Lasts plugin tree m) (hchildren : x.children ≠ []) :
    ∃ y ∈ p.performed plugin t above, x ∈ y.parts := by
  induction t generalizing above with
  | node form span children ih =>
      rw [reached_node] at hm
      rcases List.mem_cons.mp hm with heq | hm
      · obtain ⟨rfl, rfl⟩ := Prod.mk.inj heq
        exact ⟨x, hx, self_mem_parts x⟩
      split at hm
      case isTrue => cases hm
      case isFalse hstays =>
        rw [Bool.or_eq_true, not_or] at hstays
        obtain ⟨k, hk, above', habove, hmk, hasked⟩ := Form.exists_of_mem_askAll hm
        have hkt := mem_parts_trans (mem_parts_of_child hk (self_mem_parts k)) ht
        have hmparts : m ∈ k.parts := mem_parts_of_reached hmk
        obtain ⟨y, hy, hxy⟩ := ih k hk hkt hmk
        rw [performed_node, if_neg hstays.1, eq_false_of_ne_true hstays.2, Bool.false_or]
        by_cases hmoved : p.isMoved (node form span children) = true
        · -- nothing in a property that moves out has parts
          obtain ⟨s, hs⟩ := Option.isSome_iff_exists.mp hmoved
          obtain ⟨_, _, _, hmoves⟩ := h.moves ht hs
          obtain ⟨_, key, name, heq, hkey, ⟨text, hname⟩, -⟩ := hmoves.entry.kind
          obtain ⟨rfl, rfl, rfl⟩ := Node.node.inj heq
          have hword : k.form.isWord = true ∧ k.form.isCall = false ∧ k.form.isMember = false := by
            rcases List.mem_cons.mp hk with rfl | hk
            · rw [hkey]; exact ⟨rfl, rfl, rfl⟩
            · rw [List.mem_singleton.mp hk, hname]; exact ⟨rfl, rfl, rfl⟩
          have hleaf : k.children = [] := by
            have hkw := h.wellPlaced.part hkt
            cases hkw with
            | node fits => exact fits.word hword.1
          exact absurd (children_of_part_of_leaf hleaf hword.2.1 hword.2.2 hmparts hx) hchildren
        · rw [if_neg hmoved]
          refine h.mem_restored ht hk (hasked _ hy) (fun hform => ?_) hxy hmparts hx hlasts hchildren
          subst hform
          rcases habove with rfl | ⟨hcase, -⟩
          · exact hy
          · cases hcase

/-- An edit comes to what stands in nothing that goes away. -/
theorem reached_of_outside (hn : n ∈ tree.parts)
    (hout : ∀ m ∈ tree.parts, n ∈ m.parts → p.isRemoved m = false ∧ p.isPruned m = false)
    (above : Form) : ∃ a, (a, n) ∈ p.reached tree above := by
  refine (reached_or_below hn above).resolve_right ?_
  rintro ⟨m, hm, hgoes, k, hk, hnk⟩
  obtain ⟨hstays, hkept⟩ := hout m hm (mem_parts_of_child hk hnk)
  rw [hstays, hkept] at hgoes
  rcases hgoes with hgoes | hgoes
  · cases hgoes
  · cases hgoes

/-- What is put in place of a node that stands in nothing that goes away stands in the result. -/
theorem mem_apply (h : MadeFor v l tree p) {a : Form} {x : Node}
    (hn : (a, n) ∈ p.reached tree .absent) (hx : x ∈ p.performed plugin n a)
    (hmember : n.form.isMember = false) (hchildren : x.children ≠ []) :
    x ∈ (p.apply plugin tree).1.parts := by
  obtain ⟨y, hy, hxy⟩ := h.mem_parts_performed (self_mem_parts tree) hn hx
    (fun hform => by rw [hmember] at hform; cases hform) hchildren
  rw [h.performed_tree, List.mem_singleton] at hy
  exact hy ▸ hxy

/-- What is put in place of a node that lasts stands in the result, if it has parts. -/
theorem exists_mem_apply (h : MadeFor v l tree p) (plugin : String) (hn : n ∈ tree.parts)
    (hlasts : p.Lasts plugin tree n) :
    ∃ a, (a, n) ∈ p.reached tree .absent
      ∧ ∀ x ∈ p.performed plugin n a, x.children ≠ [] → x ∈ (p.apply plugin tree).1.parts := by
  obtain ⟨a, ha⟩ := reached_of_outside hn
    (fun m hm hnm => stays_of_goesAway (hlasts m hm hnm)) .absent
  refine ⟨a, ha, fun x hx hchildren => ?_⟩
  obtain ⟨y, hy, hxy⟩ := h.mem_parts_performed (self_mem_parts tree) ha hx (fun _ => hlasts) hchildren
  rw [h.performed_tree, List.mem_singleton] at hy
  exact hy ▸ hxy

/-- What is put in place of the declarators of a declaration that stands in nothing that goes away
stands in the result, one after the other. -/
theorem declaration_mem_apply (h : MadeFor v l tree p) (plugin : String) {kind : VariableKind}
    {own : Span} {ds : List Node} (hq : .node (.variableDeclaration kind) own ds ∈ tree.parts)
    (hout : ∀ m ∈ tree.parts, .node (.variableDeclaration kind) own ds ∈ m.parts →
      p.isRemoved m = false ∧ p.isPruned m = false)
    (hsome : ds.flatMap (p.performed plugin · (.variableDeclaration kind)) ≠ []) :
    .node (.variableDeclaration kind) own
      (ds.flatMap (p.performed plugin · (.variableDeclaration kind)))
        ∈ (p.apply plugin tree).1.parts := by
  obtain ⟨a, ha⟩ := reached_of_outside hq hout .absent
  refine h.mem_apply ha ?_ rfl hsome
  have hasked : Form.askAll (.variableDeclaration kind) (ds.map (p.performed plugin))
      = ds.flatMap (p.performed plugin · (.variableDeclaration kind)) := List.flatMap_map ..
  have hplain : Form.variableDeclaration kind ≠ .expressionStatement := fun heq => by cases heq
  rw [performed_of_plain hplain rfl, hasked]
  unfold restored
  dsimp only
  rw [if_neg]
  · exact List.mem_singleton_self _
  · rw [Bool.and_eq_true, List.isEmpty_iff]
    exact fun hnone => hsome hnone.2

/-- What is put in place of a declarator that stands in nothing that goes away stands among the
declarators of a declaration of the result. -/
theorem mem_declaration (h : MadeFor v l tree p) (plugin : String) {span : Span} {children : List Node}
    (hd : .node .declarator span children ∈ tree.parts)
    (hout : ∀ m ∈ tree.parts, .node .declarator span children ∈ m.parts →
      p.isRemoved m = false ∧ p.isPruned m = false) :
    ∃ kind, p.performed plugin (.node .declarator span children) (.variableDeclaration kind) ≠ [] →
      ∃ own before after, .node (.variableDeclaration kind) own (before
          ++ p.performed plugin (.node .declarator span children) (.variableDeclaration kind)
          ++ after) ∈ (p.apply plugin tree).1.parts := by
  obtain ⟨a, ha⟩ := reached_of_outside hd hout .absent
  rcases under_of_reached ha with heq | ⟨q, hq, hdq, -⟩
  · obtain ⟨hashbang, hprogram⟩ := h.program
    obtain ⟨-, rfl⟩ := Prod.mk.inj heq
    cases hprogram
  have hform := (h.isDeclaration_iff hq hdq (.inl rfl)).mpr rfl
  cases q with
  | node form own ds =>
  obtain ⟨kind, heq⟩ := Form.exists_of_isDeclaration hform
  obtain rfl : form = .variableDeclaration kind := heq
  refine ⟨kind, fun hsome => ?_⟩
  obtain ⟨ds₁, ds₂, rfl⟩ := List.append_of_mem hdq
  have hmem := h.declaration_mem_apply plugin hq
    (fun m hm hqm => hout m hm (mem_parts_trans (child_mem_parts hdq) hqm)) fun hnone =>
      hsome (List.flatMap_eq_nil_iff.mp hnone _ hdq)
  rw [List.flatMap_append, List.flatMap_cons, ← List.append_assoc] at hmem
  exact ⟨own, _, _, hmem⟩

end MadeFor

end EditPlan

end Graft
