import Graft.Proofs.Edit.Single
import Graft.Proofs.Edit.Tally
import Graft.Proofs.Edit.Twins
import Graft.Proofs.Plan.Renamed
/-!
Editing for plugins of different names.

An edit writes the name of the plugin where it binds something, and nowhere else. So renamed
programs are renamed after an edit, if the two plans name the same nodes of them
(`EditPlan.MadeAlike.renamed_apply`), and as much was done to the one as to the other
(`EditPlan.MadeAlike.stats_apply`).

# The simulation

The nodes of the two programs go in pairs, and the plans say the same of both nodes of a pair. So
what stands in place of the one is renamed to what stands in place of the other, by induction on the
pair (`EditPlan.MadeAlike.renamed_performed`). Two cases need more than the hypothesis for the
children:

- What is bound to the plugins now is renamed by the edit itself (`Node.Renamed.boundTo`).
- What was bound before is still bound. What a call of `bind` is asked of is rebuilt to one node,
  which is a `bind` again (`EditPlan.MadeFor.isBind_performed`), and the call around it, with `null`
  and a string as its arguments, is put together as it was (`EditPlan.MadeFor.performed_pair`).
-/
namespace Graft

open Node Survey

-- ============================================================ what an edit writes

namespace Node

variable {a b : String} {m n : Node}

/-- What is bound to the two plugins is renamed. -/
theorem Renamed.boundTo (h : Renamed a b m n) : Renamed a b (m.boundTo a) (n.boundTo b) :=
  .bound .access (node_of_no_text rfl (.cons h .nil))

theorem Renamed.access (h : Renamed a b m n) (name : String) :
    Renamed a b (m.access name) (n.access name) :=
  node_of_no_text rfl (.cons h .nil)

/-- A chain of names is renamed to itself. -/
theorem Renamed.self_of_ofChain? {names : List String} {chain : Node}
    (h : ofChain? names = some chain) : Renamed a b chain chain := by
  cases names with
  | nil => cases h
  | cons first names =>
      obtain rfl := Option.some.inj h
      clear h
      have hfirst : Renamed a b (made (.identifier first) []) (made (.identifier first) []) :=
        node_of_no_text rfl .nil
      generalize made (.identifier first) [] = chain at hfirst
      induction names generalizing chain with
      | nil => exact hfirst
      | cons name names ih => exact ih _ (hfirst.access name)

end Node

/-- What is asked of children that go together goes together. -/
theorem Form.forall₂_askAll {α β : Type} {R : α → β → Prop} (form : Form)
    {fs : List (Form → List α)} {gs : List (Form → List β)}
    (h : List.Forall₂ (fun f g => ∀ above, List.Forall₂ R (f above) (g above)) fs gs) :
    List.Forall₂ R (form.askAll fs) (form.askAll gs) := by
  have hall : ∀ {fs : List (Form → List α)} {gs : List (Form → List β)},
      List.Forall₂ (fun f g => ∀ above, List.Forall₂ R (f above) (g above)) fs gs →
      List.Forall₂ R (fs.flatMap (· form)) (gs.flatMap (· form)) := fun h =>
    List.rel_flatMap h fun _ _ hfg => hfg form
  cases form with
  | case =>
      cases h with
      | nil => exact .nil
      | cons htest hstatements => exact List.rel_append (htest .switch) (hall hstatements)
  | _ => exact hall h

namespace EditPlan

variable {v w : Survey} {l l' : Liveness} {a b : String} {t u m n : Node} {p q : EditPlan}

-- ============================================================ what was bound before

/-- A call with two arguments does not become a chain of names. -/
theorem MadeFor.lookup_pair (h : MadeFor v l t p) {isOptional isPure : Bool} {span : Span}
    {callee this name : Node}
    (hn : node (.call isOptional isPure) span [callee, this, name] ∈ t.parts) :
    p.substitutions.lookup span = none := by
  refine Option.eq_none_iff_forall_ne_some.mpr fun chain hlookup => ?_
  obtain ⟨_, _, callee', arguments, hcall, hloads⟩ :=
    h.grounded.substitutions _ (mem_of_lookup hlookup)
  have hsame := h.wellPlaced.eq_of_span_eq hn hcall (isBare_node ..) (isBare_node ..) rfl rfl
  obtain ⟨-, -, hkids⟩ := Node.node.inj hsame
  obtain ⟨-, rfl⟩ := List.cons.inj hkids
  rw [substitutionFor?_pair] at hloads
  cases hloads

/-- One node stands in place of what an access is to. -/
theorem MadeFor.performed_object (h : MadeFor v l t p) {isOptional : Bool} {name : String}
    {span : Span} {object : Node} (plugin : String)
    (hn : node (.member isOptional name) span [object] ∈ t.parts) :
    ∃ k, p.performed plugin object (.member isOptional name) = [k] := by
  have hobject : object ∈ (node (.member isOptional name) span [object]).children :=
    List.mem_cons_self
  exact h.exists_performed plugin hn hobject (h.not_pruned_of_parent hn hobject rfl)
    (h.not_moved_of_parent hn hobject nofun) rfl rfl

/-- A node without children that the plan says nothing about. -/
theorem performed_leaf (form : Form) (hform : form = .nullValue ∨ form.isString = true)
    (span : Span) (plugin : String) (above : Form) :
    p.performed plugin (node form span []) above = [node form span []] := by
  have hnull : Form.nullValue ≠ .expressionStatement := nofun
  have hstring : ∀ units, Form.string units ≠ .expressionStatement := nofun
  rcases hform with rfl | hform
  · rw [performed_of_plain hnull rfl]
    rfl
  · obtain ⟨units, rfl⟩ := Form.exists_of_isString hform
    rw [performed_of_plain (hstring units) rfl]
    rfl

/-- A call with two arguments that are words is put together again. -/
theorem MadeFor.performed_pair {plugin text : String} (h : MadeFor v l t p)
    {isOptional isPure : Bool} {span own other : Span} {callee k : Node}
    (hn : node (.call isOptional isPure) span [callee, .node .nullValue own [],
      .node (.string (StringUnit.ofText text)) other []] ∈ t.parts)
    (hcallee : p.performed plugin callee (.call isOptional isPure) = [k]) (above : Form) :
    p.performed plugin (node (.call isOptional isPure) span [callee, .node .nullValue own [],
      .node (.string (StringUnit.ofText text)) other []]) above
        = [node (.call isOptional isPure) span [k, .node .nullValue own [],
            .node (.string (StringUnit.ofText text)) other []]] := by
  have hplain : Form.call isOptional isPure ≠ .expressionStatement := nofun
  have hnull := performed_leaf (p := p) .nullValue (.inl rfl) own plugin (.call isOptional isPure)
  have hname := performed_leaf (p := p) (.string (StringUnit.ofText text)) (.inr rfl) other plugin
    (.call isOptional isPure)
  rw [performed_of_plain hplain rfl]
  simp only [restored, h.lookup_pair hn, Form.askAll, List.map_cons, List.map_nil,
    List.flatMap_cons, List.flatMap_nil, hcallee, hnull, hname, Option.bind_none,
    Option.getD_none, ite_self]
  rfl

/-- A `bind` stays one. -/
theorem MadeFor.isBind_performed {plugin : String} (h : MadeFor v l t p) (hm : m ∈ t.parts)
    (hbind : m.IsBind plugin) (above : Form) :
    ∃ k, p.performed plugin m above = [k] ∧ k.IsBind plugin := by
  induction hbind generalizing above with
  | @access isOptional span target =>
      obtain ⟨k, hk⟩ := h.performed_object plugin hm
      have hplain : Form.member isOptional "bind" ≠ .expressionStatement := nofun
      rw [performed_of_plain hplain rfl]
      simp only [restored, Form.askAll, List.map_cons, List.map_nil, List.flatMap_cons,
        List.flatMap_nil, List.append_nil, hk]
      refine ⟨_, rfl, ?_⟩
      split
      · exact .bound .access
      · exact .access
  | @bound isOptional isPure span own other callee hcallee ih =>
      obtain ⟨k, hk, hkbind⟩ :=
        ih (mem_parts_trans (child_mem_parts List.mem_cons_self) hm) (.call isOptional isPure)
      exact ⟨_, h.performed_pair hm hk above, .bound hkbind⟩

-- ============================================================ renamed programs

/-- Only an entry of a pattern moves. -/
theorem movedOut?_eq_none (h : n.form.isPatternProperty = false) : p.movedOut? n = none := by
  unfold movedOut?
  split
  case h_1 => cases h
  case h_2 => rfl

namespace MadeAlike

variable (h : MadeAlike v w l l' mute t u p q)
include h

/-- The patterns of two declarators side by side have their entries side by side. -/
theorem forall₂_patternEntries (hmn : Beside t u m n) (hrenamed : Renamed a b m n) :
    List.Forall₂ (Beside t u) (patternEntries m) (patternEntries n) := by
  cases hrenamed with
  | @node form span span' ks js _ _ hlength hkids =>
      have hchildren : List.Forall₂ (Beside t u) ks js := hmn.children h.alike
      cases form with
      | declarator =>
          rcases Renamed.forall₂ hlength hkids with _ | ⟨hpattern, _ | ⟨_, _ | _⟩⟩
          · exact .nil
          · simp [patternEntries]
          · cases hpattern with
            | @node form =>
                cases form with
                | objectPattern role =>
                    exact (List.forall₂_cons.mp hchildren).1.children h.alike
                | _ => exact .nil
            | bound => exact .nil
          · simp [patternEntries]
      | _ => exact .nil
  | bound => exact .nil

/-- Two properties side by side move out of their patterns for the same method, or stay. -/
theorem rel_movedOut? (hmn : Beside t u m n) (hrenamed : Renamed a b m n) :
    Option.Rel (fun x y => x.1 = y.1 ∧ Renamed a b x.2 y.2) (p.movedOut? m) (q.movedOut? n) := by
  have hmethod := h.map_method_split? hmn
  cases hrenamed with
  | @node form span span' ks js _ _ hlength hkids =>
      cases form with
      | patternProperty isComputed isShorthand =>
          rcases Renamed.forall₂ hlength hkids with _ | ⟨_, _ | ⟨hvalue, _ | _⟩⟩
          · exact .none
          · exact .none
          · unfold movedOut?
            dsimp only
            cases hm : p.split? _ with
            | none =>
                rw [hm] at hmethod
                rw [Option.map_eq_none_iff.mp hmethod]
                exact .none
            | some s =>
                rw [hm] at hmethod
                obtain ⟨s', hn, hs⟩ := Option.map_eq_some_iff.mp hmethod
                rw [hn]
                exact .some ⟨hs.symm, hvalue⟩
          · exact .none
      | _ => exact .none
  | bound => exact .none

variable (hrenamed : Renamed a b t u)
include hrenamed

/-- What moves out of two declarators side by side. -/
theorem forall₂_movedFrom (hmn : Beside t u m n) (hself : Renamed a b m n) :
    List.Forall₂ (fun x y => x.1 = y.1 ∧ Renamed a b x.2 y.2) (p.movedFrom m) (q.movedFrom n) := by
  refine List.rel_filterMap (fun k j hkj => ?_) (h.forall₂_patternEntries hmn hself)
  cases hk : k.form.isPatternProperty with
  | false =>
      rw [movedOut?_eq_none hk, movedOut?_eq_none ((h.kind_eq hkj _ fun _ => rfl).trans hk)]
      exact .none
  | true =>
      refine h.rel_movedOut? hkj (hrenamed.of_beside hkj ?_)
      cases hform : k.form <;> rw [hform] at hk <;> first | rfl | cases hk

/-- What stands in place of two declarators side by side is renamed. -/
theorem renamed_dividedInto (hmn : Beside t u m n) (hself : Renamed a b m n)
    (hform : m.form.isDeclarator = true) {ks js : List Node}
    (hparts : List.Forall₂ (Renamed a b) ks js) :
    List.Forall₂ (Renamed a b) (p.dividedInto a m ks) (q.dividedInto b n js) := by
  have hstays : List.Forall₂ (Renamed a b) [node .declarator m.span ks]
      [node .declarator n.span js] :=
    .cons (.node_of_no_text rfl hparts) .nil
  rcases hparts with _ | ⟨hpattern, _ | ⟨hvalue, _ | _⟩⟩
  · exact hstays
  · simpa [dividedInto] using hstays
  · cases hpattern with
    | @node form own own' properties properties' _ _ hlength hkids =>
        cases form with
        | objectPattern role =>
            have hempty : properties'.isEmpty = properties.isEmpty :=
              isEmpty_eq (Renamed.forall₂ hlength hkids)
            unfold dividedInto
            dsimp only
            rw [h.contains_droppable hmn hform, hempty]
            refine List.rel_append ?_ (List.rel_map (fun x y hxy => ?_)
              (h.forall₂_movedFrom hrenamed hmn hself))
            · split
              · exact .nil
              · exact hstays
            · rw [hxy.1]
              exact .node_of_no_text rfl (.cons hxy.2 (.cons (hvalue.access _).boundTo .nil))
        | _ => exact hstays
    | bound => exact hstays
  · simpa [dividedInto] using hstays

/-- What stands in place of two nodes side by side that neither go away nor move out is renamed, if
what stands in place of their children is. -/
theorem renamed_restored {form above : Form} {span span' : Span} {ks js parts parts' : List Node}
    (hmn : Beside t u (node form span ks) (node form span' js))
    (hself : Renamed a b (node form span ks) (node form span' js))
    (hfresh : (node form span ks).stringText? ≠ some a ∧ (node form span ks).stringText? ≠ some b)
    (hparts : List.Forall₂ (Renamed a b) parts parts') :
    List.Forall₂ (Renamed a b) (p.restored a form span ks above parts)
      (q.restored b form span' js above parts') := by
  -- a node that stays is renamed with its parts, as it holds neither name itself
  have hnode : Renamed a b (node form span parts) (node form span' parts') :=
    Renamed.node_of_forall₂ hfresh.1 hfresh.2 hparts
  have hstays : List.Forall₂ (Renamed a b) [node form span parts] [node form span' parts'] :=
    .cons hnode .nil
  -- only three forms are rewritten in their place
  cases form with
  | call isOptional isPure =>
      have hlookup : q.substitutions.lookup span' = p.substitutions.lookup span :=
        h.lookup_eq hmn rfl
      unfold restored
      dsimp only
      rw [hlookup]
      split
      · exact hstays
      · cases hchain : (p.substitutions.lookup span).bind ofChain? with
        | none => exact hstays
        | some chain =>
            -- a chain of names holds no string, so it is its own renaming
            obtain ⟨names, -, hnames⟩ := Option.bind_eq_some_iff.mp hchain
            exact .cons (Renamed.self_of_ofChain? hnames) .nil
  | member isOptional name =>
      have hbound : q.boundMembers.contains span' = p.boundMembers.contains span :=
        h.contains_boundMembers hmn rfl
      unfold restored
      dsimp only
      rw [hbound]
      split
      · -- here the names enter: each side is bound with its own, and `boundTo` renames the one to
        -- the other
        exact .cons hnode.boundTo .nil
      · exact hstays
  | variableDeclaration kind =>
      unfold restored
      dsimp only
      rw [isEmpty_eq hparts]
      split
      · exact .nil
      · exact hstays
  | declarator => exact h.renamed_dividedInto hrenamed hmn hself rfl hparts
  | _ => exact hstays

/-- What stands in place of two nodes side by side is renamed. -/
theorem renamed_performed (hmn : Beside t u m n) (hself : Renamed a b m n) (above : Form) :
    List.Forall₂ (Renamed a b) (p.performed a m above) (q.performed b n above) := by
  induction hself generalizing above with
  | @node form span span' ks js left right hlength hkids ih =>
      have hchildren : List.Forall₂ (Beside t u) ks js := hmn.children h.alike
      have hparts : List.Forall₂ (Renamed a b) (form.askAll (ks.map (p.performed a)))
          (form.askAll (js.map (q.performed b))) := by
        refine form.forall₂_askAll ?_
        rw [List.forall₂_map_left_iff, List.forall₂_map_right_iff]
        exact List.forall₂_iff_zip.mpr ⟨hlength, fun hkj above =>
          ih _ hkj ((List.forall₂_iff_zip.mp hchildren).2 hkj) above⟩
      rw [performed_node, performed_node, h.isRemoved_eq hmn, h.isPruned_eq hmn, h.isMoved_eq hmn]
      split
      · split
        · exact .nil
        · exact .cons (Renamed.node_of_no_text rfl .nil) .nil
      · split
        · exact .nil
        · exact h.renamed_restored hrenamed hmn (.node left right hlength hkids) ⟨left, right⟩
            hparts
  | @bound isOptional isPure span own other span' own' other' callee callee' hbind hcallee ih =>
      have hbeside : Beside t u callee callee' := (List.forall₂_cons.mp (hmn.children h.alike)).1
      -- what is asked to bind is one node, and asked to bind again
      obtain ⟨k, hk, hkbind⟩ :=
        h.left.isBind_performed hbeside.left_mem hbind (.call isOptional isPure)
      obtain ⟨j, hj, -⟩ := h.right.isBind_performed hbeside.right_mem (hcallee.isBind hbind)
        (.call isOptional isPure)
      have hkj := ih hbeside (.call isOptional isPure)
      rw [hk, hj] at hkj
      rw [h.left.performed_pair hmn.left_mem hk, h.right.performed_pair hmn.right_mem hj]
      exact .cons (.bound hkbind (List.forall₂_cons.mp hkj).1) .nil

/-- Renamed programs are renamed after an edit. -/
theorem renamed_apply : Renamed a b (p.apply a t).1 (q.apply b u).1 := by
  have hperformed := h.renamed_performed hrenamed (.self t u) hrenamed .switch
  rw [h.left.performed_tree, h.right.performed_tree] at hperformed
  exact (List.forall₂_cons.mp hperformed).1

-- ============================================================ what is counted

omit hrenamed in
/-- Edits come to nodes side by side, which stand under the same. -/
theorem forall₂_reached (hmn : Beside t u m n) (hself : Renamed a b m n) (above : Form) :
    List.Forall₂ (fun x y => x.1 = y.1 ∧ Beside t u x.2 y.2) (p.reached m above)
      (q.reached n above) := by
  induction hself generalizing above with
  | @node form span span' ks js _ _ hlength _ ih =>
      have hchildren : List.Forall₂ (Beside t u) ks js := hmn.children h.alike
      rw [reached_node, reached_node, h.isRemoved_eq hmn, h.isPruned_eq hmn]
      refine .cons ⟨rfl, hmn⟩ ?_
      split
      · exact .nil
      · refine form.forall₂_askAll ?_
        rw [List.forall₂_map_left_iff, List.forall₂_map_right_iff]
        exact List.forall₂_iff_zip.mpr ⟨hlength, fun hkj above =>
          ih _ hkj ((List.forall₂_iff_zip.mp hchildren).2 hkj) above⟩
  | @bound isOptional isPure span own other span' own' other' callee callee' _ _ ih =>
      obtain _ | ⟨hcallee, _ | ⟨hnull, _ | ⟨hname, _⟩⟩⟩ := hmn.children h.alike
      have hleaf : ∀ {k j : Node} {above : Form}, Beside t u k j → k.children = [] →
          j.children = [] → List.Forall₂ (fun x y => x.1 = y.1 ∧ Beside t u x.2 y.2)
            (p.reached k above) (q.reached j above) := by
        rintro ⟨_, _, _⟩ ⟨_, _, _⟩ above hkj rfl rfl
        rw [reached_node, reached_node, h.isRemoved_eq hkj, h.isPruned_eq hkj]
        refine .cons ⟨rfl, hkj⟩ ?_
        rw [List.map_nil, List.map_nil, Form.askAll_nil, Form.askAll_nil, ite_self]
        exact .nil
      rw [reached_node, reached_node, h.isRemoved_eq hmn, h.isPruned_eq hmn]
      refine .cons ⟨rfl, hmn⟩ ?_
      split
      · exact .nil
      · refine Form.forall₂_askAll _ ?_
        exact .cons (fun above => ih hcallee above) (.cons (fun above => hleaf hnull rfl rfl)
          (.cons (fun above => hleaf hname rfl rfl) .nil))

/-- As much is counted at two nodes side by side. -/
theorem own_eq {x y : Form × Node} (hxy : x.1 = y.1 ∧ Beside t u x.2 y.2) :
    q.own y = p.own x := by
  obtain ⟨above, m⟩ := x
  obtain ⟨_, n⟩ := y
  obtain ⟨rfl, hmn⟩ := hxy
  dsimp only at hmn
  have hreplaced : q.isReplaced above n = p.isReplaced above m := by
    rw [isReplaced, isReplaced, h.kind_eq hmn Form.isCall fun _ => rfl]
    cases hm : m.form.isCall with
    | false => rfl
    | true => rw [h.lookup_eq hmn hm]
  have hbound : q.isBound n = p.isBound m := by
    rw [isBound, isBound, h.kind_eq hmn Form.isMember fun _ => rfl]
    cases hm : m.form.isMember with
    | false => rfl
    | true => rw [h.contains_boundMembers hmn hm]
  have hmoved : (q.movedFrom n).length = (p.movedFrom m).length := by
    cases hm : m.form.isDeclarator with
    | false =>
        have hn := (h.kind_eq hmn Form.isDeclarator fun _ => rfl).trans hm
        have hnone : ∀ {k : Node}, k.form.isDeclarator = false → k.form ≠ .declarator := by
          intro k hk heq
          rw [heq] at hk
          cases hk
        rw [movedFrom_eq_nil (hnone hn), movedFrom_eq_nil (hnone hm)]
    | true =>
        have hself := hrenamed.of_beside hmn (by
          cases hform : m.form <;> rw [hform] at hm <;> first | rfl | cases hm)
        exact (h.forall₂_movedFrom hrenamed hmn hself).length_eq.symm
  rw [own, own, h.isRemoved_eq hmn, h.isPruned_eq hmn, hreplaced, hbound, hmoved]

/-- As much is done to renamed programs. -/
theorem stats_apply : (q.apply b u).2 = (p.apply a t).2 := by
  have hreached := h.forall₂_reached (.self t u) hrenamed .switch
  rw [h.left.stats_tree .switch, h.right.stats_tree .switch]
  generalize p.reached t .switch = xs at hreached
  generalize q.reached u .switch = ys at hreached
  induction hreached with
  | nil => rfl
  | cons hxy _ ih => rw [tally_cons, tally_cons, h.own_eq hrenamed hxy, ih]

end MadeAlike

/-- Plans that name the same nodes are as large. -/
theorem Twins.isEmpty_eq (h : p.Twins t u q) : q.isEmpty = p.isEmpty := by
  have hsize : q.size = p.size := by
    rw [size, size, h.statements.length_eq, h.patterns.length_eq, h.substitutions.length_eq,
      h.members.length_eq, h.flatMap_splits.length_eq]
  rw [isEmpty, isEmpty, hsize]

end EditPlan

/-- As much is planned for renamed programs, as much is done to them, and they are renamed after
it. -/
theorem planEdits_renamed {a b : String} {t u : Node} (ht : t.WellPlaced) (hu : u.WellPlaced)
    (ht' : ∃ line, t.form = .program line) (hu' : ∃ line, u.form = .program line)
    (config : TransformConfig) (h : Renamed a b t u) :
    (planEdits config b u).1.isEmpty = (planEdits config a t).1.isEmpty
      ∧ Renamed a b ((planEdits config a t).1.apply a t).1 ((planEdits config b u).1.apply b u).1
      ∧ ((planEdits config b u).1.apply b u).2 = ((planEdits config a t).1.apply a t).2 := by
  have htwins := planEdits_twins (lockstep_of_renamed ht hu h config)
  have hmade : EditPlan.MadeAlike _ _ _ _ mute t u (planEdits config a t).1
      (planEdits config b u).1 :=
    ⟨planEdits_madeFor config a ht ht', planEdits_madeFor config b hu hu', h.alikeBy, htwins⟩
  exact ⟨htwins.isEmpty_eq, hmade.renamed_apply h, hmade.stats_apply h⟩

end Graft
