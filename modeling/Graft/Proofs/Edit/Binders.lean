import Graft.Proofs.Edit.Divides
import Graft.Proofs.Round.Ends
import Graft.Proofs.Tree.Outline
/-!
Accesses that are bound to the plugin.

# Where an access is bound

An access is bound where it is read, never where something is assigned to it, and not at the end of
an optional chain (`planEdits_binds_values`). The walk of the planner is told whether a node stands
as a value, and it binds only there.

# Bound once

- What stands in a call that binds an access is not bound: the planner has met the call before it
  comes to the access (`EditPlan.not_isBound_of_binds`).
- Whatever an edit binds stands in such a call afterwards (`EditPlan.MadeFor.performed_bound`), and
  so does what stood in one before (`EditPlan.MadeFor.performed_binder`).

Both together are `planEdits_binds_once`. The next round reads a program with the same calls, so it
leaves them alone (`planEdits_leaves_bound`).

All this needs `bind` itself to be no method that has to be bound: the access through which another
one is bound is one like any other.
-/
namespace Graft

namespace Node

/-- Whether a call binds an access to the plugin. -/
def Binds (plugin : String) (call target : Node) : Prop :=
  ∃ isOptional isPure span callee arguments,
    call = .node (.call isOptional isPure) span (callee :: arguments)
      ∧ bindsAccess plugin callee arguments = true ∧ callee.children = [target]

variable {plugin : String} {call target n t : Node}

/-- What a call that binds an access is made of. -/
theorem Binds.cases (h : call.Binds plugin target) :
    ∃ isOptional isPure span through own this text,
      call = .node (.call isOptional isPure) span
        [.node (.member through "bind") own [target], this, text]
      ∧ this.form = .nullValue ∧ text.stringText? = some plugin ∧ target.form.isMember = true := by
  obtain ⟨isOptional, isPure, span, callee, arguments, rfl, hbinds, hcallee⟩ := h
  unfold bindsAccess at hbinds
  split at hbinds
  case h_2 => cases hbinds
  case h_1 through name own object this text =>
    obtain rfl : object = target := (List.cons.inj hcallee).1
    simp only [Bool.and_eq_true, beq_iff_eq] at hbinds
    obtain ⟨⟨⟨rfl, hthis⟩, htext⟩, htarget⟩ := hbinds
    exact ⟨isOptional, isPure, span, through, own, this, text, rfl, hthis, htext, htarget⟩

/-- A call of `bind` with nothing and the name of the plugin binds the access it is asked of. -/
theorem binds_of {isOptional isPure through : Bool} {span own : Span} {this text : Node}
    (hthis : this.form = .nullValue) (htext : text.stringText? = some plugin)
    (htarget : target.form.isMember = true) :
    Binds plugin (.node (.call isOptional isPure) span
      [.node (.member through "bind") own [target], this, text]) target :=
  ⟨isOptional, isPure, span, _, _, rfl, by simp [bindsAccess, hthis, htext, htarget], rfl⟩

/-- What is made to bind an access does. -/
theorem binds_boundTo (plugin : String) (h : n.form.isMember = true) :
    (n.boundTo plugin).Binds plugin n :=
  binds_of rfl (by simp [stringText?, made, Node.form, StringUnit.plainText_ofText]) h

/-- A call that is alike but for its place binds an access that is alike. -/
theorem Binds.alike (h : call.Binds plugin target) {other : Node} (hother : call.Alike other) :
    ∃ target', other.Binds plugin target' ∧ target.Alike target' := by
  obtain ⟨isOptional, isPure, span, through, own, this, text, rfl, hthis, htext, htarget⟩ := h.cases
  rw [Alike, unplaced_node] at hother
  obtain ⟨_, ks, rfl, hks⟩ := exists_of_unplaced hother.symm
  obtain ⟨callee', ks, rfl, hcallee, hks⟩ := List.map_eq_cons_iff.mp hks
  obtain ⟨this', ks, rfl, hthis', hks⟩ := List.map_eq_cons_iff.mp hks
  obtain ⟨text', rfl, htext'⟩ := exists_of_map_unplaced hks
  rw [unplaced_node] at hcallee
  obtain ⟨_, targets, rfl, htargets⟩ := exists_of_unplaced hcallee
  obtain ⟨target', rfl, htarget'⟩ := exists_of_map_unplaced htargets
  refine ⟨target', binds_of ?_ ?_ ?_, htarget'.symm⟩
  · rw [← form_unplaced, hthis', form_unplaced, hthis]
  · rw [← stringText?_unplaced, htext', stringText?_unplaced, htext]
  · rw [← form_unplaced, htarget', form_unplaced, htarget]

/-- Every part of a tree stands there somehow. -/
theorem exists_standing (plugin : String) (h : n ∈ t.parts) (s : Standing) :
    ∃ s', ∀ a ∈ n.accesses plugin s', a ∈ t.accesses plugin s := by
  induction t generalizing s with
  | node form span children ih =>
      rcases mem_parts_node.mp h with rfl | ⟨k, hk, hnk⟩
      · exact ⟨s, fun a ha => ha⟩
      cases children with
      | nil => cases hk
      | cons first others =>
          rcases List.mem_cons.mp hk with rfl | hother
          · obtain ⟨s', hs'⟩ := ih k hk hnk (form.headStanding plugin (k :: others) s)
            exact ⟨s', fun a ha => accesses_head (hs' a ha)⟩
          · obtain ⟨s', hs'⟩ := ih k hk hnk form.tailStanding
            exact ⟨s', fun a ha => accesses_tail hother (hs' a ha)⟩

end Node

namespace EditPlan

open Node Survey

/-- Whether an access stands in a call that binds it after an edit. -/
def StandsBound (p : EditPlan) (plugin : String) (tree n : Node) : Prop :=
  ∃ call ∈ (p.apply plugin tree).1.parts, ∃ target, call.Binds plugin target
    ∧ target.form = n.form ∧ target.span = n.span

/-- What an edit does to the accesses that are bound to the plugin. -/
structure BindsOnce (p : EditPlan) (plugin : String) (tree : Node) : Prop where
  /-- In a call that binds an access, nothing else is bound. -/
  spares : ∀ {call target}, call ∈ tree.parts → call.Binds plugin target →
    p.isBound target = false ∧ ∀ k ∈ call.children, p.isBound k = false
  /-- An access that is bound already stays bound. -/
  keeps : ∀ {call target}, call ∈ tree.parts → call.Binds plugin target →
    p.Lasts plugin tree call → p.StandsBound plugin tree target
  /-- An access that the plan binds is bound. -/
  binds : ∀ {n}, n ∈ tree.parts → p.isBound n = true → p.Lasts plugin tree n →
    p.StandsBound plugin tree n
  /-- A method that a name stands for is bound when the name moves out of its pattern. -/
  moves : ∀ {span pattern value m}, .node .declarator span [pattern, value] ∈ tree.parts →
    m ∈ p.movedFrom (.node .declarator span [pattern, value]) →
    p.Lasts plugin tree (.node .declarator span [pattern, value]) →
    ∃ call ∈ (p.apply plugin tree).1.parts, ∃ target, call.Binds plugin target
      ∧ target.form = .member false m.1
      ∧ Node.made .declarator [m.2, call] ∈ (p.apply plugin tree).1.parts

variable {v : Survey} {l : Liveness} {p : EditPlan} {plugin : String} {host : HostNamespace}
  {tree call target n : Node}

-- ============================================================ what is left alone

/-- In a call that binds an access, nothing else is bound. -/
theorem not_isBound_of_binds (hp : p.BindsLoose host plugin tree) (hw : tree.WellPlaced)
    (hcall : call ∈ tree.parts) (hbinds : call.Binds plugin target) :
    p.isBound target = false ∧ ∀ k ∈ call.children, p.isBound k = false := by
  obtain ⟨s, hs⟩ := exists_standing plugin hcall .value
  obtain ⟨isOptional, isPure, span, through, own, this, text, rfl, hthis, htext, htarget⟩ :=
    hbinds.cases
  obtain ⟨isOptional', name, hform⟩ := exists_form_of_isMember htarget
  obtain ⟨form, place, ks⟩ := target
  obtain rfl : form = .member isOptional' name := hform
  have hbinder : Form.headStanding plugin (.call isOptional isPure)
      [.node (.member through "bind") own [.node (.member isOptional' name) place ks], this, text] s
        = .binder :=
    if_pos (by simp [bindsAccess, hthis, htext, htarget])
  have hcallee : ∀ a ∈ (node (.member through "bind") own
      [.node (.member isOptional' name) place ks]).accesses plugin .binder,
        a ∈ tree.accesses plugin .value := fun a ha => hs a (accesses_head (hbinder.symm ▸ ha))
  -- neither the access nor the one through which it is bound stands where it could be bound
  have hunbound : ∀ a : Access, a ∈ tree.accesses plugin .value → a.standing ≠ .value →
      p.boundMembers.contains a.span = false := by
    intro a ha hne
    refine eq_false_of_ne_true fun hmem => ?_
    have hloose := hp.isLoose hw ha hmem
    rw [Access.isLoose, Bool.and_eq_true, beq_iff_eq] at hloose
    exact hne hloose.1
  constructor
  · have hmem := hunbound ⟨place, name, .bound⟩
      (hcallee _ (accesses_head (access_mem List.mem_cons_self))) (by simp)
    exact (congrArg _ hmem).trans (Bool.and_false _)
  · intro k hk
    simp only [Node.children, List.mem_cons, List.not_mem_nil, or_false] at hk
    rcases hk with rfl | rfl | rfl
    · have hmem := hunbound ⟨own, "bind", .binder⟩ (hcallee _ (access_mem List.mem_cons_self))
        (by simp)
      exact (congrArg _ hmem).trans (Bool.and_false _)
    · rw [isBound, hthis]
      rfl
    · unfold stringText? at htext
      split at htext
      case h_1 hform => rw [isBound, hform]; rfl
      case h_2 => cases htext

-- ============================================================ what stands bound

/-- An access that is not bound stays one to the same name. -/
theorem performed_member {isOptional : Bool} {name : String} {span : Span} {ks : List Node}
    (h : p.isBound (.node (.member isOptional name) span ks) = false) (above : Form) :
    p.performed plugin (.node (.member isOptional name) span ks) above
      = [.node (.member isOptional name) span
          (ks.flatMap (p.performed plugin · (.member isOptional name)))] := by
  have hplain : Form.member isOptional name ≠ .expressionStatement := by simp
  have hspan : p.boundMembers.contains span = false := h
  rw [performed_of_plain hplain rfl]
  simp only [restored, hspan, Bool.false_eq_true, if_false, Form.askAll, List.flatMap_map]

/-- `null` and strings stay what they are. -/
theorem exists_form_performed (p : EditPlan) (plugin : String) (above : Form)
    (h : n.form = .nullValue ∨ n.form.isString = true) :
    ∃ n', p.performed plugin n above = [n'] ∧ n'.form = n.form := by
  obtain ⟨form, span, ks⟩ := n
  rcases h with rfl | h
  · have hplain : Form.nullValue ≠ .expressionStatement := by simp
    exact ⟨_, performed_of_plain hplain rfl, rfl⟩
  · obtain ⟨units, rfl⟩ := Form.exists_of_isString h
    have hplain : Form.string units ≠ .expressionStatement := by simp
    exact ⟨_, performed_of_plain hplain rfl, rfl⟩

namespace MadeFor

/-- A call that binds an access does so afterwards. -/
theorem performed_binder (h : MadeFor v l tree p) (hp : p.BindsLoose host plugin tree)
    (hcall : call ∈ tree.parts) (hbinds : call.Binds plugin target) (above : Form) :
    ∃ call' target', p.performed plugin call above = [call'] ∧ call'.Binds plugin target'
      ∧ target'.form = target.form ∧ target'.span = target.span := by
  obtain ⟨htargetUnbound, hunbound⟩ := not_isBound_of_binds hp h.wellPlaced hcall hbinds
  obtain ⟨isOptional, isPure, span, through, own, this, text, rfl, hthis, htext, htarget⟩ :=
    hbinds.cases
  obtain ⟨isOptional', name, hform⟩ := exists_form_of_isMember htarget
  obtain ⟨form, place, ks⟩ := target
  obtain rfl : form = .member isOptional' name := hform
  have hstring : text.form.isString = true := by
    unfold stringText? at htext
    split at htext
    case h_1 hform => rw [hform]; rfl
    case h_2 => cases htext
  obtain ⟨this', hthis', hnull⟩ := exists_form_performed p plugin (.call isOptional isPure)
    (.inl hthis)
  obtain ⟨text', htext', hsame⟩ := exists_form_performed p plugin (.call isOptional isPure)
    (.inr hstring)
  -- the callee of a call that loads a module is a name, and this one is an access
  have hlookup : p.substitutions.lookup span = none := by
    refine Option.eq_none_iff_forall_ne_some.mpr fun names hlookup => ?_
    obtain ⟨-, ⟨_, hname⟩ | ⟨_, hname⟩⟩ := h.grounded.leaf_of_substituted h.wellPlaced hcall hlookup _
      List.mem_cons_self
    · cases hname
    · cases hname
  have hplain : Form.call isOptional isPure ≠ .expressionStatement := by simp
  have hparts : Form.askAll (.call isOptional isPure) ([.node (.member through "bind") own
        [.node (.member isOptional' name) place ks], this, text].map (p.performed plugin))
      = [.node (.member through "bind") own [.node (.member isOptional' name) place
          (ks.flatMap (p.performed plugin · (.member isOptional' name)))], this', text'] := by
    simp only [Form.askAll, List.map_cons, List.map_nil, List.flatMap_cons, List.flatMap_nil, hthis',
      htext', performed_member (hunbound _ List.mem_cons_self), performed_member htargetUnbound]
    rfl
  have hperformed : p.performed plugin (.node (.call isOptional isPure) span
      [.node (.member through "bind") own [.node (.member isOptional' name) place ks], this, text])
        above = _ := performed_of_plain hplain rfl
  rw [hparts] at hperformed
  simp only [restored, hlookup, Option.bind_none, Option.getD_none, ite_self] at hperformed
  refine ⟨_, _, hperformed, binds_of (hnull.trans hthis) ?_ rfl, rfl, rfl⟩
  rw [stringText?, hsame]
  exact htext

/-- An access that the plan binds stands in a call that binds it. -/
theorem performed_bound (plugin : String) (hbound : p.isBound n = true) (above : Form) :
    ∃ target : Node, p.performed plugin n above = [target.boundTo plugin]
      ∧ target.form = n.form ∧ target.span = n.span := by
  obtain ⟨form, span, ks⟩ := n
  rw [isBound, Bool.and_eq_true] at hbound
  obtain ⟨hmember, hmem⟩ := hbound
  obtain ⟨isOptional, name, rfl⟩ := exists_form_of_isMember hmember
  have hplain : Form.member isOptional name ≠ .expressionStatement := by simp
  have hspan : p.boundMembers.contains span = true := hmem
  have hperformed : p.performed plugin (.node (.member isOptional name) span ks) above = _ :=
    performed_of_plain hplain rfl
  simp only [restored, hspan, if_true] at hperformed
  exact ⟨_, hperformed, rfl, rfl⟩

/-- A plan that binds nothing but what is loose binds every access once. -/
theorem bindsOnce (h : MadeFor v l tree p) (hp : p.BindsLoose host plugin tree) :
    p.BindsOnce plugin tree where
  spares hcall hbinds := not_isBound_of_binds hp h.wellPlaced hcall hbinds
  keeps hcall hbinds hlasts := by
    obtain ⟨a, -, hstands⟩ := h.exists_mem_apply plugin hcall hlasts
    obtain ⟨call', target', hperformed, hbinds', hform, hspan⟩ := h.performed_binder hp hcall hbinds a
    refine ⟨call', hstands _ (hperformed ▸ List.mem_singleton_self _) ?_, target', hbinds', hform,
      hspan⟩
    obtain ⟨_, _, _, _, _, _, _, rfl, -⟩ := hbinds'.cases
    exact List.cons_ne_nil _ _
  binds hn hbound hlasts := by
    obtain ⟨a, -, hstands⟩ := h.exists_mem_apply plugin hn hlasts
    obtain ⟨target, hperformed, hform, hspan⟩ := performed_bound plugin hbound a
    refine ⟨_, hstands (target.boundTo plugin) (hperformed ▸ List.mem_singleton_self _)
      (List.cons_ne_nil _ _), target, binds_boundTo plugin ?_, hform, hspan⟩
    rw [isBound, Bool.and_eq_true] at hbound
    rw [hform]
    exact hbound.1
  moves {span pattern value m} hd hm hlasts := by
    obtain ⟨a, -, hstands⟩ := h.exists_mem_apply plugin hd hlasts
    obtain ⟨pattern', hpattern⟩ : ∃ x, p.performed plugin pattern .declarator = [x] := by
      obtain ⟨property, hproperty, -⟩ := List.mem_filterMap.mp hm
      obtain ⟨_, role, own, ks, _, heq, -⟩ := of_mem_patternEntries hproperty
      obtain ⟨-, -, hsame⟩ := Node.node.inj heq
      rw [(List.cons.inj hsame).1]
      exact ⟨_, performed_objectPattern role own ks _⟩
    obtain ⟨front, value', hperformed, -⟩ := h.performed_declarator plugin hd hpattern a
    have hmade := hstands (Node.made .declarator
      [m.2, ((p.remake plugin true value).result.access m.1).boundTo plugin])
      (hperformed ▸ List.mem_append_right _ (List.mem_map_of_mem hm)) (List.cons_ne_nil _ _)
    exact ⟨_, mem_parts_trans (child_mem_parts (List.mem_cons_of_mem _ List.mem_cons_self)) hmade, _,
      binds_boundTo plugin rfl, rfl, hmade⟩

end MadeFor

end EditPlan

open Node EditPlan

/-- What a plan binds is read where it stands: it is not in a place or at the end of an optional
chain, and it is no target of an assignment, an update, a pattern or a loop. -/
theorem planEdits_binds_values {config : TransformConfig} {plugin source : String} {p : Program}
    (hp : Program.parse? source = some p) {q n : Node} (hq : q ∈ p.tree.parts)
    (hn : n ∈ q.children) (hbound : (planEdits config plugin p.tree).1.isBound n = true) :
    q.form.holdsValues = true ∧ n ∉ q.form.targets q.children :=
  have h := planEdits_madeFor config plugin (Program.wellPlaced_of_parse? hp)
    (Program.form_of_parse? hp)
  ⟨h.holdsValues_of_isBound hq hn hbound, h.not_mem_targets_of_isBound hq hbound⟩

/-- What is deleted is a value like any other. -/
example : (Program.parse? "delete BdApi.saveData;").any (fun p =>
    (planEdits .standard "p" p.tree).1.boundMembers == [⟨7, 21⟩]) = true := by
  decide +kernel

/-- If `bind` need not be bound itself, an edit binds no access twice: what is bound already is left
alone, and everything that the edit binds stands bound in the result. -/
theorem planEdits_binds_once {config : TransformConfig} {plugin source : String} {p : Program}
    (hbind : "bind" ∉ config.host.bindableMethods) (hp : Program.parse? source = some p) :
    (planEdits config plugin p.tree).1.BindsOnce plugin p.tree := by
  have hbindable : config.host.isBindable "bind" = false := by
    simpa [HostNamespace.isBindable] using hbind
  exact (planEdits_madeFor config plugin (Program.wellPlaced_of_parse? hp)
    (Program.form_of_parse? hp)).bindsOnce (planEdits_loose config plugin p.tree hbindable)

/-- What stands bound in a program is left alone by every later round that reads it. -/
theorem planEdits_leaves_bound {config : TransformConfig} {plugin source : String} {q : Program}
    {tree call target : Node} (hbind : "bind" ∉ config.host.bindableMethods)
    (hq : Program.parse? source = some q) (halike : tree.Alike q.tree) (hcall : call ∈ tree.parts)
    (hbinds : call.Binds plugin target) :
    ∃ call' ∈ q.tree.parts, ∃ target', call.Alike call' ∧ call'.Binds plugin target'
      ∧ (planEdits config plugin q.tree).1.isBound target' = false
      ∧ ∀ k ∈ call'.children, (planEdits config plugin q.tree).1.isBound k = false := by
  obtain ⟨call', hcall', hsame⟩ := halike.exists_part hcall
  obtain ⟨target', hbinds', -⟩ := hbinds.alike hsame
  exact ⟨call', hcall', target', hsame, hbinds', (planEdits_binds_once hbind hq).spares hcall' hbinds'⟩

/-- The access that an edit makes to bind another one would be bound in its turn, if `bind` were a
method to be bound. -/
example : (Program.parse? "BdApi.after.bind(null, \"p\");").any (fun p =>
    (planEdits { TransformConfig.standard with
      host := { TransformConfig.standard.host with bindableMethods := ["after", "bind"] } } "p"
        p.tree).1.boundMembers == [⟨0, 16⟩]) = true := by
  decide +kernel

end Graft
