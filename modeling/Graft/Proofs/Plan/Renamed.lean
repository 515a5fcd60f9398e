import Graft.Proofs.Plan.Lockstep
import Graft.Proofs.Tree.Renamed
/-!
Planning for plugins of different names.

The planner looks at the text of a string in two places: the one argument of a call that loads a
module, and the last argument of a call of `bind`. In renamed programs the first one is the same,
and the second one says the name of the plugin in both programs or in none of them. So the planner
goes through renamed programs in lockstep (`Survey.lockstep_of_renamed`).
-/
namespace Graft

namespace Node

variable {a b : String} {t u m n : Node}

/-- Nodes side by side in renamed programs are renamed, unless they are strings. -/
theorem Renamed.of_beside (h : Renamed a b t u) (hmn : Beside t u m n)
    (hm : m.form.isString = false) : Renamed a b m n := by
  induction h with
  | @node form span span' ks js left right hlength hchildren ih =>
      have halike : List.Forall₂ (AlikeBy mute) ks js :=
        (forall₂ hlength hchildren).imp fun _ _ h => h.alikeBy
      rcases (Beside.node_iff halike).mp hmn with ⟨rfl, rfl⟩ | ⟨k, j, hkj, hmn⟩
      · exact .node left right hlength hchildren
      · exact ih (k, j) hkj hmn
  | @bound isOptional isPure span own other span' own' other' callee callee' hbind hcallee ih =>
      have hself := @Renamed.bound a b isOptional isPure span own other span' own' other' _ _ hbind
        hcallee
      rcases (Beside.node_iff hself.alikeBy.forall₂_children).mp hmn with
        ⟨rfl, rfl⟩ | ⟨k, j, hkj, hmn⟩
      · exact hself
      · rcases hkj with _ | ⟨_, _ | ⟨_, _ | ⟨_, hkj⟩⟩⟩
        · exact ih hmn
        · obtain ⟨rfl, rfl⟩ := hmn.of_leaves
          exact .node nofun nofun rfl nofun
        · obtain ⟨rfl, -⟩ := hmn.of_leaves
          cases hm
        · cases hkj

end Node

namespace Survey

open Node

variable {v w : Survey} {a b : String} {t u : Node}

/-- A call with two arguments loads nothing. -/
theorem substitutionFor?_pair (v : Survey) (callee this name : Node) :
    v.substitutionFor? callee [this, name] = none := by
  unfold substitutionFor?
  split
  case h_1 heq => cases heq
  case h_2 => rfl

section

variable (halike : t.AlikeBy mute u) (h : Match v w mute (SamePlace mute t u))
  (hplace : ∀ {m n}, Beside t u m n → SamePlace mute t u m n)
include halike h hplace

/-- Renamed calls load the same module, if they load one. -/
theorem substitutionFor?_renamed {isOptional isPure : Bool} {span span' : Span}
    {callee callee' : Node} {arguments arguments' : List Node}
    (hmn : Beside t u (.node (.call isOptional isPure) span (callee :: arguments))
      (.node (.call isOptional isPure) span' (callee' :: arguments')))
    (hrenamed : Renamed a b (.node (.call isOptional isPure) span (callee :: arguments))
      (.node (.call isOptional isPure) span' (callee' :: arguments'))) :
    w.substitutionFor? callee' arguments' = v.substitutionFor? callee arguments := by
  have hcallee : Beside t u callee callee' := (List.forall₂_cons.mp (hmn.children halike)).1
  cases hrenamed with
  | node _ _ hlength hchildren =>
      obtain _ | ⟨-, harguments⟩ := Renamed.forall₂ hlength hchildren
      obtain ⟨form, own, ks⟩ := callee
      obtain ⟨own', js, rfl, -⟩ | ⟨_, _, _, _, rfl, rfl⟩ := h.exists_node (hplace hcallee)
      case inr => rfl
      cases form with
      | identifier name =>
          rcases harguments with _ | ⟨hargument, _ | ⟨_, _⟩⟩
          · rfl
          · have hglobal := h.isGlobal (hplace hcallee) rfl
            simp only [Node.span] at hglobal
            simp only [substitutionFor?, Node.form, Node.span, hglobal, hargument.stringText?_eq,
              h.config]
            rfl
          · rfl
      | _ => rfl
  | bound _ _ =>
      rw [substitutionFor?_pair, substitutionFor?_pair]

/-- Renamed calls bind accesses side by side to their plugins, if they bind any. -/
theorem boundTarget?_renamed (ha : v.plugin = a) (hb : w.plugin = b) {isOptional isPure : Bool}
    {span span' : Span} {callee callee' : Node} {arguments arguments' : List Node}
    (hmn : Beside t u (.node (.call isOptional isPure) span (callee :: arguments))
      (.node (.call isOptional isPure) span' (callee' :: arguments')))
    (hrenamed : Renamed a b (.node (.call isOptional isPure) span (callee :: arguments))
      (.node (.call isOptional isPure) span' (callee' :: arguments'))) :
    Option.Rel (SpansOf t u Form.isMember) (v.boundTarget? callee arguments)
      (w.boundTarget? callee' arguments') := by
  have hcallee : Beside t u callee callee' := (List.forall₂_cons.mp (hmn.children halike)).1
  cases hrenamed with
  | node _ _ hlength hchildren =>
      obtain _ | ⟨-, harguments⟩ := Renamed.forall₂ hlength hchildren
      obtain ⟨form, own, ks⟩ := callee
      obtain ⟨own', js, rfl, htargets⟩ | ⟨_, _, _, _, rfl, rfl⟩ := h.exists_node (hplace hcallee)
      case inr => exact .none
      cases form with
      | member isOptional name =>
          rcases htargets with _ | ⟨_, _ | ⟨_, _⟩⟩
          · exact .none
          · rcases harguments with _ | ⟨_, _ | ⟨hname, _ | ⟨_, _⟩⟩⟩
            · exact .none
            · exact .none
            · -- no other call has the name as an argument
              obtain ⟨hleft, hright⟩ := hname.stringText?_ne
              rw [boundTarget?_member, boundTarget?_member, hname.stringText?_eq, ha, hb,
                beq_eq_false_iff_ne.mpr hleft, beq_eq_false_iff_ne.mpr hright]
              simp
            · exact .none
          · exact .none
      | _ => exact .none
  | bound hbind hrenamed =>
      cases hbind with
      | access =>
          obtain ⟨own', js, rfl, -⟩ | ⟨_, _, _, _, heq, -⟩ := h.exists_node (hplace hcallee)
          case inr => cases heq
          cases hrenamed with
          | node _ _ hlength hchildren =>
              obtain _ | ⟨htarget, _ | _⟩ := Renamed.forall₂ hlength hchildren
              rw [boundTarget?_member, boundTarget?_member, stringText?_ofText, stringText?_ofText,
                ha, hb, htarget.form_eq]
              have htargets := (List.forall₂_cons.mp (hcallee.children halike)).1
              have hnull : ∀ span, (node .nullValue span []).form = .nullValue := fun _ => rfl
              simp only [hnull, beq_self_eq_true, Bool.true_and]
              split
              case isTrue hmember => exact .some ⟨_, _, htargets, hmember, rfl, rfl⟩
              case isFalse => exact .none
      | bound _ =>
          obtain ⟨own', js, rfl, -⟩ | ⟨_, _, _, _, heq, -⟩ := h.exists_node (hplace hcallee)
          case inr => cases heq
          exact .none

end

/-- The planner goes through renamed programs in lockstep. -/
theorem lockstep_of_renamed (ht : t.WellPlaced) (hu : u.WellPlaced) (h : Renamed a b t u)
    (config : TransformConfig) :
    Lockstep (onProgram config a t) (onProgram config b u) mute t u := by
  have hanswers := match_of_alikeBy ht.keyed hu.keyed h.alikeBy config a b
  have hplace : ∀ {m n}, Beside t u m n → SamePlace mute t u m n := fun hmn =>
    ⟨hmn.left_mem, hmn.right_mem,
      hmn.relabel_eq h.alikeBy (relabel_label_eq ht.keyed hu.keyed h.alikeBy)⟩
  exact
    { left := ht
      right := hu
      alike := h.alikeBy
      answers := hanswers
      place := hplace
      counts := fun k => (useCount_eq ht.keyed hu.keyed h.alikeBy k).symm
      loads := fun hmn =>
        substitutionFor?_renamed h.alikeBy hanswers hplace hmn (h.of_beside hmn rfl)
      binds := fun hmn =>
        boundTarget?_renamed h.alikeBy hanswers hplace rfl rfl hmn (h.of_beside hmn rfl) }

end Survey

end Graft
