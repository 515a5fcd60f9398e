import Graft.Proofs.Edit.Weight
/-!
What binding takes away.

To bind an access makes a program no lighter, and it adds an access, the one to `bind`. But it
leaves one access less that could be bound: what stands in a call of `bind` with the name of the
plugin is not bound again. So the accesses that may still have to be bound are the second part of
what is left to do in a program, after its weight.

# Accesses, each with how it stands

Whether an access is bound depends on where it stands (`Standing`): where its value is asked for,
where it is assigned to, as the `bind` of a call that binds an access, or as the access that such a
call binds. `Node.accesses` lists the accesses of a tree, each with how it stands, and those that
may have to be bound are loose (`Access.isLoose`). The list follows the recursion of the tree: the
first child may stand in its own way, all others stand alike (`Node.accesses_cons`).

# What is shown

- Every access that a plan binds is loose (`planEdits_loose`), as far as `bind` is no method that
  has to be bound itself. The walk of the planner carries with it what it knows to be bound already,
  and that is all that the listing leaves out (`Survey.Knows`).
- The span of an access says which access it is (`Node.WellPlaced.access_eq`), so to bind by spans
  binds what was meant.
- An access that is bound is not loose any more, nor is the `bind` around it
  (`EditPlan.loose_boundTo`).

`EditPlan.loose_remake` puts these together: edits that do nothing but bind leave one loose access
less for each that they bind.
-/
namespace Graft

/-- How a value stands. -/
inductive Standing where
  /-- Where its value is asked for. -/
  | value
  /-- Where it is assigned to, or at the end of an optional chain. -/
  | aside
  /-- Before the arguments of a call that binds an access to the plugin. -/
  | binder
  /-- As the access that such a call binds. -/
  | bound
deriving DecidableEq

/-- Whether the edits take what stands so for a value. -/
def Standing.isValue : Standing → Bool
  | .aside => false
  | _ => true

/-- An access to a method or a field. -/
structure Access where
  span : Span
  name : String
  standing : Standing

/-- Whether an access may have to be bound. -/
def Access.isLoose (host : HostNamespace) (a : Access) : Bool :=
  a.standing == .value && host.isBindable a.name

/-- Whether a form is an access by name. -/
def Form.isMember : Form → Bool
  | .member .. => true
  | _ => false

/-- Whether a call is `target.bind(null, "plugin")` for an access `target`. -/
def Node.bindsAccess (plugin : String) (callee : Node) (arguments : List Node) : Bool :=
  match callee, arguments with
  | .node (.member _ name) _ [target], [this, text] =>
      name == "bind" && this.form == .nullValue && text.stringText? == some plugin
        && target.form.isMember
  | _, _ => false

namespace Form

/-- How the children of a form stand, but for the first one. -/
def tailStanding (form : Form) : Standing := if form.holdsValues then .value else .aside

/-- How the first child of a node stands. -/
def headStanding (plugin : String) (form : Form) (children : List Node) (s : Standing) : Standing :=
  match form, children with
  | .call .., callee :: arguments =>
      if Node.bindsAccess plugin callee arguments then .binder else .value
  | .member .., _ => if s = .binder then .bound else .value
  | _, _ => form.tailStanding

/-- The access that a node is, if it is one. -/
def access (form : Form) (span : Span) (s : Standing) : List Access :=
  match form with
  | .member _ name => [⟨span, name, s⟩]
  | _ => []

theorem isValue_tailStanding (form : Form) : form.tailStanding.isValue = form.holdsValues := by
  unfold tailStanding
  cases form.holdsValues <;> rfl

/-- The first child stands as a value where the form holds values. -/
theorem isValue_headStanding (plugin : String) (form : Form) (children : List Node) (s : Standing) :
    (form.headStanding plugin children s).isValue = form.holdsValues := by
  unfold headStanding
  split
  · split <;> rfl
  · split <;> rfl
  · exact form.isValue_tailStanding

end Form

namespace Node

variable {plugin : String} {host : HostNamespace}

/-- The accesses of a tree that stands somewhere, every node before its children. -/
def accesses (plugin : String) : Node → Standing → List Access :=
  fold fun form span children s => form.access span s ++
    match children with
    | [] => []
    | c :: cs => c.2 (form.headStanding plugin (children.map Prod.fst) s)
        ++ cs.flatMap (·.2 form.tailStanding)

/-- The number of accesses in a tree that may have to be bound. -/
def loose (host : HostNamespace) (plugin : String) (n : Node) (s : Standing) : Nat :=
  (n.accesses plugin s).countP (·.isLoose host)

/-- The number of accesses in some nodes that may have to be bound. -/
def looseAll (host : HostNamespace) (plugin : String) (ns : List Node) (s : Standing) : Nat :=
  (ns.map fun n => n.loose host plugin s).sum

@[simp] theorem looseAll_nil (s : Standing) : looseAll host plugin [] s = 0 := rfl

@[simp] theorem looseAll_cons (n : Node) (ns : List Node) (s : Standing) :
    looseAll host plugin (n :: ns) s = n.loose host plugin s + looseAll host plugin ns s := rfl

@[simp] theorem looseAll_append (ms ns : List Node) (s : Standing) :
    looseAll host plugin (ms ++ ns) s
      = looseAll host plugin ms s + looseAll host plugin ns s := by
  simp [looseAll]

theorem accesses_nil (form : Form) (span : Span) (s : Standing) :
    (node form span []).accesses plugin s = form.access span s := by
  rw [accesses, fold_node]
  simp

/-- The accesses of a node, its own before those of its first child and of the others. -/
theorem accesses_cons (form : Form) (span : Span) (k : Node) (ks : List Node) (s : Standing) :
    (node form span (k :: ks)).accesses plugin s = form.access span s
      ++ (k.accesses plugin (form.headStanding plugin (k :: ks) s)
        ++ ks.flatMap fun k => k.accesses plugin form.tailStanding) := by
  rw [accesses, fold_node]
  simp [List.flatMap_map, Function.comp_def]

theorem loose_nil (form : Form) (span : Span) (s : Standing) :
    (node form span []).loose host plugin s
      = (form.access span s).countP (·.isLoose host) := by
  rw [loose, accesses_nil]

/-- The loose accesses of a node are counted as its accesses are listed. -/
theorem loose_cons (form : Form) (span : Span) (k : Node) (ks : List Node) (s : Standing) :
    (node form span (k :: ks)).loose host plugin s
      = (form.access span s).countP (·.isLoose host)
        + (k.loose host plugin (form.headStanding plugin (k :: ks) s)
          + looseAll host plugin ks form.tailStanding) := by
  rw [loose, accesses_cons, List.countP_append, List.countP_append, List.countP_flatMap]
  rfl

/-- The accesses of the children are accesses of the node. -/
theorem accesses_head {form : Form} {span : Span} {k : Node} {ks : List Node} {s : Standing}
    {a : Access} (h : a ∈ k.accesses plugin (form.headStanding plugin (k :: ks) s)) :
    a ∈ (node form span (k :: ks)).accesses plugin s := by
  rw [accesses_cons]
  exact List.mem_append_right _ (List.mem_append_left _ h)

/-- An access in a child after the first is one of the node. -/
theorem accesses_tail {form : Form} {span : Span} {k k' : Node} {ks : List Node} {s : Standing}
    {a : Access} (hk : k' ∈ ks) (h : a ∈ k'.accesses plugin form.tailStanding) :
    a ∈ (node form span (k :: ks)).accesses plugin s := by
  rw [accesses_cons]
  exact List.mem_append_right _ (List.mem_append_right _ (List.mem_flatMap.mpr ⟨k', hk, h⟩))

/-- Where the first child stands as the others do, an access in any child is one of the node. -/
theorem accesses_child {form : Form} {span : Span} {k : Node} {children : List Node}
    {s : Standing} {a : Access} (hhead : form.headStanding plugin children s = form.tailStanding)
    (hk : k ∈ children) (h : a ∈ k.accesses plugin form.tailStanding) :
    a ∈ (node form span children).accesses plugin s := by
  cases children with
  | nil => cases hk
  | cons k' ks =>
      rcases List.mem_cons.mp hk with rfl | hk
      · exact accesses_head (hhead ▸ h)
      · exact accesses_tail hk h

/-- The access that a node is comes with its accesses. -/
theorem access_mem {form : Form} {span : Span} {children : List Node} {s : Standing} {a : Access}
    (h : a ∈ form.access span s) : a ∈ (node form span children).accesses plugin s := by
  cases children with
  | nil =>
      rw [accesses_nil]
      exact h
  | cons k ks =>
      rw [accesses_cons]
      exact List.mem_append_left _ h

/-- If the first child stands like the others, nothing is said about it alone. -/
theorem loose_node {form : Form} {span : Span} {children : List Node} {s : Standing}
    (h : form.headStanding plugin children s = form.tailStanding) :
    (node form span children).loose host plugin s
      = (form.access span s).countP (·.isLoose host)
        + looseAll host plugin children form.tailStanding := by
  cases children with
  | nil => exact loose_nil form span s
  | cons k ks =>
      rw [loose_cons, h]
      rfl

-- ============================================================ trees without places

/-- Whether a call binds an access does not depend on offsets. -/
theorem bindsAccess_unplaced (callee : Node) (arguments : List Node) :
    bindsAccess plugin callee.unplaced (arguments.map unplaced)
      = bindsAccess plugin callee arguments := by
  cases callee with
  | node form span children =>
      rw [unplaced_node]
      cases form with
      | member isOptional name =>
          match children, arguments with
          | [target], [this, text] => simp [bindsAccess]
          | [], _ | _ :: _ :: _, _ | [_], [] | [_], [_] | [_], _ :: _ :: _ :: _ => rfl
      | _ => rfl

/-- How the first child stands does not depend on offsets. -/
theorem headStanding_unplaced (form : Form) (children : List Node) (s : Standing) :
    form.headStanding plugin (children.map unplaced) s = form.headStanding plugin children s := by
  cases form with
  | call isOptional isPure =>
      cases children with
      | nil => rfl
      | cons callee arguments => simp [Form.headStanding, bindsAccess_unplaced]
  | _ => rfl

/-- How many accesses are loose does not depend on offsets. -/
theorem loose_unplaced (n : Node) :
    ∀ s, n.unplaced.loose host plugin s = n.loose host plugin s := by
  induction n with
  | node form span children ih =>
      intro s
      have hself : (form.access .none s).countP (·.isLoose host)
          = (form.access span s).countP (·.isLoose host) := by
        cases form <;> rfl
      rw [unplaced_node]
      cases children with
      | nil =>
          rw [List.map_nil, loose_nil, loose_nil]
          exact hself
      | cons k ks =>
          have hks : ∀ s, looseAll host plugin (ks.map unplaced) s
              = looseAll host plugin ks s := by
            intro s
            rw [looseAll, looseAll, List.map_map]
            exact congrArg List.sum
              (List.map_congr_left fun k hk => ih k (List.mem_cons_of_mem _ hk) s)
          have hhead : form.headStanding plugin ((k :: ks).map unplaced) s
              = form.headStanding plugin (k :: ks) s := headStanding_unplaced form (k :: ks) s
          rw [List.map_cons] at hhead ⊢
          rw [loose_cons, loose_cons, hself, hhead, ih k List.mem_cons_self, hks]

-- ============================================================ spans of accesses

/-- The accesses of a tree are its nodes of that form, in their order. -/
theorem accesses_spans (n : Node) :
    ∀ s, (n.accesses plugin s).map Access.span
      = (n.parts.filter fun m => m.form.isMember).map Node.span := by
  induction n with
  | node form span children ih =>
      intro s
      have hself : (form.access span s).map Access.span
          = ([node form span children].filter fun m => m.form.isMember).map Node.span := by
        cases form <;> rfl
      rw [parts_node, ← List.singleton_append, List.filter_append, List.map_append, ← hself,
        List.filter_flatMap, List.map_flatMap]
      cases children with
      | nil => simp [accesses_nil]
      | cons k ks =>
          rw [accesses_cons, List.map_append, List.map_append, ih k List.mem_cons_self,
            List.map_flatMap, List.flatMap_cons]
          congr 2
          simp only [List.flatMap]
          congr 1
          exact List.map_congr_left fun k' hk' => ih k' (List.mem_cons_of_mem _ hk') form.tailStanding

/-- The span of an access says which access it is. -/
theorem WellPlaced.access_eq {t : Node} (ht : t.WellPlaced) {s : Standing} {a b : Access}
    (ha : a ∈ t.accesses plugin s) (hb : b ∈ t.accesses plugin s) (h : a.span = b.span) :
    a = b := by
  have hpairwise : ((t.accesses plugin s).map Access.span).Pairwise (· ≠ ·) := by
    rw [accesses_spans]
    refine List.pairwise_map.mpr (@WellPlaced.pairwise_span_ne _ _ 1 ht ?_ ?_)
    · intro n hn
      cases n with
      | node form span children => cases form <;> first | exact isBare_node .. | cases hn
    · intro n hn
      unfold Form.isMember at hn
      split at hn
      case h_1 hform => rw [hform]; rfl
      case h_2 => cases hn
  refine Classical.byContradiction fun hne => ?_
  rcases pairwise_of_ne (List.pairwise_map.mp hpairwise) ha hb hne with hab | hba
  · exact hab h
  · exact hba h.symm

end Node

-- ============================================================ what a plan binds

namespace Survey

open Node

variable {v : Survey}

/-- What the planner has in mind when it comes to a node that stands somewhere: it knows the
access that is bound already. -/
def Knows (d : Decisions) (n : Node) : Standing → Prop
  | .value | .aside => True
  | .binder => ∃ isOptional span target, n = .node (.member isOptional "bind") span [target]
      ∧ d.alreadyBound.contains target.span = true
  | .bound => d.alreadyBound.contains n.span = true

/-- The planner takes the access that a call binds for one that is bound already. -/
theorem knows_callee (d : Decisions) (callee : Node) (arguments : List Node) :
    Knows (d.remember (v.boundTarget? callee arguments)) callee
      (if bindsAccess v.plugin callee arguments then .binder else .value) := by
  split
  case isFalse => trivial
  case isTrue h =>
    unfold bindsAccess at h
    split at h
    case h_2 => cases h
    case h_1 isOptional name span target this text =>
      simp only [Bool.and_eq_true, beq_iff_eq] at h
      obtain ⟨⟨⟨rfl, hthis⟩, htext⟩, htarget⟩ := h
      refine ⟨isOptional, span, target, rfl, ?_⟩
      have hform : ∃ isOptional name, target.form = .member isOptional name := by
        unfold Form.isMember at htarget
        split at htarget
        case h_1 hform => exact ⟨_, _, hform⟩
        case h_2 => cases htarget
      obtain ⟨o, field, hform⟩ := hform
      simp [boundTarget?, hthis, htext, hform, Decisions.remember]

/-- What the first walk does to the accesses of a node that stands somewhere. -/
def BindsLoose (v : Survey) (n : Node) (s : Standing) (d d' : Decisions) : Prop :=
  ∀ span ∈ d'.plan.boundMembers, span ∈ d.plan.boundMembers
    ∨ ∃ a ∈ n.accesses v.plugin s, a.span = span ∧ a.isLoose v.config.host = true

/-- The visits of children that stand like each other. -/
theorem visitAll_loose {ks : List Node} {s : Standing}
    (h : ∀ k ∈ ks, ∀ d, BindsLoose v k s d (k.fold v.visit s.isValue d)) (d : Decisions) :
    ∀ span ∈ (visitAll (ks.map fun k => (k, k.fold v.visit)) s.isValue d).plan.boundMembers,
      span ∈ d.plan.boundMembers
        ∨ ∃ k ∈ ks, ∃ a ∈ k.accesses v.plugin s,
            a.span = span ∧ a.isLoose v.config.host = true := by
  unfold visitAll
  induction ks generalizing d with
  | nil => exact fun span hspan => .inl hspan
  | cons k ks ih =>
      intro span hspan
      rcases ih (fun k' hk' => h k' (List.mem_cons_of_mem _ hk')) _ span hspan with
        hspan | ⟨k', hk', a, ha⟩
      · rcases h k List.mem_cons_self d span hspan with hspan | ⟨a, ha⟩
        · exact .inl hspan
        · exact .inr ⟨k, List.mem_cons_self, a, ha⟩
      · exact .inr ⟨k', List.mem_cons_of_mem _ hk', a, ha⟩

/-- The visits of the children of a node that stands somewhere. -/
theorem visitChildren_loose {form : Form} {span : Span} {children : List Node} {s : Standing}
    (h : ∀ k ∈ children, ∀ s d, Knows d k s → BindsLoose v k s d (k.fold v.visit s.isValue d))
    (d d' : Decisions) (hplan : d'.plan = d.plan)
    (hhead : ∀ k ∈ children.head?, Knows d' k (form.headStanding v.plugin children s)) :
    BindsLoose v (.node form span children) s d
      (visitAll (children.map fun k => (k, k.fold v.visit)) form.holdsValues d') := by
  cases children with
  | nil => exact fun span hspan => .inl (hplan ▸ hspan)
  | cons k ks =>
      intro sp hsp
      have htail : ∀ k ∈ ks, ∀ d, BindsLoose v k form.tailStanding d
          (k.fold v.visit form.tailStanding.isValue d) := by
        intro k hk d
        refine h k (List.mem_cons_of_mem _ hk) _ d ?_
        unfold Form.tailStanding
        split <;> trivial
      have hvisit : visitAll ((k :: ks).map fun k => (k, k.fold v.visit)) form.holdsValues d'
          = visitAll (ks.map fun k => (k, k.fold v.visit)) form.tailStanding.isValue
              (k.fold v.visit (form.headStanding v.plugin (k :: ks) s).isValue d') := by
        rw [form.isValue_tailStanding, form.isValue_headStanding]
        rfl
      rw [hvisit] at hsp
      rcases visitAll_loose htail _ sp hsp with hsp | ⟨k', hk', a, ha, hloose⟩
      · rcases h k List.mem_cons_self _ d' (hhead k rfl) sp hsp with hsp | ⟨a, ha, hloose⟩
        · exact .inl (hplan ▸ hsp)
        · exact .inr ⟨a, accesses_head ha, hloose⟩
      · exact .inr ⟨a, accesses_tail hk' ha, hloose⟩

/-- The first walk binds loose accesses only, if `bind` itself need not be bound. -/
theorem visit_loose (hbind : v.config.host.isBindable "bind" = false) (n : Node) :
    ∀ s d, Knows d n s → BindsLoose v n s d (n.fold v.visit s.isValue d) := by
  induction n with
  | node form span children ih =>
      intro s d hknows
      rw [fold_node]
      rcases visit_cases v form span (children.map fun k => (k, k.fold v.visit)) s.isValue d with
        ⟨c, -, -, -, heq⟩ | ⟨o, p, callee, arguments, chain, -, -, -, heq⟩
          | ⟨o, p, callee, arguments, rfl, hc, -, heq⟩
          | ⟨o, name, c, rfl, hc, hvalue, hname, hnew, -, heq⟩ | ⟨hcall, heq⟩
      · rw [heq]
        exact fun span hspan => .inl hspan
      · rw [heq]
        exact fun span hspan => .inl hspan
      · obtain ⟨callee, arguments, rfl, rfl, rfl⟩ := List.map_eq_cons_iff.mp hc
        rw [heq]
        have hmap : (arguments.map fun k => (k, k.fold v.visit)).map Prod.fst = arguments := by
          simp [Function.comp_def]
        refine visitChildren_loose ih d _ (d.remember_plan _) fun k hk => ?_
        obtain rfl : callee = k := by simpa using hk
        rw [hmap]
        exact knows_callee d callee arguments
      · obtain ⟨object, rfl, rfl⟩ := List.map_eq_singleton_iff.mp hc
        rw [heq]
        -- an access that is bound here is no `bind`, and no call binds it yet
        have hstanding : s = .value := by
          cases s with
          | value => rfl
          | aside => cases hvalue
          | binder =>
              obtain ⟨_, _, _, hnode, -⟩ := hknows
              cases hnode
              rw [hbind] at hname
              cases hname
          | bound =>
              rw [show d.alreadyBound.contains span = true from hknows] at hnew
              cases hnew
        intro sp hsp
        rcases List.mem_cons.mp hsp with rfl | hsp
        · refine .inr ⟨⟨sp, name, s⟩, access_mem List.mem_cons_self, rfl, ?_⟩
          simp [Access.isLoose, hstanding, hname]
        · exact .inl hsp
      · rw [heq]
        refine visitChildren_loose ih d d rfl fun k hk => ?_
        unfold Form.headStanding
        split
        case h_1 o p callee arguments =>
          have := hcall o p rfl
          simp at this
        case h_2 o name =>
          split
          case isTrue hs =>
            subst hs
            obtain ⟨_, _, target, hnode, hmem⟩ := hknows
            cases hnode
            obtain rfl : target = k := by simpa using hk
            exact hmem
          case isFalse => trivial
        case h_3 =>
          unfold Form.tailStanding
          split <;> trivial

end Survey

/-- Every access that a plan binds is loose. -/
theorem planEdits_loose (config : TransformConfig) (plugin : String) (tree : Node)
    (hbind : config.host.isBindable "bind" = false) :
    ∀ span ∈ (planEdits config plugin tree).1.boundMembers,
      ∃ a ∈ tree.accesses plugin .value, a.span = span ∧ a.isLoose config.host = true := by
  intro span hspan
  rw [planEdits_fst, (Survey.morePatterns_visitPatterns tree false _).members] at hspan
  exact (Survey.visit_loose (v := Survey.onProgram config plugin tree) hbind tree .value _ trivial
    span hspan).resolve_left List.not_mem_nil

-- ============================================================ what binding leaves

namespace EditPlan

open Node

variable {p : EditPlan} {plugin : String} {host : HostNamespace} {tree : Node}

/-- Nowhere is more loose than where a value is asked for. -/
theorem loose_le_value (n : Node) : ∀ s, n.loose host plugin s ≤ n.loose host plugin .value := by
  induction n with
  | node form span children ih =>
      intro s
      have hself : (form.access span s).countP (·.isLoose host)
          ≤ (form.access span .value).countP (·.isLoose host) := by
        unfold Form.access
        split
        · cases s <;> simp [Access.isLoose]
        · exact Nat.le_refl _
      cases children with
      | nil =>
          rw [loose_nil, loose_nil]
          exact hself
      | cons k ks =>
          have hhead : k.loose host plugin (form.headStanding plugin (k :: ks) s)
              ≤ k.loose host plugin (form.headStanding plugin (k :: ks) .value) := by
            unfold Form.headStanding
            split
            · exact Nat.le_refl _
            · exact ih k List.mem_cons_self _
            · exact Nat.le_refl _
          rw [loose_cons, loose_cons]
          omega

/-- Nothing that is bound, and nothing that binds it, is loose. -/
theorem loose_boundTo (form : Form) (span : Span) (children : List Node) (s : Standing)
    (hform : form.isMember = true) :
    ((node form span children).boundTo plugin).loose host plugin s
      = (node form span children).loose host plugin .bound := by
  have hbinds : bindsAccess plugin ((node form span children).access "bind")
      [made .nullValue [], made (.string (StringUnit.ofText plugin)) []] = true := by
    simp [bindsAccess, access, made, stringText?, Node.form, StringUnit.plainText_ofText, hform]
  rw [boundTo, made, loose_cons, Form.headStanding, if_pos hbinds, access, made, loose_cons]
  have hcall : (Form.access (.call false false) .none s).countP (·.isLoose host) = 0 := rfl
  have hbind : (Form.access (.member false "bind") .none .binder).countP (·.isLoose host) = 0 :=
    rfl
  have hnull : (made .nullValue []).loose host plugin (Form.call false false).tailStanding = 0 :=
    rfl
  have htext : (made (.string (StringUnit.ofText plugin)) []).loose host plugin
      (Form.call false false).tailStanding = 0 := rfl
  simp only [hcall, hbind, looseAll_cons, looseAll_nil, hnull, htext, Form.headStanding]
  simp

-- ============================================================ children

/-- The declarator that is divided into no parts is what it was, or goes away. -/
theorem looseAll_splitDeclarator {splits : List PropertySplit} {isDroppable : Bool} {n : Node}
    (h : (splitDeclarator plugin splits isDroppable n).stats.cuts = 0) (s : Standing) :
    (splitDeclarator plugin splits isDroppable n).stats.membersBound = 0
      ∧ looseAll host plugin (splitDeclarator plugin splits isDroppable n).result s
        ≤ n.loose host plugin s := by
  unfold splitDeclarator at h ⊢
  split at h
  case h_2 => exact ⟨rfl, by simp⟩
  case h_1 span role inner properties value =>
    have hmoved : properties.filterMap (movedValue? splits) = [] := by
      simpa [TransformStats.cuts] using h
    have hstaying : properties.filter (fun n => (movedValue? splits n).isNone) = properties := by
      rw [List.filterMap_eq_nil_iff] at hmoved
      exact List.filter_eq_self.mpr fun n hn => by rw [hmoved n hn]; rfl
    refine ⟨rfl, ?_⟩
    simp only [hmoved, hstaying, List.map_nil, List.append_nil]
    split
    · exact Nat.zero_le _
    · simp

/-- What is asked of what becomes of a child. -/
theorem looseAll_becomes {form : Form} {k : Node} {out : Edited (List Node)}
    (h : Becomes p plugin form k out) (hcuts : out.stats.cuts = 0)
    (hk : (p.remake plugin form.holdsValues k).stats.cuts = 0 →
      (p.remake plugin form.holdsValues k).result.loose host plugin form.tailStanding
        + (p.remake plugin form.holdsValues k).stats.membersBound
          ≤ k.loose host plugin form.tailStanding) :
    looseAll host plugin out.result form.tailStanding + out.stats.membersBound
      ≤ k.loose host plugin form.tailStanding := by
  cases h with
  | removed => cases hcuts
  | emptied => cases hcuts
  | pruned => cases hcuts
  | remade => simpa using hk hcuts
  | vanished hform =>
      have hvalues : form.holdsValues = true := by
        cases form <;> first | rfl | cases hform
      rw [hvalues] at hk
      have := hk hcuts
      simp only [looseAll_nil]
      omega
  | divided hform hparts =>
      subst hform hparts
      simp only [TransformStats.cuts_absorb, Nat.add_eq_zero_iff] at hcuts
      have h₁ := hk hcuts.1
      obtain ⟨hbound, hloose⟩ : _ ∧ looseAll host plugin _ _ ≤ _ :=
        looseAll_splitDeclarator hcuts.2 (Form.variableDeclaration ‹_›).tailStanding
      simp only [TransformStats.membersBound_absorb]
      simp only [Form.holdsValues] at h₁
      omega

/-- Where nothing goes away, what becomes of children has a loose access less for each that was
bound in them. -/
theorem looseAll_allBecome {form : Form} {ks : List Node} {out : Edited (List Node)}
    (h : AllBecome p plugin form ks out) (hcuts : out.stats.cuts = 0)
    (hks : ∀ k ∈ ks, (p.remake plugin form.holdsValues k).stats.cuts = 0 →
      (p.remake plugin form.holdsValues k).result.loose host plugin form.tailStanding
        + (p.remake plugin form.holdsValues k).stats.membersBound
          ≤ k.loose host plugin form.tailStanding) :
    looseAll host plugin out.result form.tailStanding + out.stats.membersBound
      ≤ looseAll host plugin ks form.tailStanding := by
  induction h with
  | nil => exact Nat.le_refl _
  | cons head tail ih =>
      simp only [TransformStats.cuts_absorb, Nat.add_eq_zero_iff] at hcuts
      have h₁ := looseAll_becomes head hcuts.1 (hks _ List.mem_cons_self)
      have h₂ := ih hcuts.2 fun k hk => hks k (List.mem_cons_of_mem _ hk)
      simp only [looseAll_append, looseAll_cons, TransformStats.membersBound_absorb]
      omega

-- ============================================================ nodes

/-- Whether a node stands so somewhere in a tree. -/
def Stands (plugin : String) (tree n : Node) (s : Standing) : Prop :=
  ∀ a ∈ n.accesses plugin s, a ∈ tree.accesses plugin .value

/-- Whether a plan binds nothing but what is loose in a tree. -/
def BindsLoose (p : EditPlan) (host : HostNamespace) (plugin : String) (tree : Node) : Prop :=
  ∀ span ∈ p.boundMembers,
    ∃ a ∈ tree.accesses plugin .value, a.span = span ∧ a.isLoose host = true

/-- An access that a plan binds is loose. -/
theorem BindsLoose.isLoose (hp : p.BindsLoose host plugin tree) (hw : tree.WellPlaced)
    {a : Access} (ha : a ∈ tree.accesses plugin .value)
    (h : p.boundMembers.contains a.span = true) : a.isLoose host = true := by
  obtain ⟨b, hb, hspan, hloose⟩ := hp a.span (by simpa using h)
  exact hw.access_eq hb ha hspan ▸ hloose

/-- An access that is bound already, or is the `bind` of one, stays what it is. -/
theorem BindsLoose.remake_member (hp : p.BindsLoose host plugin tree) (hw : tree.WellPlaced)
    {isOptional : Bool} {name : String} {span : Span} {children : List Node} {s : Standing}
    (hs : s ≠ .value) (hn : Stands plugin tree (.node (.member isOptional name) span children) s)
    (isValue : Bool) :
    ∃ parts, AllBecome p plugin (.member isOptional name) children parts
      ∧ (p.remake plugin isValue (.node (.member isOptional name) span children)).result
        = .node (.member isOptional name) span parts.result := by
  obtain ⟨parts, hall, houtcome⟩ :=
    p.remake_outcome plugin (.member isOptional name) span children isValue
  refine ⟨parts, hall, ?_⟩
  generalize p.remake plugin isValue (.node (.member isOptional name) span children) = out
    at houtcome
  cases houtcome with
  | substituted hform => cases hform
  | bound hform hvalue hbound =>
      have hloose := hp.isLoose hw (hn ⟨span, name, s⟩ (access_mem List.mem_cons_self)) hbound
      simp [Access.isLoose, hs] at hloose
  | kept => rfl

/-- What is neither a call nor an access stays what it is. -/
theorem form_remake {n : Node} (hcall : ∀ isOptional isPure, n.form ≠ .call isOptional isPure)
    (hmember : n.form.isMember = false) (isValue : Bool) :
    (p.remake plugin isValue n).result.form = n.form := by
  cases n with
  | node form span children =>
      obtain ⟨parts, -, houtcome⟩ := p.remake_outcome plugin form span children isValue
      generalize p.remake plugin isValue (.node form span children) = out at houtcome
      cases houtcome with
      | substituted hform => exact absurd hform (hcall _ _)
      | bound hform =>
          subst hform
          cases hmember
      | kept => rfl

theorem isRemoved_eq_false {n : Node} (h : n.form ≠ .expressionStatement) :
    p.isRemoved n = false := by
  simp [isRemoved, h]

/-- What binds an access still binds one after the edits. -/
theorem BindsLoose.bindsAccess (hp : p.BindsLoose host plugin tree) (hw : tree.WellPlaced)
    {isOptional isPure : Bool} {callee : Node} {arguments : List Node} {out : Edited (List Node)}
    (hbinds : bindsAccess plugin callee arguments = true)
    (hcallee : Stands plugin tree callee .binder)
    (hall : AllBecome p plugin (.call isOptional isPure) (callee :: arguments) out) :
    ∃ callee' arguments', out.result = callee' :: arguments'
      ∧ Node.bindsAccess plugin callee' arguments' = true := by
  unfold Node.bindsAccess at hbinds
  split at hbinds
  case h_2 => cases hbinds
  case h_1 o name span target this text =>
    simp only [Bool.and_eq_true, beq_iff_eq] at hbinds
    obtain ⟨⟨⟨rfl, hthis⟩, htext⟩, htarget⟩ := hbinds
    cases target with
    | node form span' children =>
    cases form with
    -- the access that is bound is one, and so is the `bind` around it: both stay what they are
    | member o' field =>
        have htarget : Stands plugin tree (.node (.member o' field) span' children) .bound :=
          fun a ha => hcallee a (accesses_head ha)
        obtain ⟨parts, hparts, hcallee'⟩ := hp.remake_member hw (by decide) hcallee true
        obtain ⟨parts', -, htarget'⟩ := hp.remake_member hw (by decide) htarget true
        have hstring : ∃ units, text.form = .string units := by
          unfold stringText? at htext
          split at htext
          case h_1 units hform => exact ⟨units, hform⟩
          case h_2 => cases htext
        obtain ⟨units, hstring⟩ := hstring
        have hthis' : (p.remake plugin true this).result.form = this.form :=
          form_remake (by rw [hthis]; nofun) (by rw [hthis]; rfl) true
        have htext' : (p.remake plugin true text).result.form = text.form :=
          form_remake (by rw [hstring]; nofun) (by rw [hstring]; rfl) true
        -- neither argument is a statement, so each of them is rebuilt where it stands
        have hkept : ∀ k : Node, k.form ≠ .expressionStatement → (if p.isRemoved k = true
            then made .empty [] else (p.remake plugin true k).result)
              = (p.remake plugin true k).result := by
          intro k hk
          rw [isRemoved_eq_false hk]
          rfl
        rw [hparts.fixed rfl] at hcallee'
        rw [hall.fixed rfl]
        refine ⟨_, _, rfl, ?_⟩
        simp only [Form.holdsValues, List.map_cons, List.map_nil] at hcallee' ⊢
        rw [hkept _ (by simp [Node.form]), htarget'] at hcallee'
        rw [hkept this (by simp [hthis]), hkept text (by simp [hstring]),
          hkept _ (by simp [Node.form]), hcallee']
        simp only [Node.bindsAccess, hthis', hthis, Node.stringText?, htext']
        simpa [Form.isMember, Node.form, Node.stringText?] using htext
    | _ => cases htarget

/-- Children that become one node each, of which the first one stands in its own way. -/
theorem looseAll_fixed {form : Form} (hform : isFixed form = true) {k : Node} {ks : List Node}
    {out : Edited (List Node)} (hall : AllBecome p plugin form (k :: ks) out)
    (hcuts : out.stats.cuts = 0) {s : Standing} (hs : s.isValue = form.holdsValues)
    (hk : (p.remake plugin s.isValue k).stats.cuts = 0 →
      (p.remake plugin s.isValue k).result.loose host plugin s
        + (p.remake plugin s.isValue k).stats.membersBound ≤ k.loose host plugin s)
    (hks : ∀ k ∈ ks, (p.remake plugin form.holdsValues k).stats.cuts = 0 →
      (p.remake plugin form.holdsValues k).result.loose host plugin form.tailStanding
        + (p.remake plugin form.holdsValues k).stats.membersBound
          ≤ k.loose host plugin form.tailStanding) :
    ∃ k' ks', out.result = k' :: ks'
      ∧ k'.loose host plugin s + looseAll host plugin ks' form.tailStanding
          + out.stats.membersBound
        ≤ k.loose host plugin s + looseAll host plugin ks form.tailStanding := by
  cases hall with
  | cons head tail =>
      simp only [TransformStats.cuts_absorb, Nat.add_eq_zero_iff] at hcuts
      have htail := looseAll_allBecome tail hcuts.2 hks
      rcases head.fixed hform with ⟨-, rfl⟩ | ⟨-, rfl⟩
      · cases hcuts.1
      · rw [hs] at hk
        have hhead := hk hcuts.1
        refine ⟨_, _, List.singleton_append, ?_⟩
        simp only [TransformStats.membersBound_absorb]
        omega

/-- Edits that do nothing but bind leave one access less that is loose, for each that they bind. -/
theorem loose_remake (hp : p.BindsLoose host plugin tree) (hw : tree.WellPlaced) (n : Node) :
    ∀ s, Stands plugin tree n s → (p.remake plugin s.isValue n).stats.cuts = 0 →
      (p.remake plugin s.isValue n).result.loose host plugin s
        + (p.remake plugin s.isValue n).stats.membersBound ≤ n.loose host plugin s := by
  induction n with
  | node form span children ih =>
      intro s hs hcuts
      obtain ⟨parts, hall, houtcome⟩ := p.remake_outcome plugin form span children s.isValue
      generalize p.remake plugin s.isValue (.node form span children) = out at hcuts houtcome
      -- the children after the first stand alike, so the hypothesis applies to each of them
      have htail : ∀ k ks, children = k :: ks → ∀ k' ∈ ks,
          (p.remake plugin form.holdsValues k').stats.cuts = 0 →
          (p.remake plugin form.holdsValues k').result.loose host plugin form.tailStanding
            + (p.remake plugin form.holdsValues k').stats.membersBound
              ≤ k'.loose host plugin form.tailStanding := by
        rintro k ks rfl k' hk'
        rw [← form.isValue_tailStanding]
        exact ih k' (List.mem_cons_of_mem _ hk') _ fun a ha => hs a (accesses_tail hk' ha)
      -- the first one may stand in its own way, and it has to be the first one afterwards, too
      have hhead : ∀ k ks, children = k :: ks → isFixed form = true → parts.stats.cuts = 0 →
          ∃ k' ks', parts.result = k' :: ks'
            ∧ k'.loose host plugin (form.headStanding plugin children s)
                + looseAll host plugin ks' form.tailStanding + parts.stats.membersBound
              ≤ k.loose host plugin (form.headStanding plugin children s)
                + looseAll host plugin ks form.tailStanding := by
        rintro k ks rfl hform hcuts
        exact looseAll_fixed hform hall hcuts (form.isValue_headStanding ..)
          (ih k List.mem_cons_self _ fun a ha => hs a (accesses_head ha)) (htail k ks rfl)
      cases houtcome with
      | substituted => rw [TransformStats.cuts_absorb] at hcuts; cases hcuts
      | bound hform hvalue hbound =>
          subst hform
          rw [TransformStats.cuts_absorb] at hcuts
          -- what is bound was loose: that pays for the count, for what stands bound is not loose
          have hloose := hp.isLoose hw (hs ⟨span, _, s⟩ (access_mem List.mem_cons_self)) hbound
          simp only [Access.isLoose, Bool.and_eq_true, beq_iff_eq] at hloose
          obtain ⟨rfl, hname⟩ := hloose
          simp only [loose_boundTo _ _ _ _ (show (Form.member _ _).isMember = true from rfl),
            TransformStats.membersBound_absorb]
          cases children with
          | nil =>
              cases hall
              simp [loose_nil, Form.access, Access.isLoose, hname, TransformStats.zero]
          | cons k ks =>
              obtain ⟨k', ks', hresult, hle⟩ := hhead k ks rfl rfl hcuts
              simp only [Form.headStanding] at hle
              simp only [hresult, loose_cons, Form.headStanding, Form.access, List.countP_singleton,
                Access.isLoose, hname]
              simp at hle ⊢
              omega
      | kept =>
          cases form with
          | call isOptional isPure =>
              cases children with
              | nil =>
                  cases hall
                  exact Nat.le_refl _
              | cons k ks =>
                  obtain ⟨k', ks', hresult, hle⟩ := hhead k ks rfl rfl hcuts
                  have hstanding : k'.loose host plugin
                        (Form.headStanding plugin (.call isOptional isPure) (k' :: ks') s)
                      ≤ k'.loose host plugin
                        (Form.headStanding plugin (.call isOptional isPure) (k :: ks) s) := by
                    -- what binds an access still does, so its callee stands there as before; any
                    -- other callee is asked for its value, and nowhere is more loose than there
                    by_cases hbinds : Node.bindsAccess plugin k ks = true
                    · have hbinder : Form.headStanding plugin (.call isOptional isPure) (k :: ks) s
                          = .binder := if_pos hbinds
                      obtain ⟨callee, arguments, heq, hbinds'⟩ := hp.bindsAccess hw hbinds
                        (fun a ha => hs a (accesses_head (hbinder ▸ ha))) hall
                      obtain ⟨rfl, rfl⟩ := List.cons.inj (hresult.symm.trans heq)
                      exact Nat.le_of_eq (by rw [hbinder, Form.headStanding, if_pos hbinds'])
                    · rw [Form.headStanding, Form.headStanding, if_neg hbinds]
                      exact loose_le_value k' _
                  simp only [hresult, loose_cons]
                  omega
          | member isOptional name =>
              cases children with
              | nil =>
                  cases hall
                  exact Nat.le_refl _
              | cons k ks =>
                  obtain ⟨k', ks', hresult, hle⟩ := hhead k ks rfl rfl hcuts
                  simp only [Form.headStanding] at hle
                  simp only [hresult, loose_cons, Form.headStanding]
                  omega
          | _ =>
              have hsum := looseAll_allBecome hall hcuts fun k hk => by
                rw [← Form.isValue_tailStanding]
                exact ih k hk _ fun a ha => hs a (accesses_child rfl hk ha)
              rw [loose_node rfl, loose_node rfl]
              dsimp only
              omega

end EditPlan

end Graft
