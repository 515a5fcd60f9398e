import Graft.Proofs.Edit.Reached
import Graft.Proofs.Edit.Single
/-!
What kind of node stands in place of a node.

Whatever is put in place of a node is one of a few things (`EditPlan.Performs`):

- an empty statement;
- the node with what is put in place of its children;
- a chain of names, for a call that loads a module;
- the node with a call of `bind` around it;
- a declarator for a name that moves out of a pattern.

# What follows for its form

All forms but three stay what they are (`EditPlan.form_performed`), and nothing gets a higher rank
(`EditPlan.rank_performed`), so what was asked of a child is asked of what stands in its place. In
most forms every child becomes one node (`EditPlan.MadeFor.exists_map`), so the children can be
compared one by one.

# What follows for its words

A word that is not made anew comes from where it stood (`EditPlan.MadeFor.word_of_performed`), and
what introduces no name outside of itself still introduces none
(`EditPlan.MadeFor.isClosed_performed`).
-/
namespace Graft

namespace Form

/-- Whether what stands in place of a node of a form has that form, whatever the plan says. -/
def isFirm : Form → Bool
  | .call .. | .member .. | .expressionStatement => false
  | _ => true

/-- Whether every child of a form becomes one node. -/
def isSteady (form : Form) : Bool :=
  !Survey.isStatementList form && !EditPlan.isPattern form && !form.isDeclaration

/-- Whatever calls, accesses and statements that are values are not says of a form that it is firm. -/
theorem isFirm_of {check : Form → Bool} {form : Form} (h : check form = true)
    (hcall : ∀ isOptional isPure, check (.call isOptional isPure) = false)
    (hmember : ∀ isOptional name, check (.member isOptional name) = false)
    (hstatement : check .expressionStatement = false) : form.isFirm = true := by
  unfold isFirm
  split
  case h_1 => rw [hcall] at h; cases h
  case h_2 => rw [hmember] at h; cases h
  case h_3 => rw [hstatement] at h; cases h
  case h_4 => rfl

theorem isFirm_of_takesValue {form : Form} (h : form.takesValue = true) : form.isFirm = true :=
  isFirm_of h (fun _ _ => rfl) (fun _ _ => rfl) rfl

theorem targets_map (form : Form) (f : Node → Node) (children : List Node) :
    form.targets (children.map f) = (form.targets children).map f := by
  cases form <;> first | rfl | exact List.map_take.symm | exact List.map_drop.symm

end Form

namespace Node

theorem isClosed_access {object : Node} (h : object.isClosed = true) (name : String) :
    (object.access name).isClosed = true :=
  isClosed_of_all (by simp) fun _ hk => List.mem_singleton.mp hk ▸ h

/-- To bind an access introduces no name. -/
theorem isClosed_boundTo {target : Node} (h : target.isClosed = true) (plugin : String) :
    (target.boundTo plugin).isClosed = true := by
  refine isClosed_of_all (by simp) fun k hk => ?_
  rcases List.mem_cons.mp hk with rfl | hk
  · exact isClosed_access h "bind"
  rcases List.mem_cons.mp hk with rfl | hk
  · rfl
  · exact List.mem_singleton.mp hk ▸ rfl

/-- A chain of names introduces none. -/
theorem isClosed_ofChain {names : List String} {chain : Node} (h : ofChain? names = some chain) :
    chain.isClosed = true := by
  cases names with
  | nil => cases h
  | cons first names =>
      obtain rfl := Option.some.inj h
      have hfold : ∀ (names : List String) {n : Node}, n.isClosed = true →
          (names.foldl access n).isClosed = true := by
        intro names
        induction names with
        | nil => exact id
        | cons name names ih => exact fun hn => ih (isClosed_access hn name)
      exact hfold names rfl

end Node

namespace EditPlan

open Node Survey

variable {v : Survey} {l : Liveness} {tree : Node} {p : EditPlan} {plugin : String} {n x : Node}
  {form above : Form} {span : Span} {children parts : List Node}

-- ============================================================ what stands in place of a node

/-- What can stand in place of a node, given what stands in place of its children. -/
inductive Performs (p : EditPlan) (plugin : String) (n : Node) (above : Form) (parts : List Node) :
    Node → Prop
  | emptied (hgoes : p.isRemoved n = true) : Performs p plugin n above parts (made .empty [])
  | kept (hstays : p.isRemoved n = false)
      (hsome : n.form.isDeclaration = true → parts = [] → isStatementList above = false) :
      Performs p plugin n above parts (.node n.form n.span parts)
  | substituted {names : List String} {chain : Node} (hcall : n.form.isCall = true)
      (hlookup : p.substitutions.lookup n.span = some names) (hchain : ofChain? names = some chain) :
      Performs p plugin n above parts chain
  | bound (hbound : p.isBound n = true) :
      Performs p plugin n above parts ((node n.form n.span parts).boundTo plugin)
  | moved {m : String × Node} {value : Node} (hform : n.form = .declarator)
      (hmoved : m ∈ p.movedFrom n) (hvalue : value ∈ parts) :
      Performs p plugin n above parts
        (made .declarator [m.2, (value.access m.1).boundTo plugin])

/-- What a node that stays is put together to is one of the few things that may stand in its
place. -/
theorem performs_of_restored (hstays : p.isRemoved (.node form span children) = false)
    (hx : x ∈ p.restored plugin form span children above parts) :
    Performs p plugin (.node form span children) above parts x := by
  -- what keeps its form is allowed to, unless it is a declaration
  have hself : form.isDeclaration = false →
      Performs p plugin (.node form span children) above parts (.node form span parts) :=
    fun hno => .kept hstays fun hform _ => by
      rw [show (node form span children).form = form from rfl, hno] at hform
      cases hform
  cases form with
  | call isOptional isPure =>
      unfold restored at hx
      dsimp only at hx
      split at hx
      · exact List.mem_singleton.mp hx ▸ hself rfl
      cases hchain : (p.substitutions.lookup span).bind ofChain? with
      | none =>
          rw [hchain, Option.getD_none, List.mem_singleton] at hx
          exact hx ▸ hself rfl
      | some chain =>
          rw [hchain, Option.getD_some, List.mem_singleton] at hx
          obtain ⟨names, hlookup, hchain⟩ := Option.bind_eq_some_iff.mp hchain
          exact hx ▸ .substituted rfl hlookup hchain
  | member isOptional name =>
      unfold restored at hx
      dsimp only at hx
      rw [List.mem_singleton] at hx
      split at hx
      case isTrue hspan => exact hx ▸ .bound (Bool.and_eq_true_iff.mpr ⟨rfl, hspan⟩)
      case isFalse => exact hx ▸ hself rfl
  | variableDeclaration kind =>
      unfold restored at hx
      dsimp only at hx
      split at hx
      case isTrue => cases hx
      -- a declaration that has lost all its declarators does not stand among statements
      case isFalse hsome =>
        rw [Bool.and_eq_true, List.isEmpty_iff] at hsome
        exact List.mem_singleton.mp hx ▸ .kept hstays fun _ hnone =>
          eq_false_of_ne_true fun hlist => hsome ⟨hlist, hnone⟩
  | declarator =>
      change x ∈ p.dividedInto plugin _ parts at hx
      unfold dividedInto at hx
      split at hx
      case h_2 => exact List.mem_singleton.mp hx ▸ hself rfl
      case h_1 role own properties value =>
        -- what is left of the declarator, or one of the declarators behind it
        rcases List.mem_append.mp hx with hx | hx
        · split at hx
          · cases hx
          · exact List.mem_singleton.mp hx ▸ hself rfl
        · obtain ⟨m, hm, rfl⟩ := List.mem_map.mp hx
          exact .moved rfl hm (List.mem_cons_of_mem _ List.mem_cons_self)
  | _ => exact List.mem_singleton.mp hx ▸ hself rfl

/-- What stands in place of a node is one of those few things. -/
theorem performs_of_mem (hx : x ∈ p.performed plugin (.node form span children) above) :
    Performs p plugin (.node form span children) above
      (form.askAll (children.map (p.performed plugin))) x := by
  rw [performed_node] at hx
  split at hx
  case isTrue hgoes =>
    split at hx
    · cases hx
    · exact List.mem_singleton.mp hx ▸ .emptied hgoes
  case isFalse hstays =>
    split at hx
    · cases hx
    · exact performs_of_restored (eq_false_of_ne_true hstays) hx

/-- What is neither removed nor rewritten keeps its form, even if it moves or is divided. -/
theorem Performs.form_eq (h : Performs p plugin n above parts x) (hstays : p.isRemoved n = false)
    (hsame : p.isRewritten n = false) : x.form = n.form := by
  rw [isRewritten, Bool.or_eq_false_iff] at hsame
  cases h with
  | emptied hgoes =>
      rw [hgoes] at hstays
      cases hstays
  | kept => rfl
  | substituted hcall hlookup =>
      have hmem : (p.substitutions.map Prod.fst).contains n.span = true :=
        List.contains_iff_mem.mpr (List.mem_map_of_mem (mem_of_lookup hlookup))
      rw [isSubstituted, hcall, hmem] at hsame
      cases hsame.1
  | bound hbound =>
      rw [hbound] at hsame
      cases hsame.2
  | moved hform => exact hform.symm

/-- What is firm is neither removed nor rewritten. -/
theorem stays_of_isFirm (h : n.form.isFirm = true) :
    p.isRemoved n = false ∧ p.isRewritten n = false := by
  constructor
  · refine isRemoved_eq_false fun hform => ?_
    rw [hform] at h
    cases h
  · rw [isRewritten, isSubstituted, isBound]
    cases n with
    | node form span children =>
        change form.isFirm = true at h
        cases form <;> first | rfl | cases h

/-- What stands in place of a node that is neither removed nor rewritten has its form. -/
theorem form_of_stays (hstays : p.isRemoved n = false) (hsame : p.isRewritten n = false)
    (hx : x ∈ p.performed plugin n above) : x.form = n.form := by
  cases n with
  | node form span children => exact (performs_of_mem hx).form_eq hstays hsame

/-- What stands in place of a node has the form of the node, unless the form is one of three. -/
theorem form_performed (h : n.form.isFirm = true) (hx : x ∈ p.performed plugin n above) :
    x.form = n.form :=
  have hstays : p.isRemoved n = false ∧ p.isRewritten n = false := stays_of_isFirm h
  form_of_stays hstays.1 hstays.2 hx

/-- Nothing of a higher rank stands in place of a node. -/
theorem rank_performed (hx : x ∈ p.performed plugin n above) : x.form.rank ≤ n.form.rank := by
  cases n with
  | node form span children =>
      cases performs_of_mem hx with
      | emptied hgoes =>
          rw [form_of_isRemoved hgoes]
          decide
      | kept => exact Nat.le_refl _
      | substituted hcall _ hchain =>
          obtain ⟨_, _, hform⟩ := exists_form_of_isCall hcall
          rw [hform]
          rcases form_of_isStaticChain (isStaticChain_ofChain hchain).1 with ⟨_, h⟩ | ⟨_, _, h⟩
          · rw [h]; exact Nat.le_refl 1
          · rw [h]; exact Nat.le_refl 1
      | bound hbound =>
          obtain ⟨_, _, hform⟩ := exists_form_of_isMember (Bool.and_eq_true_iff.mp hbound).1
          rw [hform]
          exact Nat.le_refl 1
      | moved hform =>
          rw [hform]
          exact Nat.le_refl _

/-- What stands in place of a statement that is a value and stays. -/
theorem performed_statement (hstays : p.isRemoved (.node .expressionStatement span children) = false) :
    p.performed plugin (.node .expressionStatement span children) above
      = [.node .expressionStatement span
          (Form.expressionStatement.askAll (children.map (p.performed plugin)))] := by
  have hmoved : p.isMoved (.node .expressionStatement span children) = false := by
    refine eq_false_of_ne_true fun hmoved => ?_
    cases isPatternProperty_of_isMoved hmoved
  rw [performed_node, hstays, hmoved]
  rfl

/-- Of an entry of a pattern at most one node is left. -/
theorem performed_entry (hform : n.form.isEntry = true) :
    p.performed plugin n above = [] ∨ ∃ ks, p.performed plugin n above = [.node n.form n.span ks] := by
  cases n with
  | node form span children =>
      have hstays : p.isRemoved (node form span children) = false :=
        isRemoved_eq_false fun heq => by
          rw [heq] at hform
          cases hform
      rw [performed_node, hstays, if_neg Bool.false_ne_true]
      split
      · exact .inl rfl
      · rcases form_of_isEntry hform with hproperty | hrest
        · obtain ⟨_, _, heq⟩ := Form.exists_of_isPatternProperty hproperty
          obtain rfl : form = _ := heq
          exact .inr ⟨_, rfl⟩
        · obtain rfl : form = .rest := hrest
          exact .inr ⟨_, rfl⟩

/-- What moves out of the pattern of a declarator is a name in it. -/
theorem of_mem_movedFrom {m : String × Node} (hm : m ∈ p.movedFrom n) :
    ∃ role own ks isComputed isShorthand place key,
      .node (.objectPattern role) own ks ∈ n.children
        ∧ .node (.patternProperty isComputed isShorthand) place [key, m.2] ∈ ks := by
  obtain ⟨property, hproperty, hsome⟩ := List.mem_filterMap.mp hm
  obtain ⟨_, role, own, ks, _, rfl, hks⟩ := of_mem_patternEntries hproperty
  unfold movedOut? at hsome
  split at hsome
  case h_1 isComputed isShorthand place key value =>
    obtain ⟨s, -, rfl⟩ := Option.map_eq_some_iff.mp hsome
    exact ⟨role, own, ks, isComputed, isShorthand, place, key, List.mem_cons_self, hks⟩
  case h_2 => cases hsome

/-- What moves out of a declarator is part of it. -/
theorem mem_parts_of_movedFrom {m : String × Node} (hm : m ∈ p.movedFrom n) : m.2 ∈ n.parts := by
  obtain ⟨_, _, _, _, _, _, _, hpattern, hproperty⟩ := of_mem_movedFrom hm
  exact mem_parts_of_child hpattern (mem_parts_of_child hproperty
    (child_mem_parts (List.mem_cons_of_mem _ List.mem_cons_self)))

namespace MadeFor

/-- The children of most forms become one node each. -/
theorem exists_map (h : MadeFor v l tree p) (plugin : String)
    (hn : .node form span children ∈ tree.parts)
    (hsteady : form.isSteady = true) :
    ∃ f : Node → Node, form.askAll (children.map (p.performed plugin)) = children.map f
      ∧ ∀ k ∈ children, p.performed plugin k form = [f k] := by
  rw [Form.isSteady, Bool.and_eq_true, Bool.and_eq_true, Bool.not_eq_true', Bool.not_eq_true',
    Bool.not_eq_true'] at hsteady
  obtain ⟨⟨hlist, hpattern⟩, hdeclaration⟩ := hsteady
  have hone : ∀ k ∈ children,
      p.performed plugin k form = [(p.performed plugin k form).headD absent] := by
    intro k hk
    obtain ⟨x, hx⟩ := h.exists_performed plugin hn hk (h.not_pruned_of_parent hn hk hpattern)
      (h.not_moved_of_parent hn hk fun role heq => by
        rw [show form = _ from heq] at hpattern
        cases hpattern)
      hlist hdeclaration
    change p.performed plugin k form = [x] at hx
    rw [hx]
    rfl
  refine ⟨_, ?_, hone⟩
  have hask : form.askAll (children.map (p.performed plugin))
      = children.flatMap (p.performed plugin · form) := by
    cases form with
    | case => cases hlist
    | _ => exact List.flatMap_map ..
  rw [hask, List.map_eq_flatMap]
  exact congrArg List.flatten (List.map_congr_left hone)

/-- The words of what stands in place of a node are words of the node, or made anew. -/
theorem word_of_performed (h : MadeFor v l tree p) (hn : n ∈ tree.parts)
    (hx : x ∈ p.performed plugin n above) {w : Node} (hw : w ∈ x.parts)
    (hword : w.form.isWord = true) (hspan : w.span ≠ .none) : w ∈ n.parts := by
  induction n generalizing above x with
  | node form span children ih =>
      -- what a child became holds words of the child only
      have hparts : ∀ y ∈ form.askAll (children.map (p.performed plugin)), w ∈ y.parts →
          w ∈ (node form span children).parts := by
        intro y hy hwy
        obtain ⟨k, hk, a, -, hy, -⟩ := Form.exists_of_mem_askAll hy
        have hkt := mem_parts_trans (mem_parts_of_child hk (self_mem_parts k)) hn
        exact mem_parts_of_child hk (ih k hk hkt hy hwy)
      have hself : w ∈ (node form span (form.askAll (children.map (p.performed plugin)))).parts →
          w ∈ (node form span children).parts := by
        intro hw
        rcases mem_parts_node.mp hw with rfl | ⟨y, hy, hwy⟩
        · cases h.wellPlaced.part hn with
          | node fits parts =>
              obtain rfl := fits.word hword
              rw [List.map_nil, Form.askAll_nil]
              exact self_mem_parts _
        · exact hparts y hy hwy
      -- the edits bring in words of their own, but these have no span
      cases performs_of_mem hx with
      | emptied =>
          rw [made, parts_node, List.flatMap_nil, List.mem_singleton] at hw
          rw [hw] at hword
          cases hword
      | kept => exact hself hw
      | substituted _ _ hchain => exact absurd (span_of_mem_ofChain hchain hword hw) hspan
      | bound => exact hself (mem_parts_boundTo hword hw)
      | @moved m value _ hmoved hvalue =>
          rcases mem_parts_node.mp hw with rfl | ⟨k, hk, hwk⟩
          · cases hword
          rcases List.mem_cons.mp hk with rfl | hk
          · exact mem_parts_trans hwk (mem_parts_of_movedFrom hmoved)
          · rw [List.mem_singleton.mp hk] at hwk
            exact hparts value hvalue (mem_parts_access hword (mem_parts_boundTo hword hwk))

-- ============================================================ closed trees

/-- What stands in place of a closed tree is closed. -/
theorem isClosed_performed (h : MadeFor v l tree p) (hn : n ∈ tree.parts) (hclosed : n.isClosed = true)
    (hx : x ∈ p.performed plugin n above) : x.isClosed = true := by
  induction n generalizing above x with
  | node form span children ih =>
      have hkt : ∀ k ∈ children, k ∈ tree.parts := fun k hk =>
        mem_parts_trans (mem_parts_of_child hk (self_mem_parts k)) hn
      have hparts : (∀ k ∈ children, k.isClosed = true) →
          ∀ y ∈ form.askAll (children.map (p.performed plugin)), y.isClosed = true := by
        intro hall y hy
        obtain ⟨k, hk, a, -, hy, -⟩ := Form.exists_of_mem_askAll hy
        exact ih k hk (hkt k hk) (hall k hk) hy
      rw [isClosed_node] at hclosed
      cases performs_of_mem hx with
      | emptied => rfl
      | substituted _ _ hchain => exact isClosed_ofChain hchain
      | bound hbound =>
          obtain ⟨_, _, heq⟩ := exists_form_of_isMember (Bool.and_eq_true_iff.mp hbound).1
          obtain rfl : form = _ := heq
          exact isClosed_boundTo
            (isClosed_of_all (by simp [Node.form]) (hparts (isClosed_of_all_id hclosed))) plugin
      -- the name that moves out is part of a pattern that is closed, and the value is copied
      | @moved m value hform hmoved hvalue =>
          obtain rfl : form = .declarator := hform
          have hall := isClosed_of_all_id hclosed
          refine isClosed_of_all (by simp) fun k hk => ?_
          rcases List.mem_cons.mp hk with rfl | hk
          · obtain ⟨_, _, _, _, _, _, _, hpattern, hproperty⟩ := of_mem_movedFrom hmoved
            have hproperties := isClosed_of_all_id (isClosed_node .. ▸ hall _ hpattern)
            exact isClosed_of_all_id (isClosed_node .. ▸ hproperties _ hproperty) _
              (List.mem_cons_of_mem _ List.mem_cons_self)
          · exact List.mem_singleton.mp hk ▸
              isClosed_boundTo (isClosed_access (hparts hall value hvalue) m.1) plugin
      | kept =>
          change (node form span _).isClosed = true
          -- most forms are closed if their children are; a scope of its own closes a form whatever
          -- is in it
          rw [isClosed_node]
          cases form with
          | binding name => cases hclosed
          | function isAsync isGenerator => rfl
          | arrow isAsync isExpression inert parenthesized => rfl
          | staticBlock => rfl
          | method kind flags isComputed isStatic =>
              obtain ⟨f, hf, hone⟩ := h.exists_map plugin hn rfl
              rw [hf]
              cases children with
              | nil => rfl
              | cons key others =>
                  exact ih key List.mem_cons_self (hkt key List.mem_cons_self) hclosed
                    (hone key List.mem_cons_self ▸ List.mem_singleton_self _)
          | classValue =>
              obtain ⟨f, hf, hone⟩ := h.exists_map plugin hn rfl
              rw [hf]
              cases children with
              | nil => rfl
              | cons name others =>
                  have hothers := isClosed_of_all_id hclosed
                  refine List.all_eq_true.mpr fun b hb => ?_
                  obtain ⟨k', hk', rfl⟩ := List.mem_map.mp hb
                  obtain ⟨k, hk, rfl⟩ := List.mem_map.mp hk'
                  have hkc := List.mem_cons_of_mem name hk
                  exact ih k hkc (hkt k hkc) (hothers k hk) (hone k hkc ▸ List.mem_singleton_self _)
          | _ =>
              refine List.all_eq_true.mpr fun b hb => ?_
              obtain ⟨y, hy, rfl⟩ := List.mem_map.mp hb
              exact hparts (isClosed_of_all_id hclosed) y hy

end MadeFor

end EditPlan

end Graft
