import Graft.Proofs.Edit.Reached
/-!
What is counted when a plan is carried out.

Every edit is counted at one node: a statement, an entry or a value at the node itself, and the
properties that move out of a pattern at the declarator (`EditPlan.own`). The counts of an edit are
those of the nodes that it comes to (`EditPlan.MadeFor.stats_tree`), which are all nodes but those
inside of what goes away.
-/
namespace Graft

namespace EditPlan

open Node Survey

-- ============================================================ counts

/-- Whether a call becomes a chain of names where it stands. -/
def isReplaced (p : EditPlan) (above : Form) (n : Node) : Bool :=
  n.form.isCall && above != .chain
    && ((p.substitutions.lookup n.span).bind Node.ofChain?).isSome

/-- What is counted at a node. -/
def own (p : EditPlan) (place : Form × Node) : TransformStats where
  statementsElided := (p.isRemoved place.2).toNat
  patternsPruned := (p.isPruned place.2).toNat
  importsSubstituted := (p.isReplaced place.1 place.2).toNat
  membersBound := (p.isBound place.2).toNat
  declaratorsSplit := (p.movedFrom place.2).length

/-- What is counted at some nodes. -/
def tally (p : EditPlan) (places : List (Form × Node)) : TransformStats :=
  places.foldr (fun place s => (p.own place).absorb s) .zero

variable {v : Survey} {l : Liveness} {tree : Node} {p : EditPlan} {plugin : String} {n : Node}

/-- What is counted at a row is counted at its first node and at the others. -/
theorem tally_cons (place : Form × Node) (places : List (Form × Node)) :
    p.tally (place :: places) = (p.own place).absorb (p.tally places) := rfl

/-- What is counted at two rows is counted at both. -/
theorem tally_append (xs ys : List (Form × Node)) :
    p.tally (xs ++ ys) = (p.tally xs).absorb (p.tally ys) := by
  induction xs with
  | nil => exact (TransformStats.zero_absorb _).symm
  | cons x xs ih => rw [List.cons_append, tally_cons, tally_cons, ih, TransformStats.absorb_assoc]

/-- What is counted at some nodes, count by count. -/
theorem tally_eq (places : List (Form × Node)) :
    p.tally places = {
      statementsElided := places.countP fun a => p.isRemoved a.2
      patternsPruned := places.countP fun a => p.isPruned a.2
      importsSubstituted := places.countP fun a => p.isReplaced a.1 a.2
      membersBound := places.countP fun a => p.isBound a.2
      declaratorsSplit := (places.flatMap fun a => p.movedFrom a.2).length } := by
  have hone : ∀ (b : Bool) (m : Nat), b.toNat + m = m + if b = true then 1 else 0 := by
    intro b m
    cases b with
    | true => exact Nat.add_comm ..
    | false => exact Nat.zero_add m
  induction places with
  | nil => rfl
  | cons a places ih =>
      rw [tally_cons, ih]
      simp only [own, TransformStats.absorb, List.countP_cons, List.flatMap_cons,
        List.length_append, hone]

-- ============================================================ what is counted at a node

theorem isPruned_eq_false (h : n.form.isEntry = false) : p.isPruned n = false := by
  rw [isPruned, h, Bool.false_and]

theorem isReplaced_eq_false {above : Form} (h : n.form.isCall = false) :
    p.isReplaced above n = false := by
  rw [isReplaced, h, Bool.false_and, Bool.false_and]

theorem isBound_eq_false (h : n.form.isMember = false) : p.isBound n = false := by
  rw [isBound, h, Bool.false_and]

/-- Entries move out of declarators only. -/
theorem movedFrom_eq_nil (h : n.form ≠ .declarator) : p.movedFrom n = [] := by
  unfold movedFrom patternEntries
  split
  case h_1 => exact absurd rfl h
  case h_2 => rfl

/-- What is counted at a statement that goes away. -/
theorem own_of_isRemoved {above : Form} (h : p.isRemoved n = true) :
    p.own (above, n) = { statementsElided := 1 } := by
  have hform := form_of_isRemoved h
  rw [own, h, isPruned_eq_false (by rw [hform]; rfl), isReplaced_eq_false (by rw [hform]; rfl),
    isBound_eq_false (by rw [hform]; rfl), movedFrom_eq_nil (by rw [hform]; nofun)]
  rfl

/-- What is counted at an entry that goes away. -/
theorem own_of_isPruned {above : Form} (h : p.isPruned n = true) :
    p.own (above, n) = { patternsPruned := 1 } := by
  have hform : n.form.isEntry = true := by
    rw [isPruned, Bool.and_eq_true] at h
    exact h.1
  have hother : n.form ≠ .expressionStatement ∧ n.form.isCall = false ∧ n.form.isMember = false
      ∧ n.form ≠ .declarator := by
    unfold Form.isEntry at hform
    split at hform
    case h_1 heq => rw [heq]; exact ⟨fun h => (by cases h), rfl, rfl, fun h => (by cases h)⟩
    case h_2 heq => rw [heq]; exact ⟨fun h => (by cases h), rfl, rfl, fun h => (by cases h)⟩
    case h_3 => cases hform
  rw [own, h, isRemoved_eq_false hother.1, isReplaced_eq_false hother.2.1,
    isBound_eq_false hother.2.2.1, movedFrom_eq_nil hother.2.2.2]
  rfl

/-- What is counted at a declarator. -/
theorem own_of_declarator {above : Form} (h : n.form = .declarator) :
    p.own (above, n) = { declaratorsSplit := (p.movedFrom n).length } := by
  rw [own, isRemoved_eq_false (by rw [h]; nofun), isPruned_eq_false (by rw [h]; rfl),
    isReplaced_eq_false (by rw [h]; rfl), isBound_eq_false (by rw [h]; rfl)]
  rfl

/-- What is counted when a node that is no declarator is put together again. -/
theorem finish_stats {form above : Form} {span : Span} {children : List Node}
    {parts : Edited (List Node)} (hstays : p.isRemoved (.node form span children) = false)
    (hkept : p.isPruned (.node form span children) = false) (hdeclarator : form ≠ .declarator)
    (hcall : form.isCall = true → above ≠ .place)
    (hbound : p.isBound (.node form span children) = true → above.holdsValues = true) :
    (p.finish plugin form span above.holdsValues parts).stats
      = (p.own (above, .node form span children)).absorb parts.stats := by
  have hmoved : p.movedFrom (.node form span children) = [] := movedFrom_eq_nil hdeclarator
  cases form with
  | call isOptional isPure =>
      -- the one count a call can have of its own: that it was replaced
      have hown : p.own (above, node (.call isOptional isPure) span children)
          = { importsSubstituted :=
                (p.isReplaced above (node (.call isOptional isPure) span children)).toNat } := by
        rw [own, hstays, hkept, hmoved, isBound_eq_false rfl]
        rfl
      rw [hown]
      -- right under a chain nothing is put in for a call, and nothing is counted
      by_cases hchain : above = .chain
      · subst hchain
        exact (TransformStats.zero_absorb _).symm
      · have hvalues : above.holdsValues = true := Form.holdsValues_of_ne (hcall rfl) hchain
        have hreplaced : p.isReplaced above (node (.call isOptional isPure) span children)
            = ((p.substitutions.lookup span).bind ofChain?).isSome := by
          rw [isReplaced, bne_iff_ne.mpr hchain]
          rfl
        rw [hreplaced, hvalues]
        simp only [finish, if_true]
        cases (p.substitutions.lookup span).bind ofChain? with
        | none => exact (TransformStats.zero_absorb _).symm
        | some chain => exact TransformStats.absorb_comm _ _
  | member isOptional name =>
      -- and the one count a member access can have: that it was bound
      have hown : p.own (above, node (.member isOptional name) span children)
          = { membersBound := (p.boundMembers.contains span).toNat } := by
        rw [own, hstays, hkept, hmoved, isReplaced_eq_false rfl]
        rfl
      rw [hown]
      cases hspan : p.boundMembers.contains span with
      | true =>
          have hvalues : above.holdsValues = true :=
            hbound (by rw [isBound, Bool.and_eq_true]; exact ⟨rfl, hspan⟩)
          simp only [finish, hspan, hvalues, Bool.and_true, if_true]
          exact TransformStats.absorb_comm _ _
      | false =>
          simp only [finish, hspan, Bool.and_false, Bool.false_eq_true, if_false]
          exact (TransformStats.zero_absorb _).symm
  -- no other form has an edit that the last step would count
  | _ =>
      rw [own, hstays, hkept, hmoved, isReplaced_eq_false rfl, isBound_eq_false rfl]
      exact (TransformStats.zero_absorb _).symm

-- ============================================================ what is counted below a node

/-- The counts of children are what is counted at the nodes that the edit comes to in them. -/
theorem gather_stats {above : Form} {ks : List Node}
    (h : ∀ k ∈ ks, (p.replacement plugin above k).stats = p.tally (p.reached k above)) :
    (p.gather plugin above ks).stats = p.tally (ks.flatMap (p.reached · above)) := by
  induction ks with
  | nil => rfl
  | cons k ks ih =>
      rw [gather, List.flatMap_cons, tally_append, ← h k List.mem_cons_self,
        ← ih fun k' hk' => h k' (List.mem_cons_of_mem _ hk')]

/-- The counts of the children of a form are told by the nodes that are reached under it. -/
theorem gatherAll_stats {form : Form} {children : List Node}
    (h : ∀ k ∈ children, ∀ above, form.Under above →
      (p.replacement plugin above k).stats = p.tally (p.reached k above)) :
    (p.gatherAll plugin form children).stats
      = p.tally (form.askAll (children.map p.reached)) := by
  have hall : (p.gather plugin form children).stats
      = p.tally ((children.map p.reached).flatMap (· form)) := by
    rw [gather_stats fun k hk => h k hk form (.inl rfl), List.flatMap_map]
  cases form with
  | case =>
      cases children with
      | nil => rfl
      | cons test statements =>
          have hstatements : (p.gather plugin .case statements).stats
              = p.tally (statements.flatMap (p.reached · .case)) :=
            gather_stats fun k hk => h k (List.mem_cons_of_mem _ hk) .case (.inl rfl)
          simp only [gatherAll, Form.askAll, List.map_cons, tally_append, hstatements,
            List.flatMap_map, h test List.mem_cons_self .switch (.inr ⟨rfl, rfl⟩)]
  | _ => exact hall

namespace MadeFor

/-- What is counted at a child of a node and below is the counts of the nodes that the edit comes
to there. -/
theorem replacement_stats (h : MadeFor v l tree p) (hn : n ∈ tree.parts) {q : Node} {above : Form}
    (hq : q ∈ tree.parts) (hnq : n ∈ q.children) (habove : q.form.Under above) :
    (p.replacement plugin above n).stats = p.tally (p.reached n above) := by
  induction n generalizing q above with
  | node form span children ih =>
      -- what the children tell, by induction, for whatever form stands above each of them
      have hparts : (p.gatherAll plugin form children).stats
          = p.tally (form.askAll (children.map p.reached)) :=
        gatherAll_stats fun k hk above habove =>
          ih k hk (mem_parts_trans (mem_parts_of_child hk (self_mem_parts k)) hn) hn hk habove
      rw [reached_node, tally_cons]
      -- a node that goes, one that is pruned and one that stays are counted apart
      by_cases hgoes : p.isRemoved (node form span children) = true
      · obtain ⟨hpattern, hdeclaration⟩ := h.alone_of_isRemoved hq hnq habove hgoes
        rw [hgoes, Bool.true_or, if_pos rfl, own_of_isRemoved hgoes,
          replacement_of_isRemoved hpattern hdeclaration hgoes]
        rfl
      have hstays := eq_false_of_ne_true hgoes
      by_cases hpruned : p.isPruned (node form span children) = true
      · have hloses := h.losesEntry_eq hq hnq habove
        rw [hpruned] at hloses
        rw [hpruned, Bool.or_true, if_pos rfl, own_of_isPruned hpruned,
          replacement_of_losesEntry p plugin hloses]
        rfl
      have hkept := eq_false_of_ne_true hpruned
      rw [hstays, hkept, Bool.or_self, if_neg Bool.false_ne_true, ← hparts]
      -- a declarator is counted where its declaration divides it, everything else where it is
      -- remade
      by_cases hdeclarator : form = .declarator
      · subst hdeclarator
        have hdeclaration := (h.isDeclaration_iff hq hnq habove).mpr rfl
        obtain ⟨kind, rfl⟩ := Form.exists_of_isDeclaration hdeclaration
        rw [own_of_declarator rfl, TransformStats.absorb_comm]
        show ((p.remake plugin true (node .declarator span children)).stats.absorb
          (splitDeclarator plugin ((p.splits.lookup span).getD []) (p.droppable.contains span)
            (p.remake plugin true (node .declarator span children)).result).stats) = _
        rw [h.divided (.variableDeclaration kind) hn fun k hk =>
            h.agrees k (mem_parts_trans (mem_parts_of_child hk (self_mem_parts k)) hn),
          remake_eq]
        rfl
      · have hdeclaration : above.isDeclaration = false := eq_false_of_ne_true fun hdeclaration =>
          hdeclarator ((h.isDeclaration_iff hq hnq habove).mp hdeclaration)
        have hloses : p.losesEntry above (node form span children) = false :=
          (h.losesEntry_eq hq hnq habove).trans hkept
        rw [replacement_stats_of_stays hdeclaration hstays hloses, remake_eq,
           finish_stats hstays hkept hdeclarator
            (fun hcall => h.above_ne_place hq hnq habove hcall) fun hbound => ?_]
        rcases habove with rfl | ⟨-, rfl⟩
        · exact h.holdsValues_of_isBound hq hnq hbound
        · rfl

/-- The counts of an edit are those of the nodes that it comes to. -/
theorem stats_tree (h : MadeFor v l tree p) (above : Form) :
    (p.apply plugin tree).2 = p.tally (p.reached tree above) := by
  obtain ⟨hashbang, hform⟩ := h.program
  cases tree with
  | node form span children =>
  obtain rfl : form = .program hashbang := hform
  have hn := self_mem_parts (node (.program hashbang) span children)
  have hparts : (p.gatherAll plugin (.program hashbang) children).stats
      = p.tally (Form.askAll (.program hashbang) (children.map p.reached)) :=
    gatherAll_stats fun k hk above habove =>
      h.replacement_stats (mem_parts_of_child hk (self_mem_parts k)) hn hk habove
  have happly : (p.apply plugin (node (.program hashbang) span children)).2
      = (p.remake plugin true (node (.program hashbang) span children)).stats := rfl
  have hstays : p.isRemoved (node (.program hashbang) span children) = false := h.stays
  have hkept : p.isPruned (node (.program hashbang) span children) = false := isPruned_eq_false rfl
  have hvalues : Form.switch.holdsValues = true := rfl
  rw [happly, remake_eq, ← hvalues, finish_stats hstays hkept nofun nofun nofun, hparts,
    reached_node, hstays, hkept, tally_cons]
  rfl

end MadeFor

end EditPlan

end Graft
