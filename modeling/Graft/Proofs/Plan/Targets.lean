import Graft.Proofs.Plan.Pruning
import Graft.Proofs.Plan.Walks
/-!
The nodes that a plan means.

A plan names nodes by their spans, and says by the list that holds a span of which kind the node is.
In a program that is enough: what has the span and the kind is the node that the planner looked at,
so everything that the planner knew of it can be said of the node (`EditPlan.MadeFor`).

# Entries of patterns

They need an argument of their own, for an entry may be covered by its value: a property of one name
is the name, as far as spans go. But an entry that goes away or moves has a plain key and no
default, and of the nodes with its span it is the only one that is an entry
(`EditPlan.eq_of_spareEntry`, `EditPlan.MadeFor.eq_of_movableEntry`).

# Nothing overlaps

- Nothing is planned inside of a statement that goes away (`EditPlan.MadeFor.eq_of_removed`): the
  first walk goes no further there, and the second one leaves the statement out.
- Nothing that is rewritten stands inside of another such node (`EditPlan.MadeFor.eq_of_rewritten`).
- Inside of an entry that goes away there are only other entries that do
  (`EditPlan.MadeFor.pruned_inside`), for there is nothing but names in it.
-/
namespace Graft

/-- Whether a form is an entry of a pattern that has a mark of its own. -/
def Form.isEntry : Form → Bool
  | .patternProperty .. | .rest => true
  | _ => false

namespace EditPlan

/-- Whether a node is a call that becomes a chain of names. -/
def isSubstituted (p : EditPlan) (n : Node) : Bool :=
  n.form.isCall && (p.substitutions.map Prod.fst).contains n.span

/-- Whether a node is an access that is bound. -/
def isBound (p : EditPlan) (n : Node) : Bool :=
  n.form.isMember && p.boundMembers.contains n.span

/-- Whether a node is an entry of a pattern that goes away. -/
def isPruned (p : EditPlan) (n : Node) : Bool :=
  n.form.isEntry && p.removedPatterns.contains n.span

/-- What the plan says about a property that moves out of its pattern. -/
def split? (p : EditPlan) (n : Node) : Option PropertySplit :=
  if n.form.isPatternProperty then
    (p.splits.flatMap Prod.snd).find? fun s => s.property == n.span
  else none

/-- Whether a node is a property that moves out of its pattern. -/
def isMoved (p : EditPlan) (n : Node) : Bool := (p.split? n).isSome

/-- Whether a node is a declarator that is divided, or that goes away when its pattern is empty. -/
def isDivided (p : EditPlan) (n : Node) : Bool :=
  n.form == .declarator
    && ((p.splits.map Prod.fst).contains n.span || p.droppable.contains n.span)

/-- Whether a value is replaced or bound. -/
def isRewritten (p : EditPlan) (n : Node) : Bool := p.isSubstituted n || p.isBound n

/-- Whether a plan says something about a node. -/
def plans (p : EditPlan) (n : Node) : Bool :=
  p.isRemoved n || p.isRewritten n || p.isPruned n || p.isMoved n || p.isDivided n

/-- What is known of a plan that was made for a program. -/
structure MadeFor (v : Survey) (l : Liveness) (tree : Node) (p : EditPlan) : Prop where
  wellPlaced : tree.WellPlaced
  program : ∃ hashbang, tree.form = .program hashbang
  grounded : GroundedIn v l tree p
  decides : ∃ ns, Survey.Decides [tree] true ns {} p
  divides : Survey.DividesOnly v l (p.kept tree) p

open Node Survey

variable {v : Survey} {l : Liveness} {tree : Node} {p : EditPlan} {n : Node}

-- ============================================================ kinds of nodes

/-- A form that is a call is one of the call forms. -/
theorem exists_form_of_isCall {form : Form} (h : form.isCall = true) :
    ∃ isOptional isPure, form = .call isOptional isPure := by
  unfold Form.isCall at h
  split at h
  case h_1 => exact ⟨_, _, rfl⟩
  case h_2 => cases h

/-- A form that is an access is one of a named access. -/
theorem exists_form_of_isMember {form : Form} (h : form.isMember = true) :
    ∃ isOptional name, form = .member isOptional name := by
  unfold Form.isMember at h
  split at h
  case h_1 => exact ⟨_, _, rfl⟩
  case h_2 => cases h

/-- An entry of a pattern is a property or a rest element. -/
theorem form_of_isEntry {form : Form} (h : form.isEntry = true) :
    form.isPatternProperty = true ∨ form = .rest := by
  unfold Form.isEntry at h
  split at h
  case h_1 => exact .inl rfl
  case h_2 => exact .inr rfl
  case h_3 => cases h

theorem isEntry_of_isPatternProperty {form : Form} (h : form.isPatternProperty = true) :
    form.isEntry = true := by
  obtain ⟨_, _, rfl⟩ := Form.exists_of_isPatternProperty h
  rfl

theorem rank_of_isPatternProperty {form : Form} (h : form.isPatternProperty = true) :
    form.rank = 3 := by
  obtain ⟨_, _, rfl⟩ := Form.exists_of_isPatternProperty h
  rfl

/-- An entry holds more than a word. -/
theorem isBare_eq_false_of_isEntry (h : n.form.isEntry = true) : n.isBare = false := by
  apply isBare_eq_false_of_form
  rcases form_of_isEntry h with hproperty | hrest
  · obtain ⟨_, _, heq⟩ := Form.exists_of_isPatternProperty hproperty
    rw [heq]
    rfl
  · rw [hrest]
    rfl

/-- A value that is rewritten has the lowest rank. -/
theorem rank_of_isRewritten (h : p.isRewritten n = true) : n.form.rank = 1 := by
  rw [isRewritten, Bool.or_eq_true, isSubstituted, isBound, Bool.and_eq_true, Bool.and_eq_true] at h
  rcases h with ⟨h, -⟩ | ⟨h, -⟩
  · obtain ⟨_, _, heq⟩ := exists_form_of_isCall h
    rw [heq]
    rfl
  · obtain ⟨_, _, heq⟩ := exists_form_of_isMember h
    rw [heq]
    rfl

theorem isBare_eq_false_of_isPruned (h : p.isPruned n = true) : n.isBare = false := by
  rw [isPruned, Bool.and_eq_true] at h
  exact isBare_eq_false_of_isEntry h.1

/-- What is rewritten holds more than a word. -/
theorem isBare_eq_false_of_isRewritten (h : p.isRewritten n = true) : n.isBare = false := by
  refine isBare_eq_false_of_form ?_
  rw [isRewritten, Bool.or_eq_true, isSubstituted, isBound, Bool.and_eq_true, Bool.and_eq_true] at h
  rcases h with ⟨h, -⟩ | ⟨h, -⟩
  · obtain ⟨_, _, heq⟩ := exists_form_of_isCall h
    rw [heq]
    rfl
  · obtain ⟨_, _, heq⟩ := exists_form_of_isMember h
    rw [heq]
    rfl

/-- What a plan says about a property that moves out. -/
theorem split?_cases {s : PropertySplit} (hs : p.split? n = some s) :
    n.form.isPatternProperty = true ∧ s.property = n.span ∧ ∃ e ∈ p.splits, s ∈ e.2 := by
  unfold split? at hs
  split at hs
  case isTrue hform =>
    have hmem := List.mem_of_find?_eq_some hs
    obtain ⟨e, he, hse⟩ := List.mem_flatMap.mp hmem
    exact ⟨hform, by simpa using List.find?_some hs, e, he, hse⟩
  case isFalse => cases hs

theorem isPatternProperty_of_isMoved (h : p.isMoved n = true) :
    n.form.isPatternProperty = true := by
  obtain ⟨s, hs⟩ := Option.isSome_iff_exists.mp h
  exact (split?_cases hs).1

theorem isBare_eq_false_of_isMoved (h : p.isMoved n = true) : n.isBare = false :=
  isBare_eq_false_of_isEntry (isEntry_of_isPatternProperty (isPatternProperty_of_isMoved h))

/-- Whatever the plan names holds more than a word. -/
theorem isBare_eq_false_of_plans (h : p.plans n = true) : n.isBare = false := by
  simp only [plans, Bool.or_eq_true] at h
  rcases h with (((h | h) | h) | h) | h
  · exact isBare_eq_false_of_form (by rw [form_of_isRemoved h]; rfl)
  · exact isBare_eq_false_of_isRewritten h
  · exact isBare_eq_false_of_isPruned h
  · exact isBare_eq_false_of_isMoved h
  · rw [isDivided, Bool.and_eq_true, beq_iff_eq] at h
    exact isBare_eq_false_of_form (by rw [h.1]; rfl)

-- ============================================================ entries that go away

/-- Of the parts of a property only the value can cover it, if nothing inside of the value can. -/
theorem eq_value_of_covers {isShorthand : Bool} {span : Span} {key value : Node}
    (hw : (node (.patternProperty false isShorthand) span [key, value]).WellPlaced)
    (hvb : value.isBare = false) (hrank : value.form.rank = 1)
    (hn : n ∈ (node (.patternProperty false isShorthand) span [key, value]).parts)
    (hbare : n.isBare = false) (hspan : n.span = span)
    (hne : n ≠ node (.patternProperty false isShorthand) span [key, value]) : n = value := by
  rcases mem_parts_node.mp hn with h | ⟨k, hk, hnk⟩
  · exact absurd h hne
  -- a bare key has no part with a span
  rcases List.mem_cons.mp hk with rfl | hk
  · cases hw with
    | node fits =>
      rw [isBare_of_mem_parts (fits.key rfl k rfl) hnk] at hbare
      cases hbare
  obtain rfl := List.mem_singleton.mp hk
  have hin := (hw.part (child_mem_parts (List.mem_cons_of_mem key List.mem_cons_self))).within
    hnk hbare
  have hout := hw.within (child_mem_parts (List.mem_cons_of_mem key List.mem_cons_self)) hvb
  -- the part and the value cover one span, and lie within each other
  have hkspan : n.span = k.span := by
    have h₁ := hin.start
    have h₂ := hin.stop
    have h₃ : span.start ≤ k.span.start := hout.start
    have h₄ : k.span.stop ≤ span.stop := hout.stop
    rw [hspan] at h₁ h₂ ⊢
    exact Span.mk.injEq .. ▸ ⟨Nat.le_antisymm h₃ h₁, Nat.le_antisymm h₂ h₄⟩
  cases k with
  | node form own children =>
  -- a part strictly inside the value would rank lower than it, and the value's rank is the least
  rcases mem_parts_node.mp hnk with h | ⟨k', hk', hnk'⟩
  · exact h
  · have hlt := (hw.part (child_mem_parts (List.mem_cons_of_mem key List.mem_cons_self))).rank_lt
      hk' hnk' hbare hkspan
    have hpos : 0 < n.form.rank := rank_pos (eq_false_of_ne_true fun h => by
      rw [isBare_of_isAbsent (hw.part hn) h] at hbare
      cases hbare)
    rw [hrank] at hlt
    omega

/-- An entry that a pattern can do without is the only node of its span that is such an entry. -/
theorem eq_of_spareEntry {q entry : Node} (ht : tree.WellPlaced) (hq : q ∈ tree.parts)
    (hentry : SpareEntry v l q entry) (hn : n ∈ tree.parts) (hform : n.form.isEntry = true)
    (hbare : n.isBare = false) (hspan : entry.span = n.span) : entry = n := by
  have hmem : entry ∈ tree.parts := mem_parts_trans (child_mem_parts hentry.mem) hq
  have heb := hentry.isBare_eq_false
  have hrank : n.form.rank = 1 ∨ n.form.rank = 3 := by
    rcases form_of_isEntry hform with h | h
    · exact .inr (rank_of_isPatternProperty h)
    · rw [h]; exact .inl rfl
  rcases hentry.kind with hrest | ⟨-, isShorthand, span, key, value, rfl, hvalue⟩
  · rcases hrank with hrank | hrank
    · exact ht.eq_of_span_eq hmem hn heb hbare hspan (by rw [hrest, hrank]; rfl)
    · -- a rest element does not cover a property, neither from inside nor from outside
      rcases ht.nested_of_span_eq hmem hn heb hbare hspan with h | h
      · rcases ht.nested hq hn (child_mem_parts hentry.mem) h heb with hqn | hnq
        · exact absurd hspan ((ht.part hn).span_ne_of_child hqn (rank_of_isPattern hentry.pattern)
            hentry.mem heb)
        · cases q with
          | node qform qspan children =>
          rcases mem_parts_node.mp hnq with rfl | ⟨k, hk, hnk⟩
          · rw [rank_of_isPattern hentry.pattern] at hrank
            cases hrank
          · obtain rfl := (ht.part hq).child_eq hk hentry.mem (mem_parts_trans h hnk)
              (self_mem_parts entry) heb
            exact eq_of_mem_parts h hnk
      · have hle := ((ht.part hmem).within h hbare).rank hspan.symm
        rw [hrank, hrest] at hle
        exact absurd hle (by decide)
  · rcases hrank with hrank | hrank
    · refine absurd hform ?_
      rcases ht.nested_of_span_eq hmem hn heb hbare hspan with h | h
      · have hle := ((ht.part hn).within h heb).rank hspan
        rw [hrank] at hle
        exact absurd hle (show ¬ 3 ≤ 1 by decide)
      · -- whatever covers the property from inside is its value
        have hvb : value.isBare = false := isBare_eq_false_of_form (by
          rcases hvalue with ⟨name, h⟩ | ⟨role, h⟩ <;> rw [h] <;> rfl)
        obtain rfl := eq_value_of_covers (ht.part hmem) hvb (by
          rcases hvalue with ⟨name, h⟩ | ⟨role, h⟩ <;> rw [h] <;> rfl) h hbare hspan.symm
          (by rintro rfl; cases hrank)
        rcases hvalue with ⟨name, h⟩ | ⟨role, h⟩ <;> rw [h] <;> nofun
    · exact ht.eq_of_span_eq hmem hn heb hbare hspan (by rw [hrank]; rfl)

namespace MadeFor

/-- The entry that goes away is reached from the pattern of a declarator that stays. -/
theorem pruned (h : MadeFor v l tree p) (hn : n ∈ tree.parts) (hgoes : p.isPruned n = true) :
    ∃ span pattern value q, .node .declarator span [pattern, value] ∈ p.kept tree
      ∧ Reaches pattern q ∧ SpareEntry v l q n := by
  have hbare := isBare_eq_false_of_isPruned hgoes
  rw [isPruned, Bool.and_eq_true, List.contains_iff_mem] at hgoes
  obtain ⟨span, pattern, value, hdeclarator, hremoved⟩ := h.divides.patterns _ hgoes.2
  have hpattern : pattern ∈ tree.parts :=
    mem_parts_trans (child_mem_parts List.mem_cons_self) (kept_subset hdeclarator)
  obtain ⟨q, entry, hreaches, hspare, hspan⟩ :=
    (prunes_planPattern v l (h.wellPlaced.part hpattern)).removed _ hremoved
  obtain rfl := eq_of_spareEntry h.wellPlaced (mem_parts_trans hreaches.mem_parts hpattern) hspare
    hn hgoes.1 hbare hspan
  exact ⟨span, pattern, value, q, hdeclarator, hreaches, hspare⟩

/-- Inside of an entry that goes away there is nothing but names. -/
theorem isNaming_of_pruned (h : MadeFor v l tree p) (hn : n ∈ tree.parts)
    (hgoes : p.isPruned n = true) {m : Node} (hm : m ∈ n.parts) : m.form.isNaming = true := by
  obtain ⟨_, _, _, _, -, -, hspare⟩ := h.pruned hn hgoes
  exact hspare.spare.naming m hm

-- ============================================================ properties that move out

/-- What the plan knows of a property that moves out: it stands in the pattern of a declarator that
stays, and what the plan says of it is among what it says of that declarator. -/
structure Moves (v : Survey) (l : Liveness) (tree : Node) (p : EditPlan) (n : Node)
    (s : PropertySplit) (span : Span) (pattern value : Node) : Prop where
  declarator : .node .declarator span [pattern, value] ∈ p.kept tree
  entry : MovableEntry v l pattern n s
  splits : (span, (v.planPattern l pattern).splits) ∈ p.splits
  mem : s ∈ (v.planPattern l pattern).splits

/-- An object pattern is the pattern that it is about. -/
theorem pattern_of_objectPattern {pattern : Node} (h : ∃ role, pattern.form = .objectPattern role) :
    pattern.pattern = pattern := by
  cases pattern with
  | node form span children =>
      obtain ⟨role, rfl⟩ := h
      rfl

/-- A property that can move out is the only one of its span. -/
theorem eq_of_movableEntry (ht : tree.WellPlaced) {q entry : Node} {s : PropertySplit}
    (hq : q ∈ tree.parts) (hentry : MovableEntry v l q entry s) (hn : n ∈ tree.parts)
    (hform : n.form.isPatternProperty = true) (hspan : s.property = n.span) : entry = n := by
  have hmem : entry ∈ tree.parts := mem_parts_trans (child_mem_parts hentry.mem) hq
  obtain ⟨isShorthand, key, value, rfl, -⟩ := hentry.kind
  exact ht.eq_of_span_eq hmem hn (isBare_node ..)
    (isBare_eq_false_of_isEntry (isEntry_of_isPatternProperty hform)) hspan
    (rank_of_isPatternProperty hform).symm

/-- What moves out stands directly in the object pattern of a declarator that stays. -/
theorem moves (h : MadeFor v l tree p) (hn : n ∈ tree.parts) {s : PropertySplit}
    (hs : p.split? n = some s) : ∃ span pattern value, Moves v l tree p n s span pattern value := by
  obtain ⟨hform, hspan, ⟨span, splits⟩, he, hse⟩ := split?_cases hs
  obtain ⟨pattern, value, hdeclarator, hobject, rfl⟩ := h.divides.splits _ he
  have hpattern : pattern ∈ tree.parts :=
    mem_parts_trans (child_mem_parts List.mem_cons_self) (kept_subset hdeclarator)
  obtain ⟨entry, hentry⟩ := (prunes_planPattern v l (h.wellPlaced.part hpattern)).splits s hse
  rw [pattern_of_objectPattern hobject] at hentry
  obtain rfl := eq_of_movableEntry h.wellPlaced hpattern hentry hn hform hspan
  exact ⟨span, pattern, value, hdeclarator, hentry, he, hse⟩

/-- No property goes away and moves out. -/
theorem not_moved_of_pruned (h : MadeFor v l tree p) (hn : n ∈ tree.parts)
    (hgoes : p.isPruned n = true) : p.isMoved n = false := by
  refine Option.isSome_eq_false_iff.mpr (Option.isNone_iff_eq_none.mpr ?_)
  cases hs : p.split? n with
  | none => rfl
  | some s =>
      obtain ⟨_, _, _, _, -, -, hspare⟩ := h.pruned hn hgoes
      obtain ⟨span, pattern, value, hmoves⟩ := h.moves hn hs
      obtain ⟨isShorthand, key, name, rfl, -, ⟨text, hname⟩, hused⟩ := hmoves.entry.kind
      have hbinding : name ∈ (node (.patternProperty false isShorthand) s.property
          [key, name]).bindings := by
        refine List.mem_filter.mpr ⟨child_mem_parts (List.mem_cons_of_mem key List.mem_cons_self), ?_⟩
        rw [isBinding, hname]
      rw [hspare.spare.unused name hbinding] at hused
      cases hused

/-- What the plan says about a declarator is what can be done about its pattern. -/
theorem lookup_splits (h : MadeFor v l tree p) {span : Span} {pattern value : Node}
    (hdeclarator : .node .declarator span [pattern, value] ∈ tree.parts)
    {splits : List PropertySplit} (hmem : (span, splits) ∈ p.splits) :
    p.splits.lookup span = some (v.planPattern l pattern).splits := by
  cases hlookup : p.splits.lookup span with
  | none => simpa using List.lookup_eq_none_iff.mp hlookup _ hmem
  | some splits' =>
      obtain ⟨pattern', value', hdeclarator', -, heq⟩ := h.divides.splits _ (mem_of_lookup hlookup)
      obtain ⟨-, -, hsame⟩ := Node.node.inj (h.wellPlaced.eq_of_span_eq hdeclarator
        (kept_subset hdeclarator') (isBare_node ..) (isBare_node ..) rfl rfl)
      obtain ⟨rfl, -⟩ := List.cons.inj hsame
      exact congrArg some heq

/-- What the plan says about a declarator says of its properties what the plan says of them. -/
theorem find?_splits (h : MadeFor v l tree p) {span : Span} {pattern value : Node}
    (hdeclarator : .node .declarator span [pattern, value] ∈ tree.parts) (hn : n ∈ pattern.children)
    (hform : n.form.isPatternProperty = true) :
    ((p.splits.lookup span).getD []).find? (fun s => s.property == n.span) = p.split? n := by
  have hpattern : pattern ∈ tree.parts :=
    mem_parts_trans (child_mem_parts List.mem_cons_self) hdeclarator
  have hnt : n ∈ tree.parts := mem_parts_trans (child_mem_parts hn) hpattern
  have hnb : n.isBare = false :=
    isBare_eq_false_of_isEntry (isEntry_of_isPatternProperty hform)
  -- both sides look for the entry of `n`: one in its declarator's splits, one in all of them
  cases hs : p.split? n with
  | none =>
      rw [split?, if_pos hform, List.find?_eq_none] at hs
      refine List.find?_eq_none.mpr fun s hmem => hs s ?_
      cases hlookup : p.splits.lookup span with
      | none =>
          rw [hlookup] at hmem
          cases hmem
      | some splits =>
          rw [hlookup] at hmem
          exact List.mem_flatMap.mpr ⟨_, mem_of_lookup hlookup, hmem⟩
  -- the split that is found moves `n` out of a declarator, which can only be this one
  | some s =>
      obtain ⟨span', pattern', value', hmoves⟩ := h.moves hnt hs
      have hdeclarator' := kept_subset hmoves.declarator
      have hpattern' : pattern' ∈ tree.parts :=
        mem_parts_trans (child_mem_parts List.mem_cons_self) hdeclarator'
      obtain rfl := h.wellPlaced.parent_eq hpattern hpattern' hn hmoves.entry.mem hnb
      have hpb : pattern.isBare = false := by
        obtain ⟨role, hrole⟩ := hmoves.entry.pattern
        exact isBare_eq_false_of_form (by rw [hrole]; rfl)
      obtain ⟨-, rfl, -⟩ := Node.node.inj (h.wellPlaced.parent_eq hdeclarator hdeclarator'
        List.mem_cons_self List.mem_cons_self hpb)
      rw [h.lookup_splits hdeclarator hmoves.splits, Option.getD_some]
      cases hfind : (v.planPattern l pattern).splits.find? fun s => s.property == n.span with
      | none =>
          refine absurd (List.find?_eq_none.mp hfind s hmoves.mem) ?_
          simpa using (split?_cases hs).2.1
      -- two splits for one span would be two entries of the pattern at one place
      | some s' =>
          have hmem := List.mem_of_find?_eq_some hfind
          obtain ⟨entry, hentry⟩ :=
            (prunes_planPattern v l (h.wellPlaced.part hpattern)).splits s' hmem
          rw [pattern_of_objectPattern hmoves.entry.pattern] at hentry
          obtain rfl := eq_of_movableEntry h.wellPlaced hpattern hentry hnt hform
            (by simpa using List.find?_some hfind)
          rw [hentry.split_eq hmoves.entry]

-- ============================================================ nothing overlaps

/-- What the first walk decides about stands among the nodes that it decides about. -/
theorem mem_of_isRemoved (h : MadeFor v l tree p) {ns : List Node}
    (hns : Decides [tree] true ns {} p) (hn : n ∈ tree.parts) (hgoes : p.isRemoved n = true) :
    n ∈ ns := by
  have hform := form_of_isRemoved hgoes
  rw [isRemoved, Bool.and_eq_true, List.contains_iff_mem] at hgoes
  obtain ⟨m, hm, hmform, hspan⟩ := (hns.statements _ hgoes.2).resolve_left List.not_mem_nil
  obtain ⟨hbare, t, ht, hmt⟩ := hns.parts m hm
  obtain rfl := List.mem_singleton.mp ht
  exact h.wellPlaced.eq_of_span_eq hmt hn hbare (isBare_eq_false_of_form (by rw [hform]; rfl)) hspan
    (by rw [hform, hmform]) ▸ hm

/-- What is rewritten was decided about in the first walk. -/
theorem mem_of_isRewritten (h : MadeFor v l tree p) {ns : List Node}
    (hns : Decides [tree] true ns {} p) (hn : n ∈ tree.parts) (hr : p.isRewritten n = true) :
    n ∈ ns := by
  have hrank := rank_of_isRewritten hr
  have hnb := isBare_eq_false_of_isRewritten hr
  -- what is decided about and has the span and the rank is the node
  have hsame : ∀ m ∈ ns, m.span = n.span → m.form.rank = 1 → n ∈ ns := by
    intro m hm hspan hmrank
    obtain ⟨hbare, t, ht, hmt⟩ := hns.parts m hm
    obtain rfl := List.mem_singleton.mp ht
    exact h.wellPlaced.eq_of_span_eq hmt hn hbare hnb hspan (hmrank.trans hrank.symm) ▸ hm
  rw [isRewritten, Bool.or_eq_true, isSubstituted, isBound, Bool.and_eq_true, Bool.and_eq_true,
    List.contains_iff_mem, List.contains_iff_mem] at hr
  rcases hr with ⟨-, hr⟩ | ⟨-, hr⟩
  · obtain ⟨e, he, hspan⟩ := List.mem_map.mp hr
    obtain ⟨m, hm, hform, hmspan⟩ := (hns.substitutions e he).resolve_left List.not_mem_nil
    obtain ⟨_, _, heq⟩ := exists_form_of_isCall hform
    exact hsame m hm (hmspan.trans hspan) (by rw [heq]; rfl)
  · obtain ⟨m, hm, hform, hmspan, -⟩ := (hns.members _ hr).resolve_left List.not_mem_nil
    obtain ⟨_, _, heq⟩ := exists_form_of_isMember hform
    exact hsame m hm hmspan (by rw [heq]; rfl)

/-- Of two nodes that the first walk decides about none is inside of the other. -/
theorem eq_of_decided (h : MadeFor v l tree p) {ns : List Node} (hns : Decides [tree] true ns {} p)
    {m : Node} (hm : m ∈ ns) (hn : n ∈ ns) (hin : n ∈ m.parts) : n = m := by
  refine Classical.byContradiction fun hne => ?_
  obtain ⟨-, t, ht, hmt⟩ := hns.parts m hm
  obtain rfl := List.mem_singleton.mp ht
  have hapart : m.Apart n := by
    rcases pairwise_of_ne hns.apart hm hn (Ne.symm hne) with h | h
    · exact h
    · exact h.symm
  exact hapart.not_mem (h.wellPlaced.part hmt) hne (hns.parts n hn).1 hin

/-- No value that is rewritten stands inside of another. -/
theorem eq_of_rewritten (h : MadeFor v l tree p) {m : Node} (hm : m ∈ tree.parts)
    (hmr : p.isRewritten m = true) (hn : n ∈ m.parts) (hnr : p.isRewritten n = true) : n = m := by
  obtain ⟨ns, hns⟩ := h.decides
  exact h.eq_of_decided hns (h.mem_of_isRewritten hns hm hmr)
    (h.mem_of_isRewritten hns (mem_parts_trans hn hm) hnr) hn

/-- The plan removes statements, never the program itself. -/
theorem stays (h : MadeFor v l tree p) : p.isRemoved tree = false := by
  obtain ⟨hashbang, hform⟩ := h.program
  exact isRemoved_eq_false (by rw [hform]; nofun)

/-- An entry of a pattern in a declarator that stays is in no statement that goes away. -/
theorem eq_of_removed_entry (h : MadeFor v l tree p) {st q pattern value : Node} {span : Span}
    (hst : st ∈ tree.parts) (hgoes : p.isRemoved st = true)
    (hdeclarator : .node .declarator span [pattern, value] ∈ p.kept tree)
    (hreaches : Reaches pattern q) (hq : isPattern q.form = true) (hn : n ∈ q.children)
    (hbare : n.isBare = false) (hin : n ∈ st.parts) : n = st := by
  have hform := form_of_isRemoved hgoes
  have hnp : n ∈ pattern.parts := mem_parts_trans (child_mem_parts hn) hreaches.mem_parts
  have hdt := kept_subset hdeclarator
  have hnd : n ∈ (node .declarator span [pattern, value]).parts :=
    mem_parts_of_child List.mem_cons_self hnp
  have hpw := h.wellPlaced.part (mem_parts_trans (child_mem_parts List.mem_cons_self) hdt)
  rcases h.wellPlaced.nested hst hdt hin hnd hbare with hsd | hds
  · rcases mem_parts_node.mp hsd with rfl | ⟨k, hk, hsk⟩
    · cases hform
    · obtain rfl := (h.wellPlaced.part hdt).child_eq hk List.mem_cons_self
        (mem_parts_trans hin hsk) hnp hbare
      rcases hreaches.path hpw hn hbare hsk hin with rfl | rfl | ⟨role, hrole⟩ | hproperty
      · rfl
      · rw [hform] at hq
        cases hq
      · rw [hform] at hrole
        cases hrole
      · rw [hform] at hproperty
        cases hproperty
  · exact absurd hds (not_mem_of_kept h.wellPlaced h.stays hdeclarator (isBare_node ..) hst hgoes)

/-- A declarator that the plan divides stays. -/
theorem mem_kept_of_isDivided (h : MadeFor v l tree p) (hn : n ∈ tree.parts)
    (hd : p.isDivided n = true) : n ∈ p.kept tree := by
  rw [isDivided, Bool.and_eq_true, beq_iff_eq, Bool.or_eq_true, List.contains_iff_mem,
    List.contains_iff_mem] at hd
  obtain ⟨hform, hd⟩ := hd
  have hnb : n.isBare = false := isBare_eq_false_of_form (by rw [hform]; rfl)
  have hsame : ∀ {span children}, .node .declarator span children ∈ p.kept tree → span = n.span →
      n ∈ p.kept tree := fun hm hspan =>
    h.wellPlaced.eq_of_span_eq (kept_subset hm) hn (isBare_node ..) hnb hspan
      (by rw [hform]; rfl) ▸ hm
  rcases hd with hd | hd
  · obtain ⟨e, he, hspan⟩ := List.mem_map.mp hd
    obtain ⟨pattern, value, hdeclarator, -⟩ := h.divides.splits e he
    exact hsame hdeclarator hspan
  · obtain ⟨pattern, value, hdeclarator⟩ := h.divides.droppable _ hd
    exact hsame hdeclarator rfl

/-- Nothing is planned inside of a statement that goes away. -/
theorem eq_of_removed (h : MadeFor v l tree p) {st : Node} (hst : st ∈ tree.parts)
    (hgoes : p.isRemoved st = true) (hin : n ∈ st.parts) (hplans : p.plans n = true) : n = st := by
  obtain ⟨ns, hns⟩ := h.decides
  have hn := mem_parts_trans hin hst
  have hstn := h.mem_of_isRemoved hns hst hgoes
  simp only [plans, Bool.or_eq_true] at hplans
  rcases hplans with (((hplans | hplans) | hplans) | hplans) | hplans
  · exact h.eq_of_decided hns hstn (h.mem_of_isRemoved hns hn hplans) hin
  · exact h.eq_of_decided hns hstn (h.mem_of_isRewritten hns hn hplans) hin
  · obtain ⟨_, _, _, _, hdeclarator, hreaches, hspare⟩ := h.pruned hn hplans
    exact h.eq_of_removed_entry hst hgoes hdeclarator hreaches hspare.pattern hspare.mem
      hspare.isBare_eq_false hin
  · obtain ⟨s, hs⟩ := Option.isSome_iff_exists.mp hplans
    obtain ⟨_, _, _, hmoves⟩ := h.moves hn hs
    obtain ⟨role, hrole⟩ := hmoves.entry.pattern
    exact h.eq_of_removed_entry hst hgoes hmoves.declarator (.self _) (by rw [hrole]; rfl)
      hmoves.entry.mem (isBare_eq_false_of_isMoved hplans) hin
  · have hkept := h.mem_kept_of_isDivided hn hplans
    have hform : n.form = .declarator := by
      rw [isDivided, Bool.and_eq_true, beq_iff_eq] at hplans
      exact hplans.1
    exact absurd hin (not_mem_of_kept h.wellPlaced h.stays hkept
      (isBare_eq_false_of_form (by rw [hform]; rfl)) hst hgoes)

/-- Inside of an entry that goes away nothing is planned but entries that go away. -/
theorem pruned_inside (h : MadeFor v l tree p) {entry : Node} (hentry : entry ∈ tree.parts)
    (hgoes : p.isPruned entry = true) (hin : n ∈ entry.parts) (hplans : p.plans n = true) :
    p.isPruned n = true := by
  have hn := mem_parts_trans hin hentry
  have hnaming := h.isNaming_of_pruned hentry hgoes hin
  simp only [plans, Bool.or_eq_true] at hplans
  rcases hplans with (((hplans | hplans) | hplans) | hplans) | hplans
  · rw [form_of_isRemoved hplans] at hnaming
    cases hnaming
  · rw [isRewritten, Bool.or_eq_true, isSubstituted, isBound, Bool.and_eq_true,
      Bool.and_eq_true] at hplans
    rcases hplans with ⟨hform, -⟩ | ⟨hform, -⟩
    · obtain ⟨_, _, heq⟩ := exists_form_of_isCall hform
      rw [heq] at hnaming
      cases hnaming
    · obtain ⟨_, _, heq⟩ := exists_form_of_isMember hform
      rw [heq] at hnaming
      cases hnaming
  · exact hplans
  · -- the declarator would be inside of the entry, or the property would be the entry
    obtain ⟨s, hs⟩ := Option.isSome_iff_exists.mp hplans
    obtain ⟨span, pattern, value, hmoves⟩ := h.moves hn hs
    have hnb := isBare_eq_false_of_isMoved hplans
    have hdt := kept_subset hmoves.declarator
    have hnd : n ∈ (node .declarator span [pattern, value]).parts :=
      mem_parts_of_child List.mem_cons_self (child_mem_parts hmoves.entry.mem)
    rcases h.wellPlaced.nested hentry hdt hin hnd hnb with hed | hde
    · rcases mem_parts_node.mp hed with rfl | ⟨k, hk, hek⟩
      · cases hgoes
      obtain rfl := (h.wellPlaced.part hdt).child_eq hk List.mem_cons_self
        (mem_parts_trans hin hek) (child_mem_parts hmoves.entry.mem) hnb
      have hpw := h.wellPlaced.part (mem_parts_trans (child_mem_parts List.mem_cons_self) hdt)
      obtain ⟨role, hrole⟩ := hmoves.entry.pattern
      rcases hpw.eq_or_eq_of_child hmoves.entry.mem hek hin hnb with rfl | rfl
      · exact hgoes
      · rw [isPruned, hrole] at hgoes
        cases hgoes
    · have hdeclarator := h.isNaming_of_pruned hentry hgoes hde
      cases hdeclarator
  · rw [isDivided, Bool.and_eq_true, beq_iff_eq] at hplans
    rw [hplans.1] at hnaming
    cases hnaming

/-- Nothing goes away around a node that a plan names, unless the node is an entry that goes away. -/
theorem stays_around (h : MadeFor v l tree p) {m : Node} (hm : m ∈ tree.parts) (hin : n ∈ m.parts)
    (hne : n ≠ m) (hplans : p.plans n = true) (hkept : p.isPruned n = false) :
    p.isRemoved m = false ∧ p.isPruned m = false := by
  refine ⟨eq_false_of_ne_true fun hgoes => hne (h.eq_of_removed hm hgoes hin hplans),
    eq_false_of_ne_true fun hgoes => ?_⟩
  rw [h.pruned_inside hm hgoes hin hplans] at hkept
  cases hkept

/-- An access that is bound stands as a value. -/
theorem holdsValues_of_isBound (h : MadeFor v l tree p) {q : Node} (hq : q ∈ tree.parts)
    (hn : n ∈ q.children) (hbound : p.isBound n = true) : q.form.holdsValues = true := by
  obtain ⟨ns, hns⟩ := h.decides
  have hnt := mem_parts_trans (child_mem_parts hn) hq
  have hnb := isBare_eq_false_of_isRewritten (p := p) (n := n) (by simp [isRewritten, hbound])
  have hrank := rank_of_isRewritten (p := p) (n := n) (by simp [isRewritten, hbound])
  rw [isBound, Bool.and_eq_true, List.contains_iff_mem] at hbound
  obtain ⟨m, hm, hform, hspan, hvalue⟩ := (hns.members _ hbound.2).resolve_left List.not_mem_nil
  obtain ⟨hbare, t, ht, hmt⟩ := hns.parts m hm
  obtain rfl := List.mem_singleton.mp ht
  obtain ⟨_, _, heq⟩ := exists_form_of_isMember hform
  obtain rfl := h.wellPlaced.eq_of_span_eq hmt hnt hbare hnb hspan (by rw [hrank, heq]; rfl)
  rcases hvalue with ⟨htree, -⟩ | ⟨t', ht', q', hq', hvalues, hmq⟩
  · obtain ⟨hashbang, hprogram⟩ := h.program
    rw [List.mem_singleton.mp htree, hprogram] at heq
    cases heq
  · obtain rfl := List.mem_singleton.mp ht'
    exact h.wellPlaced.parent_eq hq hq' hn hmq hnb ▸ hvalues

/-- Nothing is assigned to an access that is bound. -/
theorem not_mem_targets_of_isBound (h : MadeFor v l tree p) {q : Node} (hq : q ∈ tree.parts)
    (hbound : p.isBound n = true) : n ∉ q.form.targets q.children := by
  intro hn
  obtain ⟨isOptional, name, hform⟩ :=
    exists_form_of_isMember (Bool.and_eq_true_iff.mp hbound).1
  cases h.wellPlaced.part hq with
  | node fits parts =>
      have htarget := fits.targets n hn
      rw [hform] at htarget
      cases htarget

end MadeFor

end EditPlan

open Node

/-- The plan for a program is as the planner makes it. -/
theorem planEdits_madeFor (config : TransformConfig) (plugin : String) {tree : Node}
    (ht : tree.WellPlaced) (hprogram : ∃ hashbang, tree.form = .program hashbang) :
    EditPlan.MadeFor (Survey.onProgram config plugin tree)
      (firstDecisions config plugin tree).liveness tree (planEdits config plugin tree).1 where
  wellPlaced := ht
  program := hprogram
  grounded := planEdits_grounded config plugin tree
  decides := planEdits_decides config plugin ht
  divides := planEdits_dividesOnly config plugin (by
    obtain ⟨hashbang, hform⟩ := hprogram
    exact EditPlan.isRemoved_eq_false (by rw [hform]; nofun))

end Graft
