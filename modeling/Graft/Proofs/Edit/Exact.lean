import Graft.Layout.Program
import Graft.Proofs.Config.Validation
import Graft.Proofs.Edit.Tally
/-!
Carrying out a plan does what the plan says, and nothing else.

`EditPlan.Exact` spells this out, and `planEdits_exact` says it of every program that is read.

# Nothing overlaps

An edit recognises nodes by their spans. For a plan that was made for the program that is enough:
every span that the plan holds belongs to one node, which is of the kind that the list with the span
is about. Nothing is planned inside of a statement that goes away, no value that is replaced or
bound is inside of another one, and no property both goes away and moves out.

# The counts

An edit counts what it does, node by node. So its counts are compared with the plan by two readings
of one list, the nodes that the edit comes to (`EditPlan.reached`):

- the edit counts at these nodes (`EditPlan.MadeFor.stats_tree`), each of which it comes to once;
- their spans are those of the plan, for the edit comes to everything that the plan means, unless it
  goes away together with an entry around it (`EditPlan.MadeFor.reached_of_plans`).

Where both agree the count is the number of spans. Two counts are smaller, and by how much is said:
an entry inside of an entry that goes away is not counted (`EditPlan.MadeFor.countP_isPruned`), and
neither is a call at the end of an optional chain, which stays
(`EditPlan.MadeFor.countP_isReplaced`).

# The result

The program that the edit makes has in place of each node just what the plan says of that node
(`EditPlan.performed`), and what the plan says nothing about stays as it was. The one thing that
goes away without being planned is a declaration without declarators, and no program has one before.
-/
namespace Graft

/-- Whether a span lies in another one and is not that one. -/
def Span.inside (s t : Span) : Prop := t.start ≤ s.start ∧ s.stop ≤ t.stop ∧ s ≠ t

instance (s t : Span) : Decidable (s.inside t) :=
  inferInstanceAs (Decidable (t.start ≤ s.start ∧ s.stop ≤ t.stop ∧ s ≠ t))

namespace Node

/-- The spans of the calls that are the outermost elements of optional chains. -/
def chained (n : Node) : List Span :=
  (n.parts.filter (·.form == .chain)).flatMap fun q =>
    (q.children.filter (·.form.isCall)).map Node.span

/-- A chained span is that of a call which is the outermost element of an optional chain. -/
theorem mem_chained {n : Node} {s : Span} :
    s ∈ n.chained
      ↔ ∃ q ∈ n.parts, q.form = .chain ∧ ∃ k ∈ q.children, k.form.isCall = true ∧ k.span = s := by
  simp only [chained, List.mem_flatMap, List.mem_filter, List.mem_map, beq_iff_eq]
  exact ⟨fun ⟨q, ⟨hq, hform⟩, k, ⟨hk, hcall⟩, hs⟩ => ⟨q, hq, hform, k, hk, hcall, hs⟩,
    fun ⟨q, hq, hform, k, hk, hcall, hs⟩ => ⟨q, ⟨hq, hform⟩, k, ⟨hk, hcall⟩, hs⟩⟩

end Node

namespace EditPlan

open Node Survey

variable {v : Survey} {l : Liveness} {tree : Node} {p : EditPlan} {plugin : String} {n : Node}

/-- The entries that move out of the pattern of a declarator. -/
def movedEntries (p : EditPlan) (n : Node) : List Node := (patternEntries n).filter p.isMoved

/-- An entry that moves out of a declarator stands in its pattern. -/
theorem of_mem_movedEntries {d : Node} (h : n ∈ p.movedEntries d) :
    p.isMoved n = true ∧ ∃ span pattern value, d = .node .declarator span [pattern, value]
      ∧ (∃ role, pattern.form = .objectPattern role) ∧ n ∈ pattern.children := by
  obtain ⟨hn, hmoved⟩ := List.mem_filter.mp h
  obtain ⟨span, role, own, ks, value, rfl, hn⟩ := of_mem_patternEntries hn
  exact ⟨hmoved, _, _, _, rfl, ⟨role, rfl⟩, hn⟩

/-- An entry of the pattern of a declarator that moves is among those that the declarator lets
go. -/
theorem mem_movedEntries {span : Span} {pattern value : Node}
    (hpattern : ∃ role, pattern.form = .objectPattern role) (hn : n ∈ pattern.children)
    (hmoved : p.isMoved n = true) : n ∈ p.movedEntries (.node .declarator span [pattern, value]) := by
  cases pattern with
  | node form own properties =>
      obtain ⟨role, rfl⟩ := hpattern
      exact List.mem_filter.mpr ⟨hn, hmoved⟩

namespace MadeFor

-- ============================================================ what spans belong to

/-- Every removed span is that of a statement of the program that is removed. -/
theorem exists_isRemoved (h : MadeFor v l tree p) {s : Span} (hs : s ∈ p.removedStatements) :
    ∃ n ∈ tree.parts, p.isRemoved n = true ∧ n.span = s := by
  obtain ⟨value, hn, -⟩ := h.grounded.statements s hs
  exact ⟨_, hn, by rw [isRemoved, Bool.and_eq_true, List.contains_iff_mem]; exact ⟨rfl, hs⟩, rfl⟩

/-- Every span with a substitution is that of a call of the program. -/
theorem exists_isSubstituted (h : MadeFor v l tree p) {s : Span}
    (hs : s ∈ p.substitutions.map Prod.fst) :
    ∃ n ∈ tree.parts, p.isSubstituted n = true ∧ n.span = s := by
  obtain ⟨e, he, rfl⟩ := List.mem_map.mp hs
  obtain ⟨isOptional, isPure, callee, arguments, hn, -⟩ := h.grounded.substitutions e he
  exact ⟨_, hn, by rw [isSubstituted, Bool.and_eq_true, List.contains_iff_mem]; exact ⟨rfl, hs⟩, rfl⟩

/-- Every span to bind is that of an access of the program. -/
theorem exists_isBound (h : MadeFor v l tree p) {s : Span} (hs : s ∈ p.boundMembers) :
    ∃ n ∈ tree.parts, p.isBound n = true ∧ n.span = s := by
  obtain ⟨isOptional, name, object, hn, -⟩ := h.grounded.members s hs
  exact ⟨_, hn, by rw [isBound, Bool.and_eq_true, List.contains_iff_mem]; exact ⟨rfl, hs⟩, rfl⟩

/-- Every pruned span is that of an entry of the program. -/
theorem exists_isPruned (h : MadeFor v l tree p) {s : Span} (hs : s ∈ p.removedPatterns) :
    ∃ n ∈ tree.parts, p.isPruned n = true ∧ n.span = s := by
  obtain ⟨span, pattern, value, hdeclarator, hremoved⟩ := h.divides.patterns s hs
  have hpattern : pattern ∈ tree.parts :=
    mem_parts_trans (child_mem_parts List.mem_cons_self) (kept_subset hdeclarator)
  obtain ⟨q, entry, hreaches, hspare, rfl⟩ :=
    (prunes_planPattern v l (h.wellPlaced.part hpattern)).removed s hremoved
  refine ⟨entry, mem_parts_trans (child_mem_parts hspare.mem)
    (mem_parts_trans hreaches.mem_parts hpattern), ?_, rfl⟩
  rw [isPruned, Bool.and_eq_true, List.contains_iff_mem]
  refine ⟨?_, hs⟩
  rcases hspare.kind with hrest | ⟨-, _, _, _, _, rfl, -⟩
  · rw [hrest]; rfl
  · rfl

/-- Every span that moves is that of an entry of the program. -/
theorem exists_isMoved (h : MadeFor v l tree p) {s : PropertySplit}
    (hs : s ∈ p.splits.flatMap Prod.snd) :
    ∃ n ∈ tree.parts, p.isMoved n = true ∧ n.span = s.property := by
  obtain ⟨⟨span, splits⟩, he, hse⟩ := List.mem_flatMap.mp hs
  obtain ⟨pattern, value, hdeclarator, hobject, rfl⟩ := h.divides.splits _ he
  have hpattern : pattern ∈ tree.parts :=
    mem_parts_trans (child_mem_parts List.mem_cons_self) (kept_subset hdeclarator)
  obtain ⟨entry, hentry⟩ := (prunes_planPattern v l (h.wellPlaced.part hpattern)).splits s hse
  rw [pattern_of_objectPattern hobject] at hentry
  obtain ⟨isShorthand, key, value', rfl, -⟩ := hentry.kind
  refine ⟨_, mem_parts_trans (child_mem_parts hentry.mem) hpattern, ?_, rfl⟩
  show ((p.splits.flatMap Prod.snd).find? fun x => x.property == s.property).isSome = true
  rw [List.find?_isSome]
  exact ⟨s, hs, beq_self_eq_true _⟩

/-- Every span of a declarator that is divided or may go away is that of a declarator of the
program. -/
theorem exists_isDivided (h : MadeFor v l tree p) {s : Span}
    (hs : s ∈ p.splits.map Prod.fst ++ p.droppable) :
    ∃ n ∈ tree.parts, p.isDivided n = true ∧ n.span = s := by
  have hdeclarator : ∃ pattern value, .node .declarator s [pattern, value] ∈ p.kept tree := by
    rcases List.mem_append.mp hs with hs | hs
    · obtain ⟨e, he, rfl⟩ := List.mem_map.mp hs
      obtain ⟨pattern, value, hdeclarator, -⟩ := h.divides.splits e he
      exact ⟨pattern, value, hdeclarator⟩
    · exact h.divides.droppable s hs
  obtain ⟨pattern, value, hdeclarator⟩ := hdeclarator
  refine ⟨_, kept_subset hdeclarator, ?_, rfl⟩
  rw [isDivided, Bool.and_eq_true, Bool.or_eq_true, List.contains_iff_mem, List.contains_iff_mem]
  exact ⟨rfl, List.mem_append.mp hs⟩

-- ============================================================ what the edit comes to

/-- The edit comes to a node that the plan means, unless the node goes away with an entry. -/
theorem reached_of_plans (h : MadeFor v l tree p) (hn : n ∈ tree.parts) (hplans : p.plans n = true)
    (hkept : p.isPruned n = false) (above : Form) : ∃ a, (a, n) ∈ p.reached tree above := by
  refine (reached_or_below hn above).resolve_right ?_
  rintro ⟨m, hm, hgoes | hgoes, k, hk, hnk⟩
  · obtain rfl := h.eq_of_removed hm hgoes (mem_parts_of_child hk hnk) hplans
    exact Nat.lt_irrefl _
      ((h.wellPlaced.part hn).rank_lt hk hnk (isBare_eq_false_of_plans hplans) rfl)
  · rw [h.pruned_inside hm hgoes (mem_parts_of_child hk hnk) hplans] at hkept
    cases hkept

/-- The edit comes to a declarator that stays. -/
theorem reached_of_kept (h : MadeFor v l tree p) {span : Span} {children : List Node}
    (hn : .node .declarator span children ∈ p.kept tree) (above : Form) :
    ∃ a, (a, .node .declarator span children) ∈ p.reached tree above := by
  refine (reached_or_below (kept_subset hn) above).resolve_right ?_
  rintro ⟨m, hm, hgoes | hgoes, k, hk, hnk⟩
  · exact not_mem_of_kept h.wellPlaced h.stays hn (isBare_node ..) hm hgoes
      (mem_parts_of_child hk hnk)
  · have hnaming := h.isNaming_of_pruned hm hgoes (mem_parts_of_child hk hnk)
    cases hnaming

/-- Entries that go away are told apart by their spans. -/
theorem eq_of_isPruned (h : MadeFor v l tree p) {m : Node} (hm : m ∈ tree.parts)
    (hn : n ∈ tree.parts) (hmg : p.isPruned m = true) (hng : p.isPruned n = true)
    (hspan : m.span = n.span) : m = n := by
  obtain ⟨_, pattern, _, q, hdeclarator, hreaches, hspare⟩ := h.pruned hm hmg
  have hpattern : pattern ∈ tree.parts :=
    mem_parts_trans (child_mem_parts List.mem_cons_self) (kept_subset hdeclarator)
  have hform : n.form.isEntry = true := by
    rw [isPruned, Bool.and_eq_true] at hng
    exact hng.1
  exact eq_of_spareEntry h.wellPlaced (mem_parts_trans hreaches.mem_parts hpattern) hspare hn hform
    (isBare_eq_false_of_isPruned hng) hspan

-- ============================================================ counts

/-- An edit comes to as many statements that go away as the plan removes spans. -/
theorem countP_isRemoved (h : MadeFor v l tree p) (above : Form) :
    (p.reached tree above).countP (fun a => p.isRemoved a.2) = p.removedStatements.toFinset.card := by
  have hform : ∀ a : Form × Node, p.isRemoved a.2 = true → a.2.form = .expressionStatement :=
    fun a ha => form_of_isRemoved ha
  have hbare : ∀ a : Form × Node, p.isRemoved a.2 = true → a.2.isBare = false := fun a ha =>
    isBare_eq_false_of_form (by rw [hform a ha]; rfl)
  refine countP_reached h.wellPlaced hbare (fun a ha b hb hsa hsb hspan => ?_) fun s => ?_
  · exact h.wellPlaced.eq_of_span_eq (mem_parts_of_reached ha) (mem_parts_of_reached hb)
      (hbare a hsa) (hbare b hsb) hspan (by rw [hform a hsa, hform b hsb])
  · rw [List.mem_toFinset]
    constructor
    · intro hs
      obtain ⟨n, hn, hgoes, rfl⟩ := h.exists_isRemoved hs
      obtain ⟨a, ha⟩ := h.reached_of_plans hn (by simp [plans, hgoes])
        (isPruned_eq_false (by rw [form_of_isRemoved hgoes]; rfl)) above
      exact ⟨_, ha, hgoes, rfl⟩
    · rintro ⟨a, -, hgoes, rfl⟩
      rw [isRemoved, Bool.and_eq_true, List.contains_iff_mem] at hgoes
      exact hgoes.2

/-- What is put in another form is no entry, so it is not pruned. -/
theorem isPruned_eq_false_of_isRewritten (hr : p.isRewritten n = true) : p.isPruned n = false := by
  refine isPruned_eq_false ?_
  rw [isRewritten, Bool.or_eq_true, isSubstituted, isBound, Bool.and_eq_true, Bool.and_eq_true] at hr
  rcases hr with ⟨hform, -⟩ | ⟨hform, -⟩
  · obtain ⟨_, _, heq⟩ := exists_form_of_isCall hform
    rw [heq]
    rfl
  · obtain ⟨_, _, heq⟩ := exists_form_of_isMember hform
    rw [heq]
    rfl

/-- An edit binds as many accesses as the plan has spans to bind. -/
theorem countP_isBound (h : MadeFor v l tree p) (above : Form) :
    (p.reached tree above).countP (fun a => p.isBound a.2) = p.boundMembers.toFinset.card := by
  have hrewritten : ∀ n : Node, p.isBound n = true → p.isRewritten n = true := fun n hn => by
    rw [isRewritten, hn, Bool.or_true]
  refine countP_reached h.wellPlaced
    (fun a ha => isBare_eq_false_of_isRewritten (hrewritten _ ha))
    (fun a ha b hb hsa hsb hspan => ?_) fun s => ?_
  · exact h.wellPlaced.eq_of_span_eq (mem_parts_of_reached ha) (mem_parts_of_reached hb)
      (isBare_eq_false_of_isRewritten (hrewritten _ hsa))
      (isBare_eq_false_of_isRewritten (hrewritten _ hsb)) hspan
      ((rank_of_isRewritten (hrewritten _ hsa)).trans (rank_of_isRewritten (hrewritten _ hsb)).symm)
  · rw [List.mem_toFinset]
    constructor
    · intro hs
      obtain ⟨n, hn, hbound, rfl⟩ := h.exists_isBound hs
      obtain ⟨a, ha⟩ := h.reached_of_plans hn (by simp [plans, hrewritten n hbound])
        (isPruned_eq_false_of_isRewritten (hrewritten n hbound)) above
      exact ⟨_, ha, hbound, rfl⟩
    · rintro ⟨a, -, hbound, rfl⟩
      rw [isBound, Bool.and_eq_true, List.contains_iff_mem] at hbound
      exact hbound.2

/-- A call under a node is the outermost element of a chain if it has the span of one. -/
theorem eq_chain_iff_of_under (h : MadeFor v l tree p) {q : Node} {a : Form} (hq : q ∈ tree.parts)
    (hnq : n ∈ q.children) (habove : q.form.Under a) (hcall : n.form.isCall = true) :
    a = .chain ↔ n.span ∈ tree.chained := by
  obtain ⟨_, _, hform⟩ := exists_form_of_isCall hcall
  have hbare : n.isBare = false := isBare_eq_false_of_form (by rw [hform]; rfl)
  rw [mem_chained]
  constructor
  · rintro rfl
    refine ⟨q, hq, ?_, n, hnq, hcall, rfl⟩
    rcases habove with heq | ⟨-, heq⟩
    · exact heq.symm
    · cases heq
  · rintro ⟨q', hq', hchain, k, hk, hkcall, hspan⟩
    obtain ⟨_, _, hkform⟩ := exists_form_of_isCall hkcall
    obtain rfl := h.wellPlaced.eq_of_span_eq (mem_parts_trans (child_mem_parts hk) hq')
      (mem_parts_trans (child_mem_parts hnq) hq) (isBare_eq_false_of_form (by rw [hkform]; rfl))
      hbare hspan (by rw [hkform, hform]; rfl)
    obtain rfl := h.wellPlaced.parent_eq hq hq' hnq hk hbare
    rcases habove with heq | ⟨hcase, -⟩
    · exact heq.trans hchain
    · rw [hchain] at hcase
      cases hcase

/-- A call that a program has is the outermost element of a chain if it has the span of one. -/
theorem above_eq_chain_iff (h : MadeFor v l tree p) {above a : Form}
    (hr : (a, n) ∈ p.reached tree above) (hcall : n.form.isCall = true) :
    a = .chain ↔ n.span ∈ tree.chained := by
  rcases under_of_reached hr with heq | ⟨q, hq, hnq, habove⟩
  · obtain ⟨-, rfl⟩ := Prod.mk.inj heq
    obtain ⟨hashbang, hprogram⟩ := h.program
    obtain ⟨_, _, hform⟩ := exists_form_of_isCall hcall
    rw [hprogram] at hform
    cases hform
  · exact h.eq_chain_iff_of_under hq hnq habove hcall

/-- An edit replaces a call for every span whose names make a chain, but for the calls that end an
optional chain. -/
theorem countP_isReplaced (h : MadeFor v l tree p) (above : Form) :
    (p.reached tree above).countP (fun a => p.isReplaced a.1 a.2)
      = ((p.substitutions.map Prod.fst).toFinset.filter fun s =>
          p.substitutions.lookup s ≠ some [] ∧ s ∉ tree.chained).card := by
  have hsubstituted : ∀ a : Form × Node, p.isReplaced a.1 a.2 = true →
      p.isRewritten a.2 = true ∧ a.2.form.isCall = true ∧ a.1 ≠ .chain
        ∧ ((p.substitutions.lookup a.2.span).bind ofChain?).isSome = true := by
    intro a ha
    simp only [isReplaced, Bool.and_eq_true, bne_iff_ne] at ha
    obtain ⟨⟨hcall, hchain⟩, hsome⟩ := ha
    refine ⟨?_, hcall, hchain, hsome⟩
    obtain ⟨names, hlookup⟩ : ∃ names, p.substitutions.lookup a.2.span = some names := by
      cases hlookup : p.substitutions.lookup a.2.span with
      | none => rw [hlookup] at hsome; cases hsome
      | some names => exact ⟨names, rfl⟩
    rw [isRewritten, isSubstituted, hcall,
      List.contains_iff_mem.mpr (List.mem_map_of_mem (mem_of_lookup hlookup))]
    rfl
  refine countP_reached h.wellPlaced
    (fun a ha => isBare_eq_false_of_isRewritten (hsubstituted a ha).1)
    (fun a ha b hb hsa hsb hspan => ?_) fun s => ?_
  · -- rewritten nodes are told apart by their spans
    have hra := (hsubstituted a hsa).1
    have hrb := (hsubstituted b hsb).1
    exact h.wellPlaced.eq_of_span_eq (mem_parts_of_reached ha) (mem_parts_of_reached hb)
      (isBare_eq_false_of_isRewritten hra) (isBare_eq_false_of_isRewritten hrb) hspan
      ((rank_of_isRewritten hra).trans (rank_of_isRewritten hrb).symm)
  · rw [Finset.mem_filter, List.mem_toFinset]
    constructor
    · -- the edit comes to every call that the plan means, for no entry of a pattern is a call
      rintro ⟨hs, hlookup, hchained⟩
      obtain ⟨n, hn, hsub, rfl⟩ := h.exists_isSubstituted hs
      have hr : p.isRewritten n = true := by rw [isRewritten, hsub, Bool.true_or]
      obtain ⟨a, ha⟩ := h.reached_of_plans hn (by simp [plans, hr])
        (isPruned_eq_false_of_isRewritten hr) above
      have hcall : n.form.isCall = true := (Bool.and_eq_true_iff.mp hsub).1
      refine ⟨_, ha, ?_, rfl⟩
      -- the call stands under a chain only if its span is one of those that are left out
      have hchain : a ≠ .chain := fun heq => hchained ((h.above_eq_chain_iff ha hcall).mp heq)
      cases hnames : p.substitutions.lookup n.span with
      | none =>
          obtain ⟨e, he, hspan⟩ := List.mem_map.mp hs
          simpa [hspan] using List.lookup_eq_none_iff.mp hnames e he
      | some names =>
          cases names with
          | nil => exact absurd hnames hlookup
          | cons first names =>
              rw [isReplaced, hcall, hnames, bne_iff_ne.mpr hchain]
              rfl
    · -- a call that is replaced has names, so its span is in the plan, and it does not stand under
      -- a chain
      rintro ⟨⟨a, n⟩, ha, hreplaced, rfl⟩
      obtain ⟨hr, hcall, hchain, hsome⟩ := hsubstituted _ hreplaced
      refine ⟨?_, fun hnames => ?_, fun hchained => ?_⟩
      · cases hlookup : p.substitutions.lookup n.span with
        | none => rw [hlookup] at hsome; cases hsome
        | some names => exact List.mem_map_of_mem (mem_of_lookup hlookup)
      · rw [hnames] at hsome
        cases hsome
      · exact hchain ((h.above_eq_chain_iff ha hcall).mpr hchained)

/-- The edit comes to the entries that go away and lie in no other one. -/
theorem countP_isPruned (h : MadeFor v l tree p) (above : Form) :
    (p.reached tree above).countP (fun a => p.isPruned a.2)
      = (p.removedPatterns.toFinset.filter fun s =>
          ∀ t ∈ p.removedPatterns, ¬ s.inside t).card := by
  have hmem : ∀ {n : Node}, p.isPruned n = true → n.span ∈ p.removedPatterns := by
    intro n hn
    rw [isPruned, Bool.and_eq_true, List.contains_iff_mem] at hn
    exact hn.2
  refine countP_reached h.wellPlaced (fun a ha => isBare_eq_false_of_isPruned ha)
    (fun a ha b hb => h.eq_of_isPruned (mem_parts_of_reached ha) (mem_parts_of_reached hb))
    fun s => ?_
  rw [Finset.mem_filter, List.mem_toFinset]
  constructor
  · rintro ⟨hs, hout⟩
    obtain ⟨n, hn, hgoes, rfl⟩ := h.exists_isPruned hs
    -- an edit that does not come to the entry stops above it, at a statement or at another entry;
    -- the span would lie in that of the entry, and no statement has an entry in it
    rcases reached_or_below (p := p) hn above with ⟨a, ha⟩ | ⟨m, hm, hm', k, hk, hnk⟩
    · exact ⟨_, ha, hgoes, rfl⟩
    have hnm := mem_parts_of_child hk hnk
    have hbare := isBare_eq_false_of_isPruned hgoes
    have hne : n ≠ m := by
      rintro rfl
      exact Nat.lt_irrefl _ ((h.wellPlaced.part hn).rank_lt hk hnk hbare rfl)
    rcases hm' with hm' | hm'
    · exact absurd (h.eq_of_removed hm hm' hnm (by simp [plans, hgoes])) hne
    · have hin := (h.wellPlaced.part hm).within hnm hbare
      exact absurd ⟨hin.start, hin.stop, fun hspan => hne (h.eq_of_isPruned hn hm hgoes hm' hspan)⟩
        (hout m.span (hmem hm'))
  · -- an entry around this one would have stopped the edit
    rintro ⟨a, ha, hgoes, rfl⟩
    refine ⟨hmem hgoes, fun t ht hin => ?_⟩
    obtain ⟨m, hm, hm', rfl⟩ := h.exists_isPruned ht
    have hbare := isBare_eq_false_of_isPruned hgoes
    have hmb := isBare_eq_false_of_isPruned hm'
    obtain ⟨hstart, hstop, hne⟩ := hin
    have hbelow := h.wellPlaced.mem_parts_of_inside (mem_parts_of_reached ha) hm hbare hmb
      hstart hstop hne
    cases m with
    | node form span children =>
      rcases mem_parts_node.mp hbelow with heq | ⟨k, hk, hnk⟩
      · exact hne (congrArg Node.span heq)
      · have hstays := stays_of_reached h.wellPlaced ha hbare hm hk hnk
        rw [hm', Bool.or_true] at hstays
        cases hstays

/-- A declarator is divided into as many declarators as entries move out of its pattern. -/
theorem length_movedFrom (h : MadeFor v l tree p) (hn : n ∈ tree.parts) :
    (p.movedFrom n).length = (p.movedEntries n).length := by
  have hentries : ∀ k ∈ patternEntries n, k ∈ tree.parts := by
    intro k hk
    obtain ⟨_, role, own, ks, _, rfl, hk⟩ := of_mem_patternEntries hk
    have hpattern : k ∈ (node (.objectPattern role) own ks).parts := child_mem_parts hk
    exact mem_parts_trans (mem_parts_of_child List.mem_cons_self hpattern) hn
  have hone : ∀ k ∈ patternEntries n, (p.movedOut? k).isSome = p.isMoved k := by
    intro k hk
    cases hs : p.split? k with
    | none =>
        have hstays : p.isMoved k = false := by rw [isMoved, hs]; rfl
        rw [movedOut?_of_stays hstays, hstays]
        rfl
    | some s =>
        obtain ⟨_, _, _, hmoves⟩ := h.moves (hentries k hk) hs
        obtain ⟨isShorthand, key, name, rfl, -⟩ := hmoves.entry.kind
        simp only [movedOut?, isMoved, hs, Option.map_some, Option.isSome_some]
  rw [movedFrom, movedEntries, List.length_filterMap_eq_countP, ← List.countP_eq_length_filter]
  exact List.countP_congr fun k hk => by rw [hone k hk]

/-- An edit moves as many entries as the splits of the plan name. -/
theorem length_moved (h : MadeFor v l tree p) (above : Form) :
    ((p.reached tree above).flatMap fun a => p.movedFrom a.2).length
      = ((p.splits.flatMap Prod.snd).map PropertySplit.property).toFinset.card := by
  have hlength : ((p.reached tree above).flatMap fun a => p.movedFrom a.2).length
      = ((p.reached tree above).flatMap fun a => p.movedEntries a.2).length := by
    rw [List.length_flatMap, List.length_flatMap]
    exact congrArg List.sum (List.map_congr_left fun a ha =>
      h.length_movedFrom (mem_parts_of_reached ha))
  -- an entry that moves out is a node of the program, and told by its span
  have hmem : ∀ a ∈ p.reached tree above, ∀ n ∈ p.movedEntries a.2,
      p.isMoved n = true ∧ n ∈ tree.parts := by
    intro a ha n hn
    obtain ⟨hmoved, span, pattern, value, heq, -, hnp⟩ := of_mem_movedEntries hn
    have hd := mem_parts_of_reached ha
    rw [heq] at hd
    exact ⟨hmoved, mem_parts_trans (child_mem_parts hnp)
      (mem_parts_trans (child_mem_parts List.mem_cons_self) hd)⟩
  have hrank : ∀ {n : Node}, p.isMoved n = true → n.form.rank = 3 := by
    intro n hmoved
    exact rank_of_isPatternProperty (isPatternProperty_of_isMoved hmoved)
  have hentries : ((p.reached tree above).flatMap fun a => p.movedEntries a.2).Nodup := by
    refine List.nodup_flatMap.mpr ⟨fun a ha => ?_, ?_⟩
    · unfold movedEntries patternEntries
      split
      case h_2 => exact .nil
      case h_1 span role own properties value heq =>
        have hw := h.wellPlaced.part (mem_parts_of_reached ha)
        rw [heq] at hw
        have hparts := List.pairwise_filter.mp
          (hw.part (child_mem_parts List.mem_cons_self)).pairwise_ne
        refine List.pairwise_filter.mpr ((hparts.sublist (children_sublist_parts _)).imp
          fun {m n} hmn hm hn => hmn ?_ ?_)
        · rw [isBare_eq_false_of_isMoved hm]; rfl
        · rw [isBare_eq_false_of_isMoved hn]; rfl
    · refine (reached_pairwise h.wellPlaced above).imp_of_mem fun {a b} ha hb hab => ?_
      intro n hn hn'
      obtain ⟨hmoved, _, pattern, _, heq, ⟨role, hrole⟩, hnp⟩ := of_mem_movedEntries hn
      obtain ⟨-, _, pattern', _, heq', -, hnp'⟩ := of_mem_movedEntries hn'
      have hd := mem_parts_of_reached ha
      have hd' := mem_parts_of_reached hb
      refine hab (by rw [heq]; exact isBare_node ..) (by rw [heq']; exact isBare_node ..) ?_
      rw [heq] at hd ⊢
      rw [heq'] at hd' ⊢
      obtain rfl := h.wellPlaced.parent_eq
        (mem_parts_trans (child_mem_parts List.mem_cons_self) hd)
        (mem_parts_trans (child_mem_parts List.mem_cons_self) hd') hnp hnp'
        (isBare_eq_false_of_isMoved hmoved)
      exact h.wellPlaced.parent_eq hd hd' List.mem_cons_self List.mem_cons_self
        (isBare_eq_false_of_form (by rw [hrole]; rfl))
  have hnodup : (((p.reached tree above).flatMap fun a => p.movedEntries a.2).map Node.span).Nodup := by
    refine List.Nodup.map_on (fun m hm n hn hspan => ?_) hentries
    obtain ⟨a, ha, hm⟩ := List.mem_flatMap.mp hm
    obtain ⟨b, hb, hn⟩ := List.mem_flatMap.mp hn
    obtain ⟨hmm, hmt⟩ := hmem a ha m hm
    obtain ⟨hnm, hnt⟩ := hmem b hb n hn
    exact h.wellPlaced.eq_of_span_eq hmt hnt (isBare_eq_false_of_isMoved hmm)
      (isBare_eq_false_of_isMoved hnm) hspan ((hrank hmm).trans (hrank hnm).symm)
  rw [hlength, ← List.length_map (f := Node.span), ← List.toFinset_card_of_nodup hnodup]
  congr 1
  ext s
  simp only [List.mem_toFinset, List.mem_map]
  constructor
  · rintro ⟨n, hn, rfl⟩
    obtain ⟨a, ha, hn⟩ := List.mem_flatMap.mp hn
    obtain ⟨s, hs⟩ := Option.isSome_iff_exists.mp (hmem a ha n hn).1
    obtain ⟨-, hspan, e, he, hse⟩ := split?_cases hs
    exact ⟨s, List.mem_flatMap.mpr ⟨e, he, hse⟩, hspan⟩
  · rintro ⟨s, hs, rfl⟩
    obtain ⟨n, hn, hmoved, hspan⟩ := h.exists_isMoved hs
    obtain ⟨s', hs'⟩ := Option.isSome_iff_exists.mp hmoved
    obtain ⟨_, _, _, hmoves⟩ := h.moves hn hs'
    obtain ⟨a, ha⟩ := h.reached_of_kept hmoves.declarator above
    exact ⟨n, List.mem_flatMap.mpr ⟨_, ha,
      mem_movedEntries hmoves.entry.pattern hmoves.entry.mem hmoved⟩, hspan⟩

end MadeFor

-- ============================================================ exactly the plan

/-- All spans that a plan holds. -/
def spans (p : EditPlan) : List Span :=
  p.removedStatements ++ p.removedPatterns ++ p.substitutions.map Prod.fst ++ p.boundMembers
    ++ (p.splits.flatMap Prod.snd).map PropertySplit.property
    ++ (p.splits.map Prod.fst ++ p.droppable)

/-- What it takes for an edit to do what its plan says and nothing else. -/
structure Exact (p : EditPlan) (plugin : String) (tree : Node) : Prop where
  /-- Every span that the plan holds is that of a node that the plan means. -/
  named : ∀ s ∈ p.spans, ∃ n ∈ tree.parts, p.plans n = true ∧ n.span = s
  /-- Nothing is planned inside of a statement that goes away. -/
  statements : ∀ st ∈ tree.parts, p.isRemoved st = true →
    ∀ n ∈ st.parts, p.plans n = true → n = st
  /-- No value that is replaced or bound is inside of another. -/
  values : ∀ m ∈ tree.parts, p.isRewritten m = true →
    ∀ n ∈ m.parts, p.isRewritten n = true → n = m
  /-- No property goes away and moves out. -/
  properties : ∀ s ∈ p.splits.flatMap Prod.snd, s.property ∉ p.removedPatterns
  statementsElided :
    (p.apply plugin tree).2.statementsElided = p.removedStatements.toFinset.card
  membersBound : (p.apply plugin tree).2.membersBound = p.boundMembers.toFinset.card
  declaratorsSplit : (p.apply plugin tree).2.declaratorsSplit
    = ((p.splits.flatMap Prod.snd).map PropertySplit.property).toFinset.card
  /-- An entry that goes away with an entry around it is not counted. -/
  patternsPruned : (p.apply plugin tree).2.patternsPruned
    = (p.removedPatterns.toFinset.filter fun s => ∀ t ∈ p.removedPatterns, ¬ s.inside t).card
  /-- A call at the end of an optional chain stays, and so does one for which no name stands. -/
  importsSubstituted : (p.apply plugin tree).2.importsSubstituted
    = ((p.substitutions.map Prod.fst).toFinset.filter fun s =>
        p.substitutions.lookup s ≠ some [] ∧ s ∉ tree.chained).card
  /-- The result is the program with what the plan says in place of each node. -/
  result : ∀ above, p.performed plugin tree above = [(p.apply plugin tree).1]
  /-- Whatever the plan says nothing about is in the result as it was. -/
  unplanned : ∀ n ∈ tree.parts, (∀ m ∈ n.parts, p.plans m = false ∧ declaresNothing m = false) →
    ∀ above, p.performed plugin n above = [n]

namespace MadeFor

/-- Every span that the plan holds is that of a node it has something to say of. -/
theorem exists_plans (h : MadeFor v l tree p) {s : Span} (hs : s ∈ p.spans) :
    ∃ n ∈ tree.parts, p.plans n = true ∧ n.span = s := by
  have hplans : ∀ {sel : Node → Bool}, (∀ n, sel n = true → p.plans n = true) →
      (∃ n ∈ tree.parts, sel n = true ∧ n.span = s) →
        ∃ n ∈ tree.parts, p.plans n = true ∧ n.span = s :=
    fun hsel ⟨n, hn, hselected, hspan⟩ => ⟨n, hn, hsel n hselected, hspan⟩
  simp only [spans, List.mem_append, or_assoc] at hs
  rcases hs with hs | hs | hs | hs | hs | hs
  · exact hplans (fun n hn => by simp [plans, hn]) (h.exists_isRemoved hs)
  · exact hplans (fun n hn => by simp [plans, hn]) (h.exists_isPruned hs)
  · exact hplans (fun n hn => by simp [plans, isRewritten, hn]) (h.exists_isSubstituted hs)
  · exact hplans (fun n hn => by simp [plans, isRewritten, hn]) (h.exists_isBound hs)
  · obtain ⟨split, hsplit, rfl⟩ := List.mem_map.mp hs
    exact hplans (fun n hn => by simp [plans, hn]) (h.exists_isMoved hsplit)
  · exact hplans (fun n hn => by simp [plans, hn])
      (h.exists_isDivided (List.mem_append.mpr hs))

/-- No entry both moves and goes away. -/
theorem not_removed_of_split (h : MadeFor v l tree p) {s : PropertySplit}
    (hs : s ∈ p.splits.flatMap Prod.snd) : s.property ∉ p.removedPatterns := by
  intro hgoes
  obtain ⟨n, hn, hmoved, hspan⟩ := h.exists_isMoved hs
  have hpruned : p.isPruned n = true := by
    rw [isPruned, Bool.and_eq_true, List.contains_iff_mem, hspan]
    exact ⟨isEntry_of_isPatternProperty (isPatternProperty_of_isMoved hmoved), hgoes⟩
  rw [h.not_moved_of_pruned hn hpruned] at hmoved
  cases hmoved

/-- An edit does what a plan that was made for the program says, and nothing else. -/
theorem exact (h : MadeFor v l tree p) (plugin : String) : p.Exact plugin tree := by
  have hstats : (p.apply plugin tree).2 = _ := (h.stats_tree .absent).trans (tally_eq _)
  exact
    { named := fun s hs => h.exists_plans hs
      statements := fun st hst hgoes n hn hplans => h.eq_of_removed hst hgoes hn hplans
      values := fun m hm hmr n hn hnr => h.eq_of_rewritten hm hmr hn hnr
      properties := fun s hs => h.not_removed_of_split hs
      statementsElided := by rw [hstats]; exact h.countP_isRemoved .absent
      membersBound := by rw [hstats]; exact h.countP_isBound .absent
      declaratorsSplit := by rw [hstats]; exact h.length_moved .absent
      patternsPruned := by rw [hstats]; exact h.countP_isPruned .absent
      importsSubstituted := by rw [hstats]; exact h.countP_isReplaced .absent
      result := fun above => h.performed_tree above
      unplanned := fun n _ hplans above => performed_of_unplanned (fun m hm => (hplans m hm).1)
        (fun m hm => (hplans m hm).2) above }

end MadeFor

end EditPlan

/-- For every call that is replaced there are names, if the settings make sense. -/
theorem chain_ne_nil_of_planEdits {config : TransformConfig} (plugin : String) (tree : Node)
    (h : config.validate = .ok ()) {s : Span} :
    (planEdits config plugin tree).1.substitutions.lookup s ≠ some [] := by
  intro hlookup
  obtain ⟨_, _, callee, arguments, -, hchain⟩ :=
    (planEdits_grounded config plugin tree).substitutions _ (EditPlan.mem_of_lookup hlookup)
  unfold Survey.substitutionFor? at hchain
  split at hchain
  · split at hchain
    · obtain ⟨specifier, -, hchain⟩ := Option.bind_eq_some_iff.mp hchain
      exact TransformConfig.chain_ne_nil h hchain rfl
    · cases hchain
  · cases hchain

/-- Applying a plan performs exactly the plan: nothing that is planned overlaps, every count is the
number of things of its kind that are planned, and the result is the program with just these things
done. -/
theorem planEdits_exact {config : TransformConfig} {plugin source : String} {p : Program}
    (hp : Program.parse? source = some p) :
    (planEdits config plugin p.tree).1.Exact plugin p.tree
      ∧ (config.validate = .ok () →
          ∀ s, (planEdits config plugin p.tree).1.substitutions.lookup s ≠ some []) :=
  ⟨(planEdits_madeFor config plugin (Program.wellPlaced_of_parse? hp)
      (Program.form_of_parse? hp)).exact plugin,
    fun hvalid _ => chain_ne_nil_of_planEdits plugin p.tree hvalid⟩

/-- A program with an edit of every kind, a property that goes away inside of another, and a call
that stays at the end of an optional chain: what the plan has, what is counted, and the program that
is left. -/
theorem planEdits_exact_for_each_edit :
    ∃ p, Program.parse? ("const {after, x: {y}} = BdApi; if (after) BdApi.getModule(after);"
        ++ "after(require?.('react'), require('react')); f(BdApi.saveData);") = some p
      ∧ (planEdits .standard "p" p.tree).1.removedPatterns.length = 2
      ∧ (planEdits .standard "p" p.tree).1.substitutions.length = 2
      ∧ ((planEdits .standard "p" p.tree).1.apply "p" p.tree).2 = ⟨1, 1, 1, 1, 1⟩
      ∧ ((planEdits .standard "p" p.tree).1.apply "p" p.tree).1.render p.comments
        = "const after = BdApi.after.bind(null, \"p\");\nif (after);\n"
          ++ "after(require?.(\"react\"), BdApi.React);\nf(BdApi.saveData.bind(null, \"p\"));\n"
      ∧ (planEdits .standard "p" p.tree).1.Exact "p" p.tree
      ∧ (TransformConfig.standard.validate = .ok () →
          ∀ s, (planEdits .standard "p" p.tree).1.substitutions.lookup s ≠ some []) := by
  have h : (Program.parse? ("const {after, x: {y}} = BdApi; if (after) BdApi.getModule(after);"
        ++ "after(require?.('react'), require('react')); f(BdApi.saveData);")).any
      (fun p =>
        (planEdits .standard "p" p.tree).1.removedPatterns.length == 2
        && (planEdits .standard "p" p.tree).1.substitutions.length == 2
        && ((planEdits .standard "p" p.tree).1.apply "p" p.tree).2 == ⟨1, 1, 1, 1, 1⟩
        && ((planEdits .standard "p" p.tree).1.apply "p" p.tree).1.render p.comments
          == "const after = BdApi.after.bind(null, \"p\");\nif (after);\n"
            ++ "after(require?.(\"react\"), BdApi.React);\nf(BdApi.saveData.bind(null, \"p\"));\n")
      = true := by
    decide +kernel
  obtain ⟨p, hp, h⟩ := (Option.any_eq_true _ _).mp h
  simp only [Bool.and_eq_true, beq_iff_eq] at h
  obtain ⟨⟨⟨hpatterns, hsubstitutions⟩, hstats⟩, htext⟩ := h
  exact ⟨p, hp, hpatterns, hsubstitutions, hstats, htext, planEdits_exact hp⟩

end Graft
