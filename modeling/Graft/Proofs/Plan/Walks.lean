import Graft.Proofs.Edit.Access
import Graft.Proofs.Edit.Kept
/-!
Where the two walks of the planner come to, and where they do not.

- The first walk goes no further where it decides something, so what it decides about stands apart
  (`planEdits_decides`): nothing of it is inside of anything else. The visits of children that stand
  one after the other decide about nodes that stand one after the other (`Survey.visitAll_decides`).
- The second walk leaves out the statements that the first one gives up, so what it decides about
  patterns is about declarators that stay (`planEdits_dividesOnly`).
- It lets a declarator go away with an empty pattern only in a declaration that stands among
  statements, where a declaration can go away too (`planEdits_lists`). The walk is told by a flag
  whether that is so, and the flag is right at every node that it comes to
  (`Survey.visitPatterns_lists`).
-/
namespace Graft

namespace Node

/-- Whether two nodes stand one after the other. -/
def Apart (m n : Node) : Prop := m.span.stop ≤ n.span.start ∨ n.span.stop ≤ m.span.start

/-- Of two nodes that stand apart none is a part of the other. -/
theorem Apart.not_mem {m n : Node} (h : m.Apart n) (hw : m.WellPlaced) (hne : n ≠ m)
    (hbare : n.isBare = false) : n ∉ m.parts := by
  intro hn
  obtain ⟨hstart, hstop, hproper, -⟩ := hw.within hn hbare
  have hlt := hproper hne
  rcases h with h | h <;> omega

theorem Apart.symm {m n : Node} (h : m.Apart n) : n.Apart m := Or.symm h

/-- Parts of two nodes, the first of which ends before the second one begins. -/
theorem apart_of_parts {k k' m n : Node} (hk : k.WellPlaced) (hk' : k'.WellPlaced)
    (h : k.span.stop ≤ k'.span.start) (hm : m ∈ k.parts) (hn : n ∈ k'.parts)
    (hmb : m.isBare = false) (hnb : n.isBare = false) : m.Apart n :=
  .inl (Nat.le_trans (hk.within hm hmb).stop (Nat.le_trans h (hk'.within hn hnb).start))

/-- Whether a node stands as a value somewhere in some trees; `isValue` says so of the trees
themselves. -/
def StandsAsValue (ts : List Node) (isValue : Bool) (n : Node) : Prop :=
  (n ∈ ts ∧ isValue = true)
    ∨ ∃ t ∈ ts, ∃ q ∈ t.parts, q.form.holdsValues = true ∧ n ∈ q.children

end Node

/-- Whether a form is a call. -/
def Form.isCall : Form → Bool
  | .call .. => true
  | _ => false

namespace Survey

open Node

variable {v : Survey} {l : Liveness}

-- ============================================================ the first walk

/-- What the first walk adds to a plan when it decides about some nodes of some trees. -/
structure Decides (ts : List Node) (isValue : Bool) (ns : List Node) (p q : EditPlan) : Prop where
  parts : ∀ n ∈ ns, n.isBare = false ∧ ∃ t ∈ ts, n ∈ t.parts
  apart : ns.Pairwise Apart
  statements : ∀ s ∈ q.removedStatements, s ∈ p.removedStatements
    ∨ ∃ n ∈ ns, n.form = .expressionStatement ∧ n.span = s
  substitutions : ∀ e ∈ q.substitutions, e ∈ p.substitutions
    ∨ ∃ n ∈ ns, n.form.isCall = true ∧ n.span = e.1
  members : ∀ s ∈ q.boundMembers, s ∈ p.boundMembers
    ∨ ∃ n ∈ ns, n.form.isMember = true ∧ n.span = s ∧ StandsAsValue ts isValue n

/-- To decide about nothing changes nothing. -/
theorem decides_nothing (ts : List Node) (isValue : Bool) (p : EditPlan) :
    Decides ts isValue [] p p where
  parts := nofun
  apart := .nil
  statements _ hs := .inl hs
  substitutions _ he := .inl he
  members _ hs := .inl hs

/-- What is decided about the children is decided about the node. -/
theorem Decides.node {form : Form} {span : Span} {children ns : List Node} {isValue : Bool}
    {p q : EditPlan} (h : Decides children form.holdsValues ns p q) :
    Decides [node form span children] isValue ns p q where
  parts n hn := by
    obtain ⟨hbare, k, hk, hnk⟩ := h.parts n hn
    exact ⟨hbare, _, List.mem_singleton_self _, mem_parts_of_child hk hnk⟩
  apart := h.apart
  statements := h.statements
  substitutions := h.substitutions
  members s hs := (h.members s hs).imp_right fun ⟨n, hn, hform, hspan, hvalue⟩ => by
    refine ⟨n, hn, hform, hspan, .inr ⟨_, List.mem_singleton_self _, ?_⟩⟩
    rcases hvalue with ⟨hn, hvalues⟩ | ⟨k, hk, q, hq, hvalues, hnq⟩
    · exact ⟨_, self_mem_parts _, hvalues, hn⟩
    · exact ⟨q, mem_parts_of_child hk hq, hvalues, hnq⟩

/-- What is decided about a first tree and then about others. -/
theorem Decides.cons {t : Node} {ts ms ns : List Node} {isValue : Bool} {p q r : EditPlan}
    (ht : t.WellPlaced) (hts : ∀ k ∈ ts, k.WellPlaced)
    (hafter : ∀ k ∈ ts, t.isBare = false → k.isBare = false → t.span.stop ≤ k.span.start)
    (h : Decides [t] isValue ms p q) (h' : Decides ts isValue ns q r) :
    Decides (t :: ts) isValue (ms ++ ns) p r where
  parts n hn := by
    rcases List.mem_append.mp hn with hn | hn
    · obtain ⟨hbare, k, hk, hnk⟩ := h.parts n hn
      exact ⟨hbare, k, List.mem_singleton.mp hk ▸ List.mem_cons_self, hnk⟩
    · obtain ⟨hbare, k, hk, hnk⟩ := h'.parts n hn
      exact ⟨hbare, k, List.mem_cons_of_mem _ hk, hnk⟩
  apart := by
    refine List.pairwise_append.mpr ⟨h.apart, h'.apart, fun m hm n hn => ?_⟩
    obtain ⟨hmb, k, hk, hmk⟩ := h.parts m hm
    obtain ⟨hnb, k', hk', hnk⟩ := h'.parts n hn
    obtain rfl := List.mem_singleton.mp hk
    -- neither tree is bare, for a bare tree has bare parts only
    have hbare : ∀ {a b : Node}, a ∈ b.parts → a.isBare = false → b.isBare = false :=
      fun ha hab => eq_false_of_ne_true fun hb => by
        rw [isBare_of_mem_parts hb ha] at hab
        cases hab
    exact apart_of_parts ht (hts k' hk') (hafter k' hk' (hbare hmk hmb) (hbare hnk hnb))
      hmk hnk hmb hnb
  statements s hs := by
    rcases h'.statements s hs with hs | ⟨n, hn, hrest⟩
    · exact (h.statements s hs).imp_right fun ⟨n, hn, hrest⟩ =>
        ⟨n, List.mem_append_left _ hn, hrest⟩
    · exact .inr ⟨n, List.mem_append_right _ hn, hrest⟩
  substitutions e he := by
    rcases h'.substitutions e he with he | ⟨n, hn, hrest⟩
    · exact (h.substitutions e he).imp_right fun ⟨n, hn, hrest⟩ =>
        ⟨n, List.mem_append_left _ hn, hrest⟩
    · exact .inr ⟨n, List.mem_append_right _ hn, hrest⟩
  members s hs := by
    have hmore : ∀ {us n}, (∀ u ∈ us, u ∈ t :: ts) → StandsAsValue us isValue n →
        StandsAsValue (t :: ts) isValue n := fun hus hvalue =>
      hvalue.imp (fun ⟨hn, hflag⟩ => ⟨hus _ hn, hflag⟩) fun ⟨u, hu, hrest⟩ => ⟨u, hus u hu, hrest⟩
    rcases h'.members s hs with hs | ⟨n, hn, hform, hspan, hvalue⟩
    · refine (h.members s hs).imp_right fun ⟨n, hn, hform, hspan, hvalue⟩ => ?_
      exact ⟨n, List.mem_append_left _ hn, hform, hspan,
        hmore (fun u hu => List.mem_singleton.mp hu ▸ List.mem_cons_self) hvalue⟩
    · exact .inr ⟨n, List.mem_append_right _ hn, hform, hspan,
        hmore (fun u hu => List.mem_cons_of_mem _ hu) hvalue⟩

/-- The visits of trees that stand one after the other. -/
theorem visitAll_decides {ts : List Node} {isValue : Bool} (hts : ∀ t ∈ ts, t.WellPlaced)
    (hafter : ts.Pairwise fun k k' =>
      k.isBare = false → k'.isBare = false → k.span.stop ≤ k'.span.start)
    (h : ∀ t ∈ ts, ∀ d, ∃ ns, Decides [t] isValue ns d.plan (t.fold v.visit isValue d).plan)
    (d : Decisions) :
    ∃ ns, Decides ts isValue ns d.plan
      (visitAll (ts.map fun t => (t, t.fold v.visit)) isValue d).plan := by
  unfold visitAll
  induction ts generalizing d with
  | nil => exact ⟨[], decides_nothing ..⟩
  | cons t ts ih =>
      obtain ⟨hfirst, hothers⟩ := List.pairwise_cons.mp hafter
      have htw := hts t List.mem_cons_self
      have htsw : ∀ k ∈ ts, k.WellPlaced := fun k hk => hts k (List.mem_cons_of_mem _ hk)
      obtain ⟨ms, hms⟩ := h t List.mem_cons_self d
      obtain ⟨ns, hns⟩ := ih htsw hothers (fun k hk => h k (List.mem_cons_of_mem _ hk))
        (t.fold v.visit isValue d)
      exact ⟨ms ++ ns, hms.cons htw htsw hfirst hns⟩

/-- The first walk decides about nodes that stand apart. -/
theorem visit_decides (t : Node) (ht : t.WellPlaced) :
    ∀ isValue d, ∃ ns, Decides [t] isValue ns d.plan (t.fold v.visit isValue d).plan := by
  induction t with
  | node form span children ih =>
      intro isValue d
      cases ht with
      | node fits parts =>
      -- what is decided here is about this node, which is among its own parts
      have hself : ∀ {n : Node}, n ∈ [node form span children] → form.isBare = false →
          n.isBare = false ∧ ∃ t ∈ [node form span children], n ∈ t.parts := by
        intro n hn hform
        obtain rfl := List.mem_singleton.mp hn
        refine ⟨?_, _, List.mem_singleton_self _, self_mem_parts _⟩
        rw [isBare_node, hform]
        rfl
      -- where the walk only goes on, what is decided below is decided here
      have hchildren : ∀ d' : Decisions, d'.plan = d.plan →
          ∃ ns, Decides [node form span children] isValue ns d.plan
            (visitAll (children.map fun k => (k, k.fold v.visit)) form.holdsValues d').plan := by
        intro d' hd'
        obtain ⟨ns, hns⟩ := visitAll_decides parts (fits.apart parts)
          (fun k hk => ih k hk (parts k hk) form.holdsValues) d'
        exact ⟨ns, (hd' ▸ hns).node⟩
      rw [fold_node]
      rcases visit_cases v form span (children.map fun k => (k, k.fold v.visit)) isValue d with
        ⟨c, rfl, -, -, heq⟩ | ⟨o, p, callee, arguments, chain, rfl, -, -, heq⟩
          | ⟨o, p, callee, arguments, rfl, -, -, heq⟩
          | ⟨o, name, c, rfl, -, hvalue, -, -, -, heq⟩ | ⟨-, heq⟩
      · -- a removal, a substitution, a call that is walked into, a binding, and anything else
        rw [heq]
        refine ⟨[_], fun n hn => hself hn rfl, List.pairwise_singleton .., fun s hs => ?_,
          fun e he => .inl he, fun s hs => .inl hs⟩
        rcases List.mem_cons.mp hs with rfl | hs
        · exact .inr ⟨_, List.mem_singleton_self _, rfl, rfl⟩
        · exact .inl hs
      · rw [heq]
        refine ⟨[_], fun n hn => hself hn rfl, List.pairwise_singleton .., fun s hs => .inl hs,
          fun e he => ?_, fun s hs => .inl hs⟩
        rcases List.mem_cons.mp he with rfl | he
        · exact .inr ⟨_, List.mem_singleton_self _, rfl, rfl⟩
        · exact .inl he
      · rw [heq]
        exact hchildren _ (d.remember_plan _)
      · rw [heq]
        refine ⟨[_], fun n hn => hself hn rfl, List.pairwise_singleton .., fun s hs => .inl hs,
          fun e he => .inl he, fun s hs => ?_⟩
        rcases List.mem_cons.mp hs with rfl | hs
        · exact .inr ⟨_, List.mem_singleton_self _, rfl, rfl,
            .inl ⟨List.mem_singleton_self _, hvalue⟩⟩
        · exact .inl hs
      · rw [heq]
        exact hchildren d rfl

-- ============================================================ the second walk

/-- What a plan says about patterns, if it says it about some declarators only. -/
structure DividesOnly (v : Survey) (l : Liveness) (ns : List Node) (p : EditPlan) : Prop where
  patterns : ∀ s ∈ p.removedPatterns, ∃ span pattern value,
    .node .declarator span [pattern, value] ∈ ns ∧ s ∈ (v.planPattern l pattern).removed
  splits : ∀ e ∈ p.splits, ∃ pattern value, .node .declarator e.1 [pattern, value] ∈ ns
    ∧ (∃ role, pattern.form = .objectPattern role) ∧ e.2 = (v.planPattern l pattern).splits
  droppable : ∀ s ∈ p.droppable, ∃ pattern value, .node .declarator s [pattern, value] ∈ ns

/-- A declarator among the nodes keeps the plan to the nodes. -/
theorem DividesOnly.patternEdits {ns : List Node} {p : EditPlan} (h : DividesOnly v l ns p)
    {isListed : Bool} {span : Span} {pattern value : Node}
    (hmem : .node .declarator span [pattern, value] ∈ ns) :
    DividesOnly v l ns (v.patternEdits isListed span pattern value l p) := by
  unfold Survey.patternEdits
  split
  case h_1 role hrole =>
    refine ⟨fun s hs => ?_, fun e he => ?_, fun s hs => ?_⟩
    · rcases List.mem_append.mp hs with hs | hs
      · exact ⟨span, pattern, value, hmem, List.mem_reverse.mp hs⟩
      · exact h.patterns s hs
    · dsimp only at he
      split at he
      · rcases List.mem_cons.mp he with rfl | he
        · exact ⟨pattern, value, hmem, ⟨role, hrole⟩, rfl⟩
        · exact h.splits e he
      · exact h.splits e he
    · dsimp only at hs
      split at hs
      · rcases List.mem_cons.mp hs with rfl | hs
        · exact ⟨pattern, value, hmem⟩
        · exact h.droppable s hs
      · exact h.droppable s hs
  case h_2 =>
    refine ⟨fun s hs => ?_, h.splits, h.droppable⟩
    rcases List.mem_append.mp hs with hs | hs
    · exact ⟨span, pattern, value, hmem, hs⟩
    · exact h.patterns s hs
  case h_3 => exact h

/-- The first walk says nothing about patterns. -/
theorem visit_dividesOnly {ns : List Node} (t : Node) :
    ∀ isValue (d : Decisions), DividesOnly v l ns d.plan →
      DividesOnly v l ns (t.fold v.visit isValue d).plan := by
  induction t with
  | node form span children ih =>
      intro isValue d hd
      have hall : ∀ flag d, DividesOnly v l ns d.plan → DividesOnly v l ns
          (visitAll (children.map fun k => (k, k.fold v.visit)) flag d).plan := by
        intro flag d hd
        refine visitAll_induct (P := fun d => DividesOnly v l ns d.plan) ?_ hd
        intro c hc d hd
        obtain ⟨k, hk, rfl⟩ := List.mem_map.mp hc
        exact ih k hk flag d hd
      rw [fold_node]
      rcases visit_cases v form span (children.map fun k => (k, k.fold v.visit)) isValue d with
        ⟨c, -, -, -, heq⟩ | ⟨o, p, callee, arguments, chain, -, -, -, heq⟩
          | ⟨o, p, callee, arguments, -, -, -, heq⟩ | ⟨o, name, c, -, -, -, -, -, -, heq⟩
          | ⟨-, heq⟩
      · rw [heq]
        exact ⟨hd.patterns, hd.splits, hd.droppable⟩
      · rw [heq]
        exact ⟨hd.patterns, hd.splits, hd.droppable⟩
      · rw [heq]
        exact hall _ _ (by simpa using hd)
      · rw [heq]
        exact ⟨hd.patterns, hd.splits, hd.droppable⟩
      · rw [heq]
        exact hall _ _ hd

/-- What holds between the visits of the second walk. -/
structure Keeping (v : Survey) (l : Liveness) (p : EditPlan) (ns : List Node) (d : Decisions) :
    Prop where
  liveness : d.liveness = l
  statements : d.plan.removedStatements = p.removedStatements
  divides : DividesOnly v l ns d.plan

/-- The second walk decides about declarators outside of the statements that go away. -/
theorem visitPatterns_keeping {p : EditPlan} {ns : List Node} (t : Node)
    (ht : ∀ m ∈ p.kept t, m ∈ ns) (hstays : p.isRemoved t = false) :
    ∀ isListed d, Keeping v l p ns d → Keeping v l p ns (t.fold v.visitPatterns isListed d) := by
  induction t with
  | node form span children ih =>
      intro isListed d hd
      have hall : ∀ flag d, Keeping v l p ns d → Keeping v l p ns
          (visitAll (children.map fun k => (k, k.fold v.visitPatterns)) flag d) := by
        intro flag d hd
        refine visitAll_induct (P := Keeping v l p ns) ?_ hd
        intro c hc d hd
        obtain ⟨k, hk, rfl⟩ := List.mem_map.mp hc
        cases hk' : p.isRemoved k with
        | false =>
            exact ih k hk (fun m hm => ht m (EditPlan.mem_kept_node.mpr (.inr ⟨k, hk, hk', hm⟩)))
              hk' flag d hd
        | true =>
            -- a statement that goes away is left out
            cases k with
            | node form' span' children' =>
            simp only [EditPlan.isRemoved, Bool.and_eq_true, beq_iff_eq] at hk'
            obtain ⟨hform, hspan⟩ := hk'
            obtain rfl : form' = .expressionStatement := hform
            have heq : (node .expressionStatement span' children').fold v.visitPatterns flag d
                = d := by
              rw [fold_node]
              exact if_pos (hd.statements ▸ hspan)
            show Keeping v l p ns ((node .expressionStatement span' children').fold v.visitPatterns
              flag d)
            rw [heq]
            exact hd
      rw [fold_node]
      rcases visitPatterns_cases v form span
          (children.map fun k => (k, k.fold v.visitPatterns)) isListed d with
        ⟨-, -, heq⟩ | ⟨pattern, value, rfl, hc, heq⟩ | ⟨flag, heq⟩
      · rw [heq]
        exact hd
      · rw [heq]
        obtain ⟨pnode, rest, rfl, rfl, hrest⟩ := List.map_eq_cons_iff.mp hc
        obtain ⟨vnode, rfl, rfl⟩ := List.map_eq_singleton_iff.mp hrest
        refine hall _ _ ?_
        rcases planDeclarator_cases v isListed span pnode vnode d with heq | ⟨-, hlive, hplan⟩
        · rw [heq]
          exact hd
        · refine ⟨hlive.trans hd.liveness, ?_, ?_⟩
          · rw [hplan, (morePatterns_patternEdits ..).statements]
            exact hd.statements
          · rw [hplan, hd.liveness]
            exact hd.divides.patternEdits (ht _ (EditPlan.self_mem_kept _))
      · rw [heq]
        exact hall flag d hd

/-- Whether a node stands among statements. -/
def AmongStatements (tree n : Node) : Prop :=
  ∃ r ∈ tree.parts, n ∈ r.children ∧ isStatementList r.form = true

/-- Whether a node stands in a declaration that stands among statements. -/
def Listed (tree n : Node) : Prop :=
  ∃ q ∈ tree.parts, n ∈ q.children ∧ q.form.isDeclaration = true ∧ AmongStatements tree q

/-- Whether the declarators that a plan may drop are listed. -/
def ListsDroppable (tree : Node) (p : EditPlan) : Prop :=
  ∀ s ∈ p.droppable, ∃ n ∈ tree.parts, n.form = .declarator ∧ n.span = s ∧ Listed tree n

/-- Declarators stand in declarations, and nothing else does. -/
theorem not_listed_of_declaration {tree n : Node} (ht : tree.WellPlaced)
    (hform : n.form.isDeclaration = true) : ¬ Listed tree n := by
  rintro ⟨q, hq, hnq, hdeclaration, -⟩
  cases ht.part hq with
  | node fits parts =>
      have hrank := fits.declarators hdeclaration n hnq
      obtain ⟨kind, heq⟩ := Form.exists_of_isDeclaration hform
      rw [heq] at hrank
      cases hrank

/-- A declarator that stands among statements or in a declaration stands in a declaration. -/
theorem listed_of_declarator {tree n : Node} (ht : tree.WellPlaced) (hform : n.form = .declarator)
    (h : AmongStatements tree n ∨ Listed tree n) : Listed tree n := by
  refine h.resolve_left ?_
  rintro ⟨r, hr, hnr, hlist⟩
  cases ht.part hr with
  | @node form span children fits parts =>
      have hdeclaration : form.isDeclaration = false := by
        cases form <;> first | rfl | cases hlist
      have hlt := fits.free hdeclaration n hnr
      rw [hform] at hlt
      exact absurd hlt (Nat.lt_irrefl _)

/-- The second walk is told rightly whether a node stands among statements, and drops declarators
of declarations that do only. -/
theorem visitPatterns_lists {tree : Node} (ht : tree.WellPlaced) (t : Node) (hmem : t ∈ tree.parts) :
    ∀ isListed (d : Decisions), (isListed = true → AmongStatements tree t ∨ Listed tree t) →
      ListsDroppable tree d.plan →
        ListsDroppable tree (t.fold v.visitPatterns isListed d).plan := by
  induction t with
  -- the flag is carried down only where it says that the children stand in a list
  | node form span children ih =>
      intro isListed d hlisted hd
      have hall : ∀ flag (d : Decisions),
          (flag = true → ∀ k ∈ children, AmongStatements tree k ∨ Listed tree k) →
          ListsDroppable tree d.plan → ListsDroppable tree
            (visitAll (children.map fun k => (k, k.fold v.visitPatterns)) flag d).plan := by
        intro flag d hflag hd
        refine visitAll_induct (P := fun d => ListsDroppable tree d.plan) ?_ hd
        intro c hc d hd
        obtain ⟨k, hk, rfl⟩ := List.mem_map.mp hc
        have hkt := mem_parts_trans (mem_parts_of_child hk (self_mem_parts k)) hmem
        exact ih k hk hkt flag d (fun hf => hflag hf k hk) hd
      rw [fold_node]
      unfold visitPatterns
      split
      case h_1 =>
        split
        case isTrue => exact hd
        case isFalse => exact hall false d (by simp) hd
      case h_2 kind _ =>
        -- a declaration hands its own flag to its declarators, which are then in its list
        refine hall isListed d (fun hf k hk => .inr ⟨_, hmem, hk, rfl, ?_⟩) hd
        exact (hlisted hf).resolve_right (not_listed_of_declaration ht rfl)
      case h_3 pattern _ value _ hc =>
        refine hall false _ (by simp) ?_
        rcases planDeclarator_cases v isListed span pattern value d with heq | ⟨-, -, hplan⟩
        · rw [heq]
          exact hd
        -- a declarator may be dropped only if its value is a static chain and it stands in a list
        rw [hplan]
        unfold Survey.patternEdits
        split
        case h_1 =>
          intro s hs
          dsimp only at hs
          split at hs
          case isFalse => exact hd s hs
          case isTrue hflags =>
            rw [Bool.and_eq_true] at hflags
            rcases List.mem_cons.mp hs with rfl | hs
            · exact ⟨_, hmem, rfl, rfl, listed_of_declarator ht rfl (hlisted hflags.2)⟩
            · exact hd s hs
        case h_2 => exact hd
        case h_3 => exact hd
      case h_4 => exact hall _ d (fun hlist k hk => .inl ⟨_, hmem, hk, hlist⟩) hd

end Survey

-- ============================================================ the plan of a program

open Node

/-- What the first walk decides about in a program stands apart. -/
theorem planEdits_decides (config : TransformConfig) (plugin : String) {tree : Node}
    (ht : tree.WellPlaced) :
    ∃ ns, Survey.Decides [tree] true ns {} (planEdits config plugin tree).1 := by
  obtain ⟨ns, hns⟩ := Survey.visit_decides (v := Survey.onProgram config plugin tree) tree ht true
    { liveness := Liveness.ofBindings (Bindings.ofProgram tree) }
  have hmore := Survey.morePatterns_visitPatterns (v := Survey.onProgram config plugin tree) tree
    false (firstDecisions config plugin tree)
  refine ⟨ns, hns.parts, hns.apart, ?_, ?_, ?_⟩
  · rw [planEdits_fst, hmore.statements]
    exact hns.statements
  · rw [planEdits_fst, hmore.substitutions]
    exact hns.substitutions
  · rw [planEdits_fst, hmore.members]
    exact hns.members

/-- What goes away with an empty pattern stands in a declaration that stands among statements. -/
theorem planEdits_lists (config : TransformConfig) (plugin : String) {tree : Node}
    (ht : tree.WellPlaced) : Survey.ListsDroppable tree (planEdits config plugin tree).1 := by
  -- the first walk lets nothing go away so
  have hdivides : Survey.DividesOnly (Survey.onProgram config plugin tree)
      (firstDecisions config plugin tree).liveness [] (firstDecisions config plugin tree).plan :=
    Survey.visit_dividesOnly tree true _ ⟨by simp, by simp, by simp⟩
  have hfirst : Survey.ListsDroppable tree (firstDecisions config plugin tree).plan := by
    intro s hs
    obtain ⟨_, _, hmem⟩ := hdivides.droppable s hs
    cases hmem
  exact Survey.visitPatterns_lists ht tree (self_mem_parts tree) false _ (by simp) hfirst

/-- What the second walk decides is about declarators that stay. -/
theorem planEdits_dividesOnly (config : TransformConfig) (plugin : String) {tree : Node}
    (hstays : (planEdits config plugin tree).1.isRemoved tree = false) :
    Survey.DividesOnly (Survey.onProgram config plugin tree)
      (firstDecisions config plugin tree).liveness ((planEdits config plugin tree).1.kept tree)
      (planEdits config plugin tree).1 := by
  have hmore := Survey.morePatterns_visitPatterns (v := Survey.onProgram config plugin tree) tree
    false (firstDecisions config plugin tree)
  exact (Survey.visitPatterns_keeping tree (fun _ h => h) hstays false _
    ⟨rfl, hmore.statements.symm,
      Survey.visit_dividesOnly tree true _ ⟨nofun, nofun, nofun⟩⟩).divides

end Graft
