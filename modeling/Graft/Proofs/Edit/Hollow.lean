import Mathlib.Data.Finset.Max
import Graft.Proofs.Edit.Exact
import Graft.Proofs.Edit.Single
import Graft.Round
/-!
What an edit does and does not count.

An edit counts what it takes away, replaces, binds and moves, and the size of a plan counts the same
things. Neither counts a declarator that goes away because its pattern has no entries.

# Hollow declarators

If the edit took the entries away, they were counted. But a pattern may have had none to begin with:
such a declarator is hollow (`EditPlan.isHollow`), and it goes away in every edit, whatever else is
planned (`EditPlan.MadeFor.performed_of_isHollow`). A plan that is empty otherwise lists it among
the declarators that may go away, and that list is not part of its size.

# Nothing else

- An edit counts nothing if and only if its plan names nothing but calls that stay
  (`EditPlan.MadeFor.total_eq_zero_iff`): among the spans of every list there is an outermost one,
  and that one is counted.
- Such an edit leaves the program as it is if and only if no declarator is hollow
  (`EditPlan.MadeFor.apply_eq_self_iff`). Under an idle plan every node becomes at most one node
  (`EditPlan.Idle.length_performed_le`), so a row of children stays the same only if each of them
  does, and the claim goes down the tree.

Both are said of what the planner plans in `planEdits_hollow`.
-/
namespace Graft

/-- Among some spans there is one that lies in no other. -/
theorem Span.exists_outermost {spans : Finset Span} (h : spans.Nonempty) :
    ∃ s ∈ spans, ∀ t ∈ spans, ¬ s.inside t := by
  obtain ⟨s, hs, hmax⟩ := spans.exists_max_image (fun s => (s.stop : Int) - s.start) h
  refine ⟨s, hs, ?_⟩
  rintro t ht ⟨hstart, hstop, hne⟩
  have hwidth : (t.stop : Int) - t.start ≤ s.stop - s.start := hmax t ht
  apply hne
  cases s with
  | mk start stop =>
      cases t with
      | mk start' stop' =>
          simp only [Span.mk.injEq] at hstart hstop hwidth ⊢
          omega

-- ============================================================ lists of parts

/-- Of two rows that make up a row of children, the first of at most one, the first one is the first
child. -/
theorem eq_of_append_eq_cons {α : Type} {xs ys ks : List α} {k : α} (hx : xs.length ≤ 1)
    (hy : ys.length ≤ ks.length) (h : xs ++ ys = k :: ks) : xs = [k] ∧ ys = ks := by
  match xs, hx with
  | [], _ =>
      rw [List.nil_append] at h
      rw [h, List.length_cons] at hy
      omega
  | [x], _ =>
      obtain ⟨rfl, rfl⟩ := List.cons.inj h
      exact ⟨rfl, rfl⟩

/-- Where everything becomes at most one thing, a row gets no longer. -/
theorem length_flatMap_le {α β : Type} {xs : List α} {f : α → List β}
    (h : ∀ x ∈ xs, (f x).length ≤ 1) : (xs.flatMap f).length ≤ xs.length := by
  induction xs with
  | nil => exact Nat.le_refl 0
  | cons x xs ih =>
      have hx := h x List.mem_cons_self
      have hxs := ih fun y hy => h y (List.mem_cons_of_mem _ hy)
      rw [List.flatMap_cons, List.length_append, List.length_cons]
      omega

/-- If every element becomes one or none, and the list stays the same, then so does every element. -/
theorem eq_singleton_of_flatMap_eq {α : Type} {xs : List α} {f : α → List α}
    (hone : ∀ x ∈ xs, (f x).length ≤ 1) (h : xs.flatMap f = xs) : ∀ x ∈ xs, f x = [x] := by
  induction xs with
  | nil => nofun
  | cons x xs ih =>
      have hrest : ∀ y ∈ xs, (f y).length ≤ 1 := fun y hy => hone y (List.mem_cons_of_mem _ hy)
      rw [List.flatMap_cons] at h
      obtain ⟨hx, hxs⟩ :=
        eq_of_append_eq_cons (hone x List.mem_cons_self) (length_flatMap_le hrest) h
      intro y hy
      rcases List.mem_cons.mp hy with rfl | hy
      · exact hx
      · exact ih hrest hxs y hy

/-- Children that stay the same together stay the same one by one. -/
theorem Form.exists_of_askAll_eq {form : Form} {children : List Node} {f : Node → Form → List Node}
    (hone : ∀ k ∈ children, ∀ above, form.Under above → (f k above).length ≤ 1)
    (h : form.askAll (children.map f) = children) {k : Node} (hk : k ∈ children) :
    ∃ above, form.Under above ∧ f k above = [k] := by
  have hall : ∀ {ks : List Node}, (∀ k ∈ ks, k ∈ children) → (ks.map f).flatMap (· form) = ks →
      ∀ k ∈ ks, f k form = [k] := by
    intro ks hks heq
    rw [List.flatMap_map] at heq
    exact eq_singleton_of_flatMap_eq (fun k hk => hone k (hks k hk) form (.inl rfl)) heq
  cases form with
  | case =>
      cases children with
      | nil => cases hk
      | cons test statements =>
          have hlength : ((statements.map f).flatMap (· .case)).length ≤ statements.length := by
            rw [List.flatMap_map]
            exact length_flatMap_le fun s hs => hone s (List.mem_cons_of_mem _ hs) .case (.inl rfl)
          obtain ⟨htest, hstatements⟩ :=
            eq_of_append_eq_cons (hone test List.mem_cons_self .switch (.inr ⟨rfl, rfl⟩)) hlength h
          rcases List.mem_cons.mp hk with rfl | hk
          · exact ⟨.switch, .inr ⟨rfl, rfl⟩, htest⟩
          · exact ⟨.case, .inl rfl,
              hall (fun s hs => List.mem_cons_of_mem _ hs) hstatements k hk⟩
  | _ => exact ⟨_, .inl rfl, hall (fun _ hk => hk) h k hk⟩

namespace EditPlan

open Node Survey

variable {v : Survey} {l : Liveness} {tree : Node} {p : EditPlan} {plugin : String} {n : Node}

-- ============================================================ hollow declarators

/-- Whether a node is a declarator that may go away and whose pattern has no entries. -/
def isHollow (p : EditPlan) (n : Node) : Bool :=
  match n with
  | .node .declarator span [.node (.objectPattern _) _ [], _] => p.droppable.contains span
  | _ => false

/-- A hollow declarator has an object pattern without entries. -/
theorem exists_of_isHollow (h : p.isHollow n = true) :
    ∃ span role own value, n = .node .declarator span [.node (.objectPattern role) own [], value]
      ∧ p.droppable.contains span = true := by
  unfold isHollow at h
  split at h
  case h_1 => exact ⟨_, _, _, _, rfl, h⟩
  case h_2 => cases h

/-- A hollow declarator goes away in every edit. -/
theorem MadeFor.performed_of_isHollow (h : MadeFor v l tree p) (plugin : String)
    (hn : n ∈ tree.parts) (hhollow : p.isHollow n = true) (above : Form) :
    p.performed plugin n above = [] := by
  obtain ⟨span, role, own, value, rfl, hdrops⟩ := exists_of_isHollow hhollow
  have hplain : Form.declarator ≠ .expressionStatement := nofun
  have hpattern : p.performed plugin (.node (.objectPattern role) own []) .declarator
      = [.node (.objectPattern role) own []] := by
    have hform : Form.objectPattern role ≠ .expressionStatement := nofun
    rw [performed_of_plain hform rfl]
    rfl
  obtain ⟨w, hw⟩ := h.exists_performed plugin hn (List.mem_cons_of_mem _ List.mem_cons_self)
    (h.not_pruned_of_parent hn (List.mem_cons_of_mem _ List.mem_cons_self) rfl)
    (h.not_moved_of_value hn).1 rfl rfl
  have hw : p.performed plugin value .declarator = [w] := hw
  have hparts : Form.declarator.askAll
      ([.node (.objectPattern role) own [], value].map (p.performed plugin))
        = [.node (.objectPattern role) own [], w] := by
    simp [Form.askAll, hpattern, hw]
  have hmoved : p.movedFrom (.node .declarator span [.node (.objectPattern role) own [], value])
      = [] := rfl
  rw [performed_of_plain hplain rfl, hparts]
  simp only [restored, dividedInto, hmoved]
  rw [show (node .declarator span [.node (.objectPattern role) own [], value]).span = span from rfl,
    hdrops]
  rfl

-- ============================================================ edits that count nothing

/-- Every declaration of a program has a declarator. -/
theorem declaresNothing_of_wellPlaced (h : n.WellPlaced) : declaresNothing n = false := by
  cases h with
  | @node form span children fits _ =>
      unfold declaresNothing
      split
      case h_1 heq =>
        obtain ⟨rfl, -, rfl⟩ := Node.node.inj heq
        exact absurd rfl fits.shape
      case h_2 => rfl

/-- A plan that names nothing but declarators that may go away and calls that stay. -/
structure Idle (p : EditPlan) (tree : Node) : Prop where
  statements : p.removedStatements = []
  patterns : p.removedPatterns = []
  members : p.boundMembers = []
  splits : p.splits.flatMap Prod.snd = []
  /-- A call stays at the end of an optional chain, and if no name stands for it. -/
  calls : ∀ s ∈ p.substitutions.map Prod.fst,
    p.substitutions.lookup s = some [] ∨ s ∈ tree.chained

/-- An empty plan is idle. -/
theorem idle_of_isEmpty (h : p.isEmpty = true) : p.Idle tree := by
  simp only [isEmpty, size, beq_iff_eq, Nat.add_eq_zero_iff, List.length_eq_zero_iff] at h
  obtain ⟨⟨⟨⟨hstatements, hpatterns⟩, hsubstitutions⟩, hmembers⟩, hsplits⟩ := h
  refine ⟨hstatements, hpatterns, hmembers, hsplits, ?_⟩
  rw [hsubstitutions]
  nofun

/-- An edit counts nothing if and only if its plan names nothing but calls that stay. -/
theorem MadeFor.total_eq_zero_iff (h : MadeFor v l tree p) (plugin : String) :
    (p.apply plugin tree).2.total = 0 ↔ p.Idle tree := by
  have hexact := h.exact plugin
  simp only [TransformStats.total, Nat.add_eq_zero_iff, hexact.statementsElided,
    hexact.patternsPruned, hexact.importsSubstituted, hexact.membersBound, hexact.declaratorsSplit,
    Finset.card_eq_zero, List.toFinset_eq_empty_iff, Finset.filter_eq_empty_iff,
    List.map_eq_nil_iff, List.mem_toFinset]
  constructor
  · rintro ⟨⟨⟨⟨hstatements, hpatterns⟩, hcalls⟩, hmembers⟩, hsplits⟩
    refine ⟨hstatements, ?_, hmembers, hsplits, ?_⟩
    · by_contra hsome
      obtain ⟨s, hs, hout⟩ := Span.exists_outermost (List.toFinset_nonempty_iff _ |>.mpr hsome)
      simp only [List.mem_toFinset] at hs hout
      exact hpatterns hs hout
    · intro s hs
      have hstays := hcalls hs
      rw [not_and_or, not_not, not_not] at hstays
      exact hstays
  · intro hidle
    refine ⟨⟨⟨⟨hidle.statements, ?_⟩, ?_⟩, hidle.members⟩, hidle.splits⟩
    · intro s hs
      rw [hidle.patterns] at hs
      cases hs
    · rintro s hs ⟨hnamed, hout⟩
      exact (hidle.calls s hs).elim hnamed hout

namespace Idle

-- ------------------------------------------------------------ one node

theorem isRemoved_eq_false (h : p.Idle tree) : p.isRemoved n = false := by
  simp [isRemoved, h.statements]

theorem isPruned_eq_false (h : p.Idle tree) : p.isPruned n = false := by
  simp [isPruned, h.patterns]

theorem isMoved_eq_false (h : p.Idle tree) : p.isMoved n = false := by
  simp [isMoved, split?, h.splits]

theorem movedFrom_eq_nil (h : p.Idle tree) : p.movedFrom n = [] :=
  List.filterMap_eq_nil_iff.mpr fun _ _ => movedOut?_of_stays h.isMoved_eq_false

/-- No call is replaced where it stands. -/
theorem isReplaced_eq_false (h : p.Idle tree) (hmade : MadeFor v l tree p) {q : Node} {above : Form}
    (hq : q ∈ tree.parts) (hn : n ∈ q.children) (habove : q.form.Under above) :
    p.isReplaced above n = false := by
  by_contra hreplaced
  simp only [isReplaced, Bool.not_eq_false, Bool.and_eq_true, bne_iff_ne] at hreplaced
  obtain ⟨⟨hcall, hchain⟩, hsome⟩ := hreplaced
  cases hlookup : p.substitutions.lookup n.span with
  | none =>
      rw [hlookup] at hsome
      cases hsome
  | some names =>
      rcases h.calls _ (List.mem_map_of_mem (mem_of_lookup hlookup)) with hnames | hchained
      · rw [hnames] at hsome
        cases hsome
      · exact hchain ((hmade.eq_chain_iff_of_under hq hn habove hcall).mpr hchained)

/-- A node is put together again from its parts. -/
theorem performed_node (h : p.Idle tree) (plugin : String) (form : Form) (span : Span)
    (children : List Node) (above : Form) :
    p.performed plugin (.node form span children) above
      = p.restored plugin form span children above
          (form.askAll (children.map (p.performed plugin))) := by
  rw [EditPlan.performed_node, h.isRemoved_eq_false, h.isPruned_eq_false, h.isMoved_eq_false]
  rfl

/-- A declarator goes away with an empty pattern, and is not divided. -/
theorem dividedInto_eq (h : p.Idle tree) (plugin : String) (span : Span)
    (children parts : List Node) :
    p.dividedInto plugin (.node .declarator span children) parts
      = if p.isHollow (.node .declarator span parts) then []
        else [.node .declarator span parts] := by
  unfold dividedInto
  split
  case h_1 role own properties value =>
    rw [h.movedFrom_eq_nil, List.map_nil, List.append_nil,
      show (node .declarator span children).span = span from rfl]
    cases properties with
    | nil => simp [isHollow]
    | cons property properties => simp [isHollow]
  case h_2 hshape =>
    by_cases hhollow : p.isHollow (.node .declarator span parts) = true
    · obtain ⟨_, _, _, _, heq, -⟩ := exists_of_isHollow hhollow
      obtain ⟨-, -, heq⟩ := Node.node.inj heq
      exact absurd heq (hshape _ _ _ _)
    · rw [if_neg hhollow]
      rfl

/-- A node that is put together again from parts is the node with these parts. Only an empty
declaration and a hollow declarator go away. -/
theorem restored_eq (h : p.Idle tree) (plugin : String) {form above : Form} {span : Span}
    {children : List Node} (hcall : p.isReplaced above (.node form span children) = false)
    (parts : List Node) :
    p.restored plugin form span children above parts
      = if (isStatementList above && declaresNothing (.node form span parts))
          || p.isHollow (.node form span parts) then []
        else [.node form span parts] := by
  cases form with
  | call isOptional isPure =>
      have hnone : ¬ above = .chain → (p.substitutions.lookup span).bind ofChain? = none := by
        intro hchain
        cases hnames : (p.substitutions.lookup span).bind ofChain? with
        | none => rfl
        | some chain =>
            rw [isReplaced, bne_iff_ne.mpr hchain,
              show (node (.call isOptional isPure) span children).span = span from rfl, hnames]
              at hcall
            cases hcall
      simp only [restored, declaresNothing, isHollow, Bool.and_false, Bool.or_false]
      by_cases hchain : above = .chain
      · simp [hchain]
      · simp [hchain, hnone hchain]
  | member isOptional name =>
      simp [restored, declaresNothing, isHollow, h.members]
  | variableDeclaration kind =>
      cases parts with
      | nil => simp [restored, declaresNothing, isHollow]
      | cons part parts => simp [restored, declaresNothing, isHollow]
  | declarator =>
      simp only [restored, declaresNothing, Bool.and_false, Bool.false_or]
      exact h.dividedInto_eq plugin span children parts
  | _ => simp [restored, declaresNothing, isHollow]

/-- Under an idle plan every node becomes at most one node. -/
theorem length_performed_le (h : p.Idle tree) (plugin : String) {above : Form}
    (hcall : p.isReplaced above n = false) : (p.performed plugin n above).length ≤ 1 := by
  cases n with
  | node form span children =>
      rw [h.performed_node, h.restored_eq plugin hcall]
      split
      · exact Nat.zero_le 1
      · exact Nat.le_refl 1

-- ------------------------------------------------------------ whole programs

/-- A node stays as it is if and only if there is no hollow declarator in it. -/
theorem performed_eq_self_iff (h : p.Idle tree) (hmade : MadeFor v l tree p) (plugin : String)
    (hn : n ∈ tree.parts) {above : Form} (hcall : p.isReplaced above n = false) :
    p.performed plugin n above = [n] ↔ ∀ m ∈ n.parts, p.isHollow m = false := by
  induction n generalizing above with
  | node form span children ih =>
      have hchild : ∀ k ∈ children, k ∈ tree.parts := by
        intro k hk
        exact mem_parts_trans (mem_parts_of_child hk (self_mem_parts k)) hn
      have hstays : ∀ k ∈ children, ∀ a, form.Under a → p.isReplaced a k = false := by
        intro k hk a ha
        exact h.isReplaced_eq_false hmade hn hk ha
      -- the node is the same exactly when its row of children is and it is not hollow itself
      rw [h.performed_node, h.restored_eq plugin hcall]
      constructor
      · intro hself
        split at hself
        case isTrue => cases hself
        case isFalse hkept =>
          obtain ⟨-, -, hparts⟩ := Node.node.inj (List.cons.inj hself).1
          rw [hparts, Bool.or_eq_true, not_or] at hkept
          intro m hm
          rcases mem_parts_node.mp hm with rfl | ⟨k, hk, hmk⟩
          · exact eq_false_of_ne_true hkept.2
          · -- a row that is the same in the end is the same child by child, as none becomes two
            obtain ⟨a, ha, hsame⟩ := Form.exists_of_askAll_eq
              (fun k hk a ha => h.length_performed_le plugin (hstays k hk a ha)) hparts hk
            exact (ih k hk (hchild k hk) (hstays k hk a ha)).mp hsame m hmk
      · intro hsolid
        have hparts : form.askAll (children.map (p.performed plugin)) = children := by
          rw [Form.askAll_congr (g := fun k _ => [k]) fun k hk a ha =>
            (ih k hk (hchild k hk) (hstays k hk a ha)).mpr fun m hm =>
              hsolid m (mem_parts_of_child hk hm)]
          exact Form.askAll_singleton form children
        have hdeclares : declaresNothing (.node form span children) = false :=
          declaresNothing_of_wellPlaced (hmade.wellPlaced.part hn)
        rw [hparts, hdeclares, hsolid _ (self_mem_parts _), Bool.and_false, Bool.or_false,
          if_neg Bool.false_ne_true]

end Idle

/-- An edit that counts nothing leaves the program as it is if and only if no declarator is hollow. -/
theorem MadeFor.apply_eq_self_iff (h : MadeFor v l tree p)
    (hidle : (p.apply plugin tree).2.total = 0) :
    (p.apply plugin tree).1 = tree ↔ ∀ n ∈ tree.parts, p.isHollow n = false := by
  have hcall : p.isReplaced .absent tree = false := by
    obtain ⟨hashbang, hprogram⟩ := h.program
    exact EditPlan.isReplaced_eq_false (by rw [hprogram]; rfl)
  rw [← ((h.total_eq_zero_iff plugin).mp hidle).performed_eq_self_iff h plugin (self_mem_parts tree)
    hcall, h.performed_tree, List.cons_eq_cons]
  exact (and_iff_left rfl).symm

end EditPlan

/-- The total is zero only if all counts are. -/
theorem TransformStats.total_eq_zero_iff {s : TransformStats} : s.total = 0 ↔ s = .zero := by
  cases s with
  | mk elided pruned substituted bound split =>
      simp only [total, zero, TransformStats.mk.injEq]
      omega

/-- If nothing is planned then nothing is counted. If nothing is counted then the program stays as
it is, but for its hollow declarators, and these go away whatever else is planned. -/
theorem planEdits_hollow {config : TransformConfig} {plugin source : String} {p : Program}
    (hp : Program.parse? source = some p) :
    let e := (planEdits config plugin p.tree).1
    (e.isEmpty = true → (e.apply plugin p.tree).2 = .zero)
      ∧ ((e.apply plugin p.tree).2 = .zero →
          ((e.apply plugin p.tree).1 = p.tree ↔ ∀ n ∈ p.tree.parts, e.isHollow n = false))
      ∧ ∀ n ∈ p.tree.parts, e.isHollow n = true →
          ∀ above, e.performed plugin n above = [] := by
  intro e
  have hmade := planEdits_madeFor config plugin (Program.wellPlaced_of_parse? hp)
    (Program.form_of_parse? hp)
  refine ⟨?_, ?_, ?_⟩
  · intro hempty
    apply TransformStats.total_eq_zero_iff.mp
    exact (hmade.total_eq_zero_iff plugin).mpr (EditPlan.idle_of_isEmpty hempty)
  · intro hzero
    exact hmade.apply_eq_self_iff (TransformStats.total_eq_zero_iff.mpr hzero)
  · intro n hn hhollow above
    exact hmade.performed_of_isHollow plugin hn hhollow above

/-- A declaration that takes nothing from the host goes away in an edit for which nothing is
planned. A round does not make such an edit, but it makes the edit if anything else is planned. -/
theorem planEdits_hollow_of_empty_pattern :
    ∃ p, Program.parse? "const {} = BdApi;" = some p
      ∧ (planEdits .standard "p" p.tree).1.isEmpty = true
      ∧ ((planEdits .standard "p" p.tree).1.apply "p" p.tree).2 = .zero
      ∧ ((planEdits .standard "p" p.tree).1.apply "p" p.tree).1 ≠ p.tree
      ∧ (Round.of? .standard "p" "const {} = BdApi;").map (·.edited) = some none
      ∧ (Round.of? .standard "p" "const {} = BdApi; BdApi.getModule(x);").map (·.edited)
        = some (some ("", { statementsElided := 1 })) := by
  have h : (Program.parse? "const {} = BdApi;").any
      (fun p =>
        (planEdits .standard "p" p.tree).1.isEmpty
        && ((planEdits .standard "p" p.tree).1.apply "p" p.tree).2 == .zero
        && ((planEdits .standard "p" p.tree).1.apply "p" p.tree).1.children.isEmpty
        && !p.tree.children.isEmpty) = true := by
    decide +kernel
  obtain ⟨p, hp, h⟩ := (Option.any_eq_true _ _).mp h
  simp only [Bool.and_eq_true, beq_iff_eq, Bool.not_eq_true'] at h
  obtain ⟨⟨⟨hempty, hstats⟩, hgone⟩, hthere⟩ := h
  refine ⟨p, hp, hempty, hstats, ?_, by decide +kernel, by decide +kernel⟩
  intro hsame
  rw [hsame, hthere] at hgone
  cases hgone

end Graft
