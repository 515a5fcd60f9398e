import Mathlib.Data.Finset.Card
import Mathlib.Data.List.Flatten
import Mathlib.Data.List.Nodup
import Graft.Proofs.Edit.Performed
/-!
The nodes that an edit comes to.

An edit goes down a program and does not look inside of what goes away. `EditPlan.reached` lists the
nodes that it comes to, each with what it stands under, in the recursion of the edit itself.

- They are nodes of the program, in their order and none of them twice (`EditPlan.reached_sublist`,
  `EditPlan.reached_pairwise`).
- What the edit does not come to stands below something that goes away
  (`EditPlan.reached_or_below`).

In a well-placed program a node is known by its span and its kind, so the nodes of one kind that an
edit comes to are as many as their spans (`EditPlan.countP_reached`). That is how counts of the edit
become sizes of sets of spans.
-/
namespace Graft

namespace Form

/-- Whether a child of a node of a form is asked as one that stands under another form: only the
test of a case is asked apart. -/
def AsksOf (form : Form) (children : List Node) (k : Node) (above : Form) : Prop :=
  above = form ∨ form = .case ∧ above = .switch ∧ k ∈ children.head?

theorem AsksOf.under {form above : Form} {children : List Node} {k : Node}
    (h : form.AsksOf children k above) : form.Under above :=
  h.imp_right fun hcase => ⟨hcase.1, hcase.2.1⟩

/-- What is asked of children is asked of one of them, and so is everything else that is asked. -/
theorem exists_of_mem_askAll {α : Type} {form : Form} {children : List Node}
    {f : Node → Form → List α} {x : α} (h : x ∈ form.askAll (children.map f)) :
    ∃ k ∈ children, ∃ above, form.AsksOf children k above ∧ x ∈ f k above
      ∧ ∀ {β : Type} (g : Node → Form → List β), g k above ⊆ form.askAll (children.map g) := by
  have hall : ∀ {ks : List Node}, (∀ k ∈ ks, k ∈ children) → x ∈ (ks.map f).flatMap (· form) →
      ∃ k ∈ ks, k ∈ children ∧ x ∈ f k form ∧ ∀ {β : Type} (g : Node → Form → List β),
        g k form ⊆ (ks.map g).flatMap (· form) := by
    intro ks hks hx
    rw [List.flatMap_map] at hx
    obtain ⟨k, hk, hx⟩ := List.mem_flatMap.mp hx
    refine ⟨k, hk, hks k hk, hx, fun g y hy => ?_⟩
    rw [List.flatMap_map]
    exact List.mem_flatMap.mpr ⟨k, hk, hy⟩
  cases form with
  | case =>
      cases children with
      | nil => cases h
      | cons test statements =>
          rcases List.mem_append.mp h with h | h
          · exact ⟨test, List.mem_cons_self, .switch, .inr ⟨rfl, rfl, rfl⟩, h,
              fun g => List.subset_append_left ..⟩
          · obtain ⟨k, -, hk, hx, hsub⟩ := hall (fun k hk => List.mem_cons_of_mem _ hk) h
            exact ⟨k, hk, .case, .inl rfl, hx,
              fun g => List.subset_append_of_subset_right _ (hsub g)⟩
  | _ =>
      obtain ⟨k, -, hk, hx, hsub⟩ := hall (fun k hk => hk) h
      exact ⟨k, hk, _, .inl rfl, hx, fun g => hsub g⟩

/-- Every child is asked. -/
theorem exists_subset_askAll {α : Type} (form : Form) {children : List Node}
    (f : Node → Form → List α) {k : Node} (hk : k ∈ children) :
    ∃ above, form.Under above ∧ f k above ⊆ form.askAll (children.map f) := by
  have hall : ∀ {ks : List Node}, k ∈ ks → f k form ⊆ (ks.map f).flatMap (· form) := by
    intro ks hk x hx
    rw [List.flatMap_map]
    exact List.mem_flatMap.mpr ⟨k, hk, hx⟩
  cases form with
  | case =>
      cases children with
      | nil => cases hk
      | cons test statements =>
          rcases List.mem_cons.mp hk with rfl | hk
          · exact ⟨.switch, .inr ⟨rfl, rfl⟩, List.subset_append_left ..⟩
          · exact ⟨.case, .inl rfl, List.subset_append_of_subset_right _ (hall hk)⟩
  | _ => exact ⟨_, .inl rfl, hall hk⟩

/-- What is asked of children comes in the order of the children. -/
theorem map_askAll_sublist {α β : Type} {form : Form} {children : List Node}
    {f : Node → Form → List α} {g : α → β} {parts : Node → List β}
    (h : ∀ k ∈ children, ∀ above, ((f k above).map g).Sublist (parts k)) :
    ((form.askAll (children.map f)).map g).Sublist (children.flatMap parts) := by
  have hall : ∀ {ks : List Node}, (∀ k ∈ ks, k ∈ children) →
      (((ks.map f).flatMap (· form)).map g).Sublist (ks.flatMap parts) := by
    intro ks hks
    induction ks with
    | nil => exact .slnil
    | cons k ks ih =>
        rw [List.map_cons, List.flatMap_cons, List.flatMap_cons, List.map_append]
        exact (h k (hks k List.mem_cons_self) form).append
          (ih fun k' hk' => hks k' (List.mem_cons_of_mem _ hk'))
  cases form with
  | case =>
      cases children with
      | nil => exact .slnil
      | cons test statements =>
          simp only [askAll, List.map_cons, List.map_append, List.flatMap_cons]
          exact (h test List.mem_cons_self .switch).append
            (hall fun k hk => List.mem_cons_of_mem _ hk)
  | _ => exact hall fun k hk => hk

end Form

namespace Node

/-- The children of a node are listed among its parts in their order. -/
theorem children_sublist_parts (n : Node) : n.children.Sublist n.parts := by
  cases n with
  | node form span children =>
      rw [parts_node]
      refine .cons _ ?_
      have hsub := List.Sublist.flatMap_right children (f := fun k => [k]) (g := parts) fun k _ =>
        List.singleton_sublist.mpr (self_mem_parts k)
      rwa [List.flatMap_singleton'] at hsub

/-- A part that lies in another one, as to its span, is a part of it. -/
theorem WellPlaced.mem_parts_of_inside {t m n : Node} (ht : t.WellPlaced) (hn : n ∈ t.parts)
    (hm : m ∈ t.parts) (hnb : n.isBare = false) (hmb : m.isBare = false)
    (hstart : m.span.start ≤ n.span.start) (hstop : n.span.stop ≤ m.span.stop)
    (hne : n.span ≠ m.span) : n ∈ m.parts := by
  have hsame : ∀ {a b : Span}, a.start ≤ b.start → b.stop ≤ a.stop → b.start ≤ a.start →
      a.stop ≤ b.stop → b = a := fun h₁ h₂ h₃ h₄ =>
    Span.mk.injEq .. ▸ ⟨Nat.le_antisymm h₃ h₁, Nat.le_antisymm h₂ h₄⟩
  induction t with
  | node form span children ih =>
      rcases mem_parts_node.mp hm with rfl | ⟨k, hk, hmk⟩
      · exact hn
      rcases mem_parts_node.mp hn with rfl | ⟨k', hk', hnk'⟩
      · have hin := ht.within hm hmb
        exact absurd (hsame hstart hstop hin.start hin.stop) hne
      cases ht with
      | node fits parts =>
        by_cases heq : k = k'
        · subst heq
          exact ih k hk (parts k hk) hnk' hmk
        · have hapart := fits.parts_apart parts hk hk' heq hmk hnk' hmb hnb
          have hlt := (fits.part_sits (parts k' hk') hk' hnk' hnb).2.1
          omega

end Node

namespace EditPlan

open Node Survey

-- ============================================================ what an edit comes to

/-- The nodes that an edit comes to, each with what it stands under: all but those inside of a
statement or an entry that goes away. -/
def reached (p : EditPlan) : Node → Form → List (Form × Node) :=
  fold fun form span children above =>
    let n : Node := .node form span (children.map Prod.fst)
    (above, n) :: if p.isRemoved n || p.isPruned n then []
      else form.askAll (children.map Prod.snd)

variable {tree : Node} {p : EditPlan} {n : Node}

/-- An edit comes to a node, and below it unless the node goes away. -/
theorem reached_node (form : Form) (span : Span) (children : List Node) (above : Form) :
    p.reached (.node form span children) above
      = (above, .node form span children)
        :: if p.isRemoved (.node form span children) || p.isPruned (.node form span children) then []
          else form.askAll (children.map p.reached) := by
  rw [reached, fold_node]
  simp [Function.comp_def]

/-- An edit comes to the nodes of a program in their order. -/
theorem reached_sublist (t : Node) (above : Form) :
    ((p.reached t above).map Prod.snd).Sublist t.parts := by
  induction t generalizing above with
  | node form span children ih =>
      rw [reached_node, parts_node, List.map_cons]
      refine List.Sublist.cons_cons _ ?_
      split
      · exact List.nil_sublist _
      · exact Form.map_askAll_sublist ih

/-- What an edit comes to is part of the program. -/
theorem mem_parts_of_reached {t : Node} {above : Form} {place : Form × Node}
    (h : place ∈ p.reached t above) : place.2 ∈ t.parts :=
  (reached_sublist t above).subset (List.mem_map_of_mem h)

/-- What an edit does not come to stands below something that goes away. -/
theorem reached_or_below {t : Node} (hn : n ∈ t.parts) (above : Form) :
    (∃ a, (a, n) ∈ p.reached t above)
      ∨ ∃ m ∈ t.parts, (p.isRemoved m = true ∨ p.isPruned m = true)
          ∧ ∃ k ∈ m.children, n ∈ k.parts := by
  induction t generalizing above with
  | node form span children ih =>
      rw [reached_node]
      rcases mem_parts_node.mp hn with rfl | ⟨k, hk, hnk⟩
      · exact .inl ⟨above, List.mem_cons_self⟩
      by_cases hgoes : (p.isRemoved (node form span children)
          || p.isPruned (node form span children)) = true
      · exact .inr ⟨_, self_mem_parts _, Bool.or_eq_true_iff.mp hgoes, k, hk, hnk⟩
      · rw [if_neg hgoes]
        obtain ⟨above', -, hsub⟩ := form.exists_subset_askAll p.reached hk
        rcases ih k hk hnk above' with ⟨a, ha⟩ | ⟨m, hm, hrest⟩
        · exact .inl ⟨a, List.mem_cons_of_mem _ (hsub ha)⟩
        · exact .inr ⟨m, mem_parts_of_child hk hm, hrest⟩

/-- An edit comes to nothing below what goes away. -/
theorem stays_of_reached {t m k : Node} {above : Form} {place : Form × Node} (ht : t.WellPlaced)
    (h : place ∈ p.reached t above) (hbare : place.2.isBare = false) (hm : m ∈ t.parts)
    (hk : k ∈ m.children) (hn : place.2 ∈ k.parts) :
    (p.isRemoved m || p.isPruned m) = false := by
  induction t generalizing above with
  | node form span children ih =>
      rw [reached_node] at h
      rcases List.mem_cons.mp h with rfl | h
      · obtain rfl := eq_of_mem_parts hm (mem_parts_of_child hk hn)
        exact absurd (ht.rank_lt hk hn hbare rfl) (Nat.lt_irrefl _)
      · split at h
        case isTrue => cases h
        case isFalse hstays =>
          obtain ⟨k', hk', above', -, h, -⟩ := Form.exists_of_mem_askAll h
          rcases mem_parts_node.mp hm with rfl | ⟨k'', hk'', hmk⟩
          · exact eq_false_of_ne_true hstays
          · obtain rfl := ht.child_eq hk' hk'' (mem_parts_of_reached h)
              (mem_parts_trans (mem_parts_of_child hk hn) hmk) hbare
            exact ih k' hk' (ht.part (child_mem_parts hk')) h hmk

/-- What an edit comes to stands under the node that it is told of. -/
theorem under_of_reached {t : Node} {above : Form} {place : Form × Node}
    (h : place ∈ p.reached t above) :
    place = (above, t)
      ∨ ∃ q ∈ t.parts, place.2 ∈ q.children ∧ q.form.Under place.1 := by
  induction t generalizing above with
  | node form span children ih =>
      rw [reached_node] at h
      rcases List.mem_cons.mp h with rfl | h
      · exact .inl rfl
      split at h
      case isTrue => cases h
      case isFalse =>
        obtain ⟨k, hk, above', habove, h, -⟩ := Form.exists_of_mem_askAll h
        rcases ih k hk h with rfl | ⟨q, hq, hrest⟩
        · exact .inr ⟨_, self_mem_parts _, hk, habove.under⟩
        · exact .inr ⟨q, mem_parts_of_child hk hq, hrest⟩

/-- An edit comes to a node at most once. -/
theorem reached_pairwise (ht : tree.WellPlaced) (above : Form) :
    (p.reached tree above).Pairwise fun a b =>
      a.2.isBare = false → b.2.isBare = false → a.2 ≠ b.2 := by
  have hparts := (List.pairwise_filter.mp ht.pairwise_ne).sublist (reached_sublist (p := p) tree above)
  refine (List.pairwise_map.mp hparts).imp fun hab ha hb => hab ?_ ?_
  · rw [ha]; rfl
  · rw [hb]; rfl

/-- The nodes of some kind that an edit comes to are as many as their spans. -/
theorem countP_reached (ht : tree.WellPlaced) {above : Form} {sel : Form × Node → Bool}
    {spans : Finset Span} (hbare : ∀ a, sel a = true → a.2.isBare = false)
    (hsame : ∀ a ∈ p.reached tree above, ∀ b ∈ p.reached tree above, sel a = true → sel b = true →
      a.2.span = b.2.span → a.2 = b.2)
    (hspans : ∀ s, s ∈ spans ↔ ∃ a ∈ p.reached tree above, sel a = true ∧ a.2.span = s) :
    (p.reached tree above).countP sel = spans.card := by
  have hnodup : (((p.reached tree above).filter sel).map fun a => a.2.span).Nodup := by
    refine List.pairwise_map.mpr ?_
    refine ((reached_pairwise ht above).sublist List.filter_sublist).imp_of_mem
      fun {a b} ha hb hab hspan => ?_
    obtain ⟨ha, hsa⟩ := List.mem_filter.mp ha
    obtain ⟨hb, hsb⟩ := List.mem_filter.mp hb
    exact hab (hbare a hsa) (hbare b hsb) (hsame a ha b hb hsa hsb hspan)
  have hset : spans = (((p.reached tree above).filter sel).map fun a => a.2.span).toFinset := by
    ext s
    rw [hspans, List.mem_toFinset, List.mem_map]
    exact ⟨fun ⟨a, ha, hsel, hs⟩ => ⟨a, List.mem_filter.mpr ⟨ha, hsel⟩, hs⟩,
      fun ⟨a, ha, hs⟩ => ⟨a, (List.mem_filter.mp ha).1, (List.mem_filter.mp ha).2, hs⟩⟩
  rw [hset, List.toFinset_card_of_nodup hnodup, List.length_map, List.countP_eq_length_filter]

end EditPlan

end Graft
