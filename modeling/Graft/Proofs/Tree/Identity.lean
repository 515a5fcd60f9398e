import Graft.Proofs.Tree.Placement
/-!
In a well-placed tree a span says which node is meant.

# Inside and apart

Every part of a tree stands inside the tree, and a part that covers all of it is of lower rank
(`WellPlaced.within`), by induction on the tree. Two parts that stand in different children are
apart (`Fits.parts_apart`). So two parts with one span lie one inside the other
(`WellPlaced.nested_of_span_eq`), and if they are of one rank they are one node
(`WellPlaced.eq_of_span_eq`).

# Bare parts

Words and strings that are set aside may stand where another word stands. They are left out of all
of this by asking for parts that are not bare (`Node.isBare`): no edit and no analysis looks for a
bare node by its span.

# Lists of parts

The same walk over the tree shows that selected parts have different spans, or different starts, in
the order in which they are listed (`WellPlaced.pairwise`): a relation that holds of parts that
stand apart, and of a part and those inside it, holds of any two.
-/
namespace Graft

namespace Node

-- ============================================================ parts in their place

/-- A node is bare when its form and all of its children are. -/
theorem isBare_node (form : Form) (span : Span) (children : List Node) :
    (node form span children).isBare = (form.isBare && children.all isBare) := by
  rw [isBare, fold_node, List.all_map]
  rfl

theorem isBare_eq_false_of_form {n : Node} (h : n.form.isBare = false) : n.isBare = false := by
  cases n with
  | node form span children =>
      rw [isBare_node, show form.isBare = false from h]
      rfl

/-- What holds nothing but words and strings has no other parts. -/
theorem isBare_of_mem_parts {t m : Node} (ht : t.isBare = true) (hm : m ∈ t.parts) :
    m.isBare = true := by
  induction t with
  | node form span children ih =>
      rcases mem_parts_node.mp hm with rfl | ⟨k, hk, hmk⟩
      · exact ht
      · rw [isBare_node, Bool.and_eq_true] at ht
        exact ih k hk (List.all_eq_true.mp ht.2 k hk) hmk

/-- What is missing from a tree is bare. -/
theorem isBare_of_isAbsent {n : Node} (hw : n.WellPlaced) (h : n.isAbsent = true) :
    n.isBare = true := by
  cases hw with
  | node fits parts =>
  cases form_of_isAbsent h
  rw [fits.word rfl]
  rfl

/-- The parts of a well-placed tree are well placed. -/
theorem WellPlaced.part {t m : Node} (ht : t.WellPlaced) (hm : m ∈ t.parts) : m.WellPlaced := by
  induction t with
  | node form span children ih =>
      rcases mem_parts_node.mp hm with rfl | ⟨k, hk, hmk⟩
      · exact ht
      · cases ht with
        | node fits parts => exact ih k hk (parts k hk) hmk

/-- A child with parts that are not bare stands among the children in a row. -/
theorem Fits.child_placed {form : Form} {span : Span} {children : List Node} {k m : Node}
    (fits : Fits form span children) (hw : k.WellPlaced) (hk : k ∈ children) (hm : m ∈ k.parts)
    (hbare : m.isBare = false) :
    k ∈ form.placed children ∧ k.isAbsent = false ∧ k.Sits span.start span.stop := by
  have hkbare : k.isBare = false := by
    refine eq_false_of_ne_true fun h => ?_
    rw [isBare_of_mem_parts h hm] at hbare
    cases hbare
  have hplaced : k ∈ form.placed children := by
    rcases form.mem_placed_or_aside hk with h | h
    · exact h
    · rw [fits.aside k h] at hkbare
      cases hkbare
  have hpresent : k.isAbsent = false := by
    refine eq_false_of_ne_true fun h => ?_
    rw [isBare_of_isAbsent hw h] at hkbare
    cases hkbare
  exact ⟨hplaced, hpresent, fits.row.sits k hplaced hpresent⟩

/-- How a part stands in a tree: it is the tree, or it stands inside and is of lower rank if it
covers all of the tree. -/
structure Within (t m : Node) : Prop where
  start : t.span.start ≤ m.span.start
  stop : m.span.stop ≤ t.span.stop
  proper : m ≠ t → m.span.start < m.span.stop
  rank : m.span = t.span → m.form.rank ≤ t.form.rank

/-- What is known of a part below a child, given how it stands in the child. -/
theorem Fits.below {form : Form} {span : Span} {children : List Node} {k m : Node}
    (fits : Fits form span children) (hw : k.WellPlaced) (hk : k ∈ children) (hm : m ∈ k.parts)
    (hbare : m.isBare = false) (hin : k.Within m) :
    m.Sits span.start span.stop ∧ (m.span = span → m.form.rank < form.rank) := by
  obtain ⟨hplaced, hpresent, h₁, h₂, h₃⟩ := fits.child_placed hw hk hm hbare
  have hlt : m.span.start < m.span.stop := by
    by_cases heq : m = k
    · exact heq ▸ h₂
    · exact hin.proper heq
  refine ⟨⟨Nat.le_trans h₁ hin.start, hlt, Nat.le_trans hin.stop h₃⟩, fun hspan => ?_⟩
  -- whatever covers the tree covers the child that it stands in
  have hkspan : k.span = span := by
    have h₄ := hin.start
    have h₅ := hin.stop
    rw [hspan] at h₄ h₅
    exact Span.mk.injEq .. ▸ ⟨Nat.le_antisymm h₄ h₁, Nat.le_antisymm h₃ h₅⟩
  exact Nat.lt_of_le_of_lt (hin.rank (hspan.trans hkspan.symm))
    (fits.inner k hplaced hpresent hkspan)

/-- A part that is not bare lies within the tree. -/
theorem WellPlaced.within {t m : Node} (ht : t.WellPlaced) (hm : m ∈ t.parts)
    (hbare : m.isBare = false) : t.Within m := by
  induction t with
  | node form span children ih =>
      rcases mem_parts_node.mp hm with rfl | ⟨k, hk, hmk⟩
      · exact ⟨Nat.le_refl _, Nat.le_refl _, fun h => absurd rfl h, fun _ => Nat.le_refl _⟩
      · cases ht with
        | node fits parts =>
          obtain ⟨⟨h₁, h₂, h₃⟩, hrank⟩ :=
            fits.below (parts k hk) hk hmk hbare (ih k hk (parts k hk) hmk)
          exact ⟨h₁, h₃, fun _ => h₂, fun h => Nat.le_of_lt (hrank h)⟩

/-- A part that is not the tree was read from the text. -/
theorem WellPlaced.span_ne_none {t m : Node} (ht : t.WellPlaced) (hm : m ∈ t.parts)
    (hbare : m.isBare = false) (hne : m ≠ t) : m.span ≠ .none := by
  intro heq
  have hlt := (ht.within hm hbare).proper hne
  rw [heq] at hlt
  exact Nat.lt_irrefl _ hlt

/-- A part below a child is of lower rank if it covers the tree. -/
theorem WellPlaced.rank_lt {t k m : Node} (ht : t.WellPlaced) (hk : k ∈ t.children)
    (hm : m ∈ k.parts) (hbare : m.isBare = false) (hspan : m.span = t.span) :
    m.form.rank < t.form.rank := by
  cases ht with
  | node fits parts =>
    exact (fits.below (parts k hk) hk hm hbare ((parts k hk).within hm hbare)).2 hspan

/-- Two elements of a list that are not the same stand in it one way or the other. -/
theorem pairwise_of_ne {α : Type} {R : α → α → Prop} {l : List α} {a b : α} (h : l.Pairwise R)
    (ha : a ∈ l) (hb : b ∈ l) (hne : a ≠ b) : R a b ∨ R b a := by
  have hall := List.Pairwise.forall_of_forall_of_flip (R := fun a b => a = b ∨ R a b ∨ R b a)
    (fun _ _ => .inl rfl) (h.imp fun hab => .inr (.inl hab)) (h.imp fun hab => .inr (.inr hab))
  exact (hall ha hb).resolve_left hne

/-- A part below a child is not empty and stands in the child. -/
theorem Fits.part_sits {form : Form} {span : Span} {children : List Node} {k m : Node}
    (fits : Fits form span children) (hw : k.WellPlaced) (hk : k ∈ children) (hm : m ∈ k.parts)
    (hbare : m.isBare = false) : m.Sits k.span.start k.span.stop := by
  have hin := hw.within hm hbare
  exact ⟨hin.start, (fits.below hw hk hm hbare hin).1.2.1, hin.stop⟩

/-- Parts below two children of one node stand apart. -/
theorem Fits.parts_apart {form : Form} {span : Span} {children : List Node} {k k' m n : Node}
    (fits : Fits form span children) (hw : ∀ k ∈ children, k.WellPlaced) (hk : k ∈ children)
    (hk' : k' ∈ children) (hne : k ≠ k') (hm : m ∈ k.parts) (hn : n ∈ k'.parts)
    (hmb : m.isBare = false) (hnb : n.isBare = false) :
    m.span.stop ≤ n.span.start ∨ n.span.stop ≤ m.span.start := by
  obtain ⟨hplaced, hp, -⟩ := fits.child_placed (hw k hk) hk hm hmb
  obtain ⟨hplaced', hp', -⟩ := fits.child_placed (hw k' hk') hk' hn hnb
  obtain ⟨h₁, -, h₃⟩ := fits.part_sits (hw k hk) hk hm hmb
  obtain ⟨h₄, -, h₆⟩ := fits.part_sits (hw k' hk') hk' hn hnb
  rcases pairwise_of_ne fits.row.apart hplaced hplaced' hne with h | h
  · have := h hp hp'
    omega
  · have := h hp' hp
    omega

/-- The children of a node that hold more than words stand in it in their order. -/
theorem Fits.apart {form : Form} {span : Span} {children : List Node}
    (fits : Fits form span children) (hw : ∀ k ∈ children, k.WellPlaced) :
    children.Pairwise fun k k' =>
      k.isBare = false → k'.isBare = false → k.span.stop ≤ k'.span.start := by
  -- among the placed children this is what the row says, as a bare one is absent there
  have hplaced : (form.placed children).Pairwise fun k k' =>
      k.isBare = false → k'.isBare = false → k.span.stop ≤ k'.span.start := by
    refine fits.row.apart.imp_of_mem fun hk hk' hkk hkb hkb' => ?_
    have hmem := (form.placed_sublist children).subset hk
    have hmem' := (form.placed_sublist children).subset hk'
    exact hkk (fits.child_placed (hw _ hmem) hmem (self_mem_parts _) hkb).2.1
      (fits.child_placed (hw _ hmem') hmem' (self_mem_parts _) hkb').2.1
  have haside := fits.aside
  unfold Form.placed at hplaced
  unfold Form.aside at haside
  -- the children set aside are bare, so they stand apart from every other by themselves
  split at hplaced
  case h_6 first others =>
    refine List.pairwise_cons.mpr ⟨fun k hk _ hkb => ?_, ?_⟩
    · rw [haside k hk] at hkb
      cases hkb
    · refine List.Pairwise.imp_of_mem (R := fun _ _ => True) (fun hk _ _ hkb => ?_)
        (List.pairwise_of_forall fun _ _ => trivial)
      rw [haside _ hk] at hkb
      cases hkb
  case h_7 =>
    refine List.Pairwise.imp_of_mem (R := fun _ _ => True) (fun hk _ _ hkb => ?_)
      (List.pairwise_of_forall fun _ _ => trivial)
    rw [haside _ hk] at hkb
    cases hkb
  case h_8 => exact hplaced
  all_goals
    refine List.pairwise_cons.mpr ⟨fun k _ hfirst => ?_, hplaced⟩
    rw [haside _ (List.mem_singleton_self _)] at hfirst
    cases hfirst

-- ============================================================ parts told apart

/-- A part that has the tree below it is the tree. -/
theorem eq_of_mem_parts {m n : Node} (hm : m ∈ n.parts) (hn : n ∈ m.parts) : m = n := by
  have hle : ∀ {a b : Node}, a ∈ b.parts → a = b ∨ sizeOf a < sizeOf b := by
    intro a b h
    induction b with
    | node form span children ih =>
        rcases mem_parts_node.mp h with rfl | ⟨k, hk, hak⟩
        · exact .inl rfl
        · have hlt := List.sizeOf_lt_of_mem hk
          have hsize : sizeOf (node form span children)
              = 1 + sizeOf form + sizeOf span + sizeOf children := Node.node.sizeOf_spec ..
          rcases ih k hk hak with rfl | h
          · exact .inr (by omega)
          · exact .inr (by omega)
  rcases hle hm with h | h
  · exact h
  · rcases hle hn with h' | h'
    · exact h'.symm
    · omega

/-- A part stands below one child only. -/
theorem WellPlaced.child_eq {q k k' m : Node} (hq : q.WellPlaced) (hk : k ∈ q.children)
    (hk' : k' ∈ q.children) (hm : m ∈ k.parts) (hm' : m ∈ k'.parts) (hbare : m.isBare = false) :
    k = k' := by
  cases hq with
  | node fits parts =>
    refine Classical.byContradiction fun hne => ?_
    have hapart := fits.parts_apart parts hk hk' hne hm hm' hbare hbare
    have hlt := (fits.part_sits (parts k hk) hk hm hbare).2.1
    omega

/-- Of two parts with one span one stands in the other. -/
theorem WellPlaced.nested_of_span_eq {t m n : Node} (ht : t.WellPlaced) (hm : m ∈ t.parts)
    (hn : n ∈ t.parts) (hmb : m.isBare = false) (hnb : n.isBare = false)
    (hspan : m.span = n.span) : m ∈ n.parts ∨ n ∈ m.parts := by
  induction t with
  | node form span children ih =>
      rcases mem_parts_node.mp hm with rfl | ⟨k, hk, hmk⟩
      · exact .inr hn
      rcases mem_parts_node.mp hn with rfl | ⟨k', hk', hnk'⟩
      · exact .inl hm
      cases ht with
      | node fits parts =>
        by_cases heq : k = k'
        · subst heq
          exact ih k hk (parts k hk) hmk hnk'
        · have hapart := fits.parts_apart parts hk hk' heq hmk hnk' hmb hnb
          have hlt := (fits.part_sits (parts k hk) hk hmk hmb).2.1
          rw [hspan] at hapart hlt
          omega

/-- Of two parts with a part in common one stands in the other. -/
theorem WellPlaced.nested {t m m' n : Node} (ht : t.WellPlaced) (hm : m ∈ t.parts)
    (hm' : m' ∈ t.parts) (hn : n ∈ m.parts) (hn' : n ∈ m'.parts) (hbare : n.isBare = false) :
    m ∈ m'.parts ∨ m' ∈ m.parts := by
  induction t with
  | node form span children ih =>
      rcases mem_parts_node.mp hm with rfl | ⟨k, hk, hmk⟩
      · exact .inr hm'
      rcases mem_parts_node.mp hm' with rfl | ⟨k', hk', hmk'⟩
      · exact .inl hm
      obtain rfl := ht.child_eq hk hk' (mem_parts_trans hn hmk) (mem_parts_trans hn' hmk') hbare
      exact ih k hk (ht.part (child_mem_parts hk)) hmk hmk'

/-- Between a node and a child of it nothing stands. -/
theorem WellPlaced.eq_or_eq_of_child {q x n : Node} (hq : q.WellPlaced) (hn : n ∈ q.children)
    (hx : x ∈ q.parts) (hin : n ∈ x.parts) (hbare : n.isBare = false) : x = n ∨ x = q := by
  cases q with
  | node form span children =>
      rcases mem_parts_node.mp hx with rfl | ⟨k, hk, hxk⟩
      · exact .inr rfl
      · obtain rfl := hq.child_eq hk hn (mem_parts_trans hin hxk) (self_mem_parts _) hbare
        exact .inl (eq_of_mem_parts hxk hin)

/-- A part stands under one node only. -/
theorem WellPlaced.parent_eq {t q q' n : Node} (ht : t.WellPlaced) (hq : q ∈ t.parts)
    (hq' : q' ∈ t.parts) (hn : n ∈ q.children) (hn' : n ∈ q'.children)
    (hbare : n.isBare = false) : q = q' := by
  -- if one stood below the other, it would be `n`, which is no child of itself
  have hbelow : ∀ {a b : Node}, a ∈ t.parts → n ∈ a.children → b ∈ a.parts → n ∈ b.children →
      a = b := by
    intro a b ha hna hba hnb
    rcases (ht.part ha).eq_or_eq_of_child hna hba (child_mem_parts hnb) hbare with rfl | rfl
    · have hrank := (ht.part (mem_parts_trans hba ha)).rank_lt hnb (self_mem_parts _) hbare rfl
      exact absurd hrank (Nat.lt_irrefl _)
    · rfl
  rcases ht.nested hq hq' (child_mem_parts hn) (child_mem_parts hn') hbare with h | h
  · exact (hbelow hq' hn' h hn).symm
  · exact hbelow hq hn h hn'

/-- What covers the whole tree and is of its rank is the tree. -/
theorem WellPlaced.eq_of_covers {t m : Node} (ht : t.WellPlaced) (hm : m ∈ t.parts)
    (hbare : m.isBare = false) (hspan : m.span = t.span) (hrank : m.form.rank = t.form.rank) :
    m = t := by
  cases t with
  | node form span children =>
      rcases mem_parts_node.mp hm with rfl | ⟨k, hk, hmk⟩
      · rfl
      · exact absurd hrank (Nat.ne_of_lt (ht.rank_lt hk hmk hbare hspan))

/-- Parts of one rank with one span are one node. -/
theorem WellPlaced.eq_of_span_eq {t m n : Node} (ht : t.WellPlaced) (hm : m ∈ t.parts)
    (hn : n ∈ t.parts) (hmb : m.isBare = false) (hnb : n.isBare = false)
    (hspan : m.span = n.span) (hrank : m.form.rank = n.form.rank) : m = n := by
  rcases ht.nested_of_span_eq hm hn hmb hnb hspan with h | h
  · exact (ht.part hn).eq_of_covers h hmb hspan hrank
  · exact ((ht.part hm).eq_of_covers h hnb hspan.symm hrank.symm).symm

/-- A child of a node of the lowest rank covers no tree that the node is a part of. -/
theorem WellPlaced.span_ne_of_child {t q n : Node} (ht : t.WellPlaced) (hq : q ∈ t.parts)
    (hrank : q.form.rank = 1) (hn : n ∈ q.children) (hnb : n.isBare = false) :
    n.span ≠ t.span := by
  intro heq
  have hqb : q.isBare = false := by
    refine eq_false_of_ne_true fun h => ?_
    rw [isBare_of_mem_parts h (child_mem_parts hn)] at hnb
    cases hnb
  have hin := ht.within hq hqb
  have hqw := ht.part hq
  cases hqw with
  | node fits parts =>
    obtain ⟨hplaced, hpresent, h₁, -, h₃⟩ :=
      fits.child_placed (parts n hn) hn (self_mem_parts n) hnb
    refine fits.span_ne hrank n hplaced hpresent ?_
    have h₄ := hin.start
    have h₅ := hin.stop
    rw [heq] at h₁ h₃
    rw [heq]
    exact Span.mk.injEq .. ▸ ⟨Nat.le_antisymm h₄ h₁, Nat.le_antisymm h₃ h₅⟩

/-- Children of nodes of the lowest rank are told apart by their spans alone. -/
theorem WellPlaced.child_eq_of_span_eq {t q q' m n : Node} (ht : t.WellPlaced)
    (hq : q ∈ t.parts) (hq' : q' ∈ t.parts) (hrank : q.form.rank = 1) (hrank' : q'.form.rank = 1)
    (hm : m ∈ q.children) (hn : n ∈ q'.children) (hmb : m.isBare = false)
    (hnb : n.isBare = false) (hspan : m.span = n.span) : m = n := by
  induction t with
  | node form span children ih =>
      cases ht with
      | node fits parts =>
      -- two nodes with one span are below one child
      have hbelow : ∀ {k k' a b : Node}, k ∈ children → k' ∈ children → a ∈ k.parts →
          b ∈ k'.parts → a.isBare = false → b.isBare = false → a.span = b.span → k = k' := by
        intro k k' a b hk hk' ha hb hab hbb hs
        refine Classical.byContradiction fun hne => ?_
        have hapart := fits.parts_apart parts hk hk' hne ha hb hab hbb
        have hlt := (fits.part_sits (parts k hk) hk ha hab).2.1
        rw [hs] at hapart hlt
        omega
      -- a child is not a grandchild
      have hover : ∀ {k a b p : Node}, k ∈ children → p ∈ children → a ∈ p.parts →
          a.form.rank = 1 → b ∈ a.children → b.isBare = false → k.isBare = false →
          k.span ≠ b.span := by
        intro k a b p hk hp ha hra hb hbb hkb hs
        have hbp : b ∈ p.parts := mem_parts_trans (child_mem_parts hb) ha
        obtain rfl := hbelow hk hp (self_mem_parts k) hbp hkb hbb hs
        exact (parts k hk).span_ne_of_child ha hra hb hbb hs.symm
      rcases mem_parts_node.mp hq with rfl | ⟨k, hk, hqk⟩
      · rcases mem_parts_node.mp hq' with rfl | ⟨k', hk', hqk'⟩
        · exact hbelow hm hn (self_mem_parts m) (self_mem_parts n) hmb hnb hspan
        · exact absurd hspan (hover hm hk' hqk' hrank' hn hnb hmb)
      · rcases mem_parts_node.mp hq' with rfl | ⟨k', hk', hqk'⟩
        · exact absurd hspan.symm (hover hn hk hqk hrank hm hmb hnb)
        · have hmk := mem_parts_trans (child_mem_parts hm) hqk
          have hnk := mem_parts_trans (child_mem_parts hn) hqk'
          obtain rfl := hbelow hk hk' hmk hnk hmb hnb hspan
          exact ih k hk (parts k hk) hqk hqk'

-- ============================================================ parts in order

/-- What is asked of the children of a node is asked of those in a row only, if the others have
nothing to answer. -/
theorem flatMap_placed {α : Type} (form : Form) {children : List Node} {f : Node → List α}
    (h : ∀ k ∈ form.aside children, f k = []) :
    children.flatMap f = (form.placed children).flatMap f := by
  unfold Form.aside at h
  unfold Form.placed
  split at h
  case h_6 first others =>
    have hothers : others.flatMap f = [] := List.flatMap_eq_nil_iff.mpr h
    simp [hothers]
  case h_7 => simpa using List.flatMap_eq_nil_iff.mpr h
  case h_8 => rfl
  all_goals
    rename_i first others
    simp [h first List.mem_cons_self]

/-- Selected parts, in the order in which they are listed: a relation that holds of parts that
stand apart, and of a part and those inside it, holds of any two. -/
theorem WellPlaced.pairwise {t : Node} {sel : Node → Bool} {R : Node → Node → Prop}
    (ht : t.WellPlaced) (hbare : ∀ n, sel n = true → n.isBare = false)
    (hapart : ∀ m n, m.span.start < m.span.stop → m.span.stop ≤ n.span.start → R m n)
    (hinside : ∀ m ∈ t.parts, sel m = true → ∀ k ∈ m.children, ∀ n ∈ k.parts,
      sel n = true → R m n) :
    (t.parts.filter sel).Pairwise R := by
  induction t with
  | node form span children ih =>
      cases ht with
      | node fits parts =>
      rw [parts_node, List.filter_cons, List.filter_flatMap]
      have hchild : ∀ k ∈ children, (k.parts.filter sel).Pairwise R := fun k hk =>
        ih k hk (parts k hk) fun m hm => hinside m (mem_parts_node.mpr (.inr ⟨k, hk, hm⟩))
      -- parts of two children stand apart, as the children do; parts of one child are the
      -- induction's
      have hchildren : (children.flatMap fun k => k.parts.filter sel).Pairwise R := by
        rw [flatMap_placed form]
        · refine List.pairwise_flatMap.mpr ⟨fun k hk =>
            hchild k ((form.placed_sublist children).subset hk), ?_⟩
          refine fits.row.apart.imp_of_mem fun {k k'} hk hk' hkk m hm n hn => ?_
          obtain ⟨hm, hms⟩ := List.mem_filter.mp hm
          obtain ⟨hn, hns⟩ := List.mem_filter.mp hn
          have hmem := (form.placed_sublist children).subset hk
          have hmem' := (form.placed_sublist children).subset hk'
          obtain ⟨-, hp, -⟩ := fits.child_placed (parts k hmem) hmem hm (hbare m hms)
          obtain ⟨-, hp', -⟩ := fits.child_placed (parts k' hmem') hmem' hn (hbare n hns)
          obtain ⟨-, hlt, hstop⟩ := fits.part_sits (parts k hmem) hmem hm (hbare m hms)
          obtain ⟨hstart, -, -⟩ := fits.part_sits (parts k' hmem') hmem' hn (hbare n hns)
          exact hapart m n hlt (Nat.le_trans hstop (Nat.le_trans (hkk hp hp') hstart))
        · -- the children that are not placed hold bare nodes only, and none of these is selected
          intro k hk
          refine List.filter_eq_nil_iff.mpr fun m hm hms => ?_
          have h := hbare m hms
          rw [isBare_of_mem_parts (fits.aside k hk) hm] at h
          cases h
      split
      -- the node itself comes first, and every other part lies inside it
      case isTrue hsel =>
        refine List.pairwise_cons.mpr ⟨fun n hn => ?_, hchildren⟩
        obtain ⟨k, hk, hnk⟩ := List.mem_flatMap.mp hn
        obtain ⟨hn, hns⟩ := List.mem_filter.mp hnk
        exact hinside _ (self_mem_parts _) hsel k hk n hn hns
      case isFalse => exact hchildren

/-- No part is listed twice, unless it holds nothing but words. -/
theorem WellPlaced.pairwise_ne {t : Node} (ht : t.WellPlaced) :
    (t.parts.filter fun n => !n.isBare).Pairwise (· ≠ ·) := by
  refine ht.pairwise (fun n hn => by simpa using hn) (fun m n hlt hle heq => ?_)
    fun m hm _ k hk n hn hns heq => ?_
  · subst heq
    omega
  · subst heq
    exact Nat.lt_irrefl _ ((ht.part hm).rank_lt hk hn (by simpa using hns) rfl)

/-- Parts of one rank have different spans. -/
theorem WellPlaced.pairwise_span_ne {t : Node} {sel : Node → Bool} {rank : Nat}
    (ht : t.WellPlaced) (hbare : ∀ n, sel n = true → n.isBare = false)
    (hrank : ∀ n, sel n = true → n.form.rank = rank) :
    (t.parts.filter sel).Pairwise fun m n => m.span ≠ n.span := by
  refine ht.pairwise hbare (fun m n hlt hle heq => ?_) fun m hm hms k hk n hn hns heq => ?_
  · rw [heq] at hlt hle
    omega
  · have hlt := (ht.part hm).rank_lt hk hn (hbare n hns) heq.symm
    rw [hrank m hms, hrank n hns] at hlt
    exact absurd hlt (Nat.lt_irrefl rank)

/-- Words start at different offsets. -/
theorem WellPlaced.pairwise_start_ne {t : Node} {sel : Node → Bool} (ht : t.WellPlaced)
    (hbare : ∀ n, sel n = true → n.isBare = false)
    (hword : ∀ n, sel n = true → n.form.isWord = true) :
    (t.parts.filter sel).Pairwise fun m n => m.span.start ≠ n.span.start := by
  refine ht.pairwise hbare (fun m n hlt hle heq => ?_) fun m hm hms k hk => ?_
  · omega
  · have hmw := ht.part hm
    cases hmw with
    | node fits parts =>
      rw [children, fits.word (hword _ hms)] at hk
      cases hk

end Node

end Graft
