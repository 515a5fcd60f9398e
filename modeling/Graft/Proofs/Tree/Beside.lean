import Graft.Proofs.Tree.Relabel
import Mathlib.Data.List.Zip
/-!
Nodes of two trees that stand side by side.

In two trees with the same outline the nodes go in pairs: those with the same number in the lists of
parts (`Node.Beside`). The children of a pair are pairs again (`Node.Beside.children`), and a node
that holds more than words and strings is in one pair only (`Node.Beside.right_unique`). Nodes of
one rank are told apart by their spans in one tree where they are in the other one
(`Node.Beside.span_eq_iff`).
-/
namespace Graft

/-- What two lists that go together are mapped to goes together too. -/
theorem zip_flatMap {α β γ δ : Type} {f : α → List γ} {g : β → List δ} {as : List α} {bs : List β}
    (h : List.Forall₂ (fun a b => (f a).length = (g b).length) as bs) :
    (as.flatMap f).zip (bs.flatMap g) = (as.zip bs).flatMap fun p => (f p.1).zip (g p.2) := by
  induction h with
  | nil => rfl
  | cons hlength _ ih =>
      rw [List.flatMap_cons, List.flatMap_cons, List.zip_append hlength, ih, List.zip_cons_cons,
        List.flatMap_cons]

namespace Form

@[simp] theorem rank_mapText (σ : TextMap) (form : Form) : (form.mapText σ).rank = form.rank := by
  cases form <;> rfl

@[simp] theorem isBare_mapText (σ : TextMap) (form : Form) :
    (form.mapText σ).isBare = form.isBare := by
  cases form <;> rfl

end Form

namespace Node

variable {σ : TextMap} {t u m n m' n' : Node}

theorem AlikeBy.rank_eq (h : m.AlikeBy σ n) : m.form.rank = n.form.rank := by
  rw [← Form.rank_mapText, h.form_eq, Form.rank_mapText]

theorem isBare_outline (n : Node) : (n.outline σ).isBare = n.isBare := by
  induction n with
  | node form span children ih =>
      rw [outline_node, isBare_node, isBare_node, Form.isBare_mapText, List.all_map]
      congr 1
      rw [Bool.eq_iff_iff, List.all_eq_true, List.all_eq_true]
      exact forall_congr' fun k => imp_congr_right fun hk => by rw [Function.comp_apply, ih k hk]

theorem AlikeBy.isBare_eq (h : m.AlikeBy σ n) : n.isBare = m.isBare := by
  rw [← isBare_outline (σ := σ), ← h, isBare_outline]

/-- A part that holds more than words and strings has one number. -/
theorem WellPlaced.index_eq {i j : Nat} (ht : t.WellPlaced) (hbare : m.isBare = false)
    (hmi : t.parts[i]? = some m) (hmj : t.parts[j]? = some m) : i = j := by
  have hne := List.pairwise_filter.mp ht.pairwise_ne
  obtain ⟨hi, hmi⟩ := List.getElem?_eq_some_iff.mp hmi
  obtain ⟨hj, hmj⟩ := List.getElem?_eq_some_iff.mp hmj
  have hapart : ∀ {i j : Nat} (hi : i < t.parts.length) (hj : j < t.parts.length),
      t.parts[i] = m → t.parts[j] = m → ¬ i < j := by
    intro i j hi hj hmi hmj hlt
    refine List.pairwise_iff_getElem.mp hne i j hi hj hlt ?_ ?_ (hmi.trans hmj.symm)
    · rw [hmi, hbare]
      rfl
    · rw [hmj, hbare]
      rfl
  exact Nat.le_antisymm (Nat.le_of_not_lt (hapart hj hi hmj hmi))
    (Nat.le_of_not_lt (hapart hi hj hmi hmj))

/-- Whether two nodes have the same number in the lists of parts of two trees. -/
def Beside (t u m n : Node) : Prop := (m, n) ∈ t.parts.zip u.parts

namespace Beside

/-- Two trees stand side by side with each other. -/
theorem self (t u : Node) : Beside t u t u := by
  obtain ⟨form, span, ks⟩ := t
  obtain ⟨form', span', js⟩ := u
  rw [Beside, parts_node, parts_node, List.zip_cons_cons]
  exact List.mem_cons_self

theorem left_mem (h : Beside t u m n) : m ∈ t.parts := (List.of_mem_zip h).1

theorem right_mem (h : Beside t u m n) : n ∈ u.parts := (List.of_mem_zip h).2

/-- What stands side by side in two trees with the same outline has the same outline. -/
theorem alikeBy (h : Beside t u m n) (halike : t.AlikeBy σ u) : m.AlikeBy σ n :=
  (List.forall₂_iff_zip.mp halike.forall₂_parts).2 h

/-- Side by side in two trees stand the trees themselves, and what does so in two children that
do. -/
theorem node_iff {form form' : Form} {span span' : Span} {ks js : List Node}
    (halike : List.Forall₂ (AlikeBy σ) ks js) :
    Beside (node form span ks) (node form' span' js) m n
      ↔ (m = node form span ks ∧ n = node form' span' js)
        ∨ ∃ k l, (k, l) ∈ ks.zip js ∧ Beside k l m n := by
  have hparts : List.Forall₂ (fun k l : Node => k.parts.length = l.parts.length) ks js :=
    halike.imp fun _ _ h => h.length_parts
  rw [Beside, parts_node, parts_node, List.zip_cons_cons, List.mem_cons, zip_flatMap hparts,
    List.mem_flatMap, Prod.mk.injEq, Prod.exists]
  rfl

/-- Beside two nodes without children nothing else stands. -/
theorem of_leaves {form form' : Form} {span span' : Span}
    (h : Beside (node form span []) (node form' span' []) m n) :
    m = node form span [] ∧ n = node form' span' [] := by
  rcases (node_iff (σ := id) .nil).mp h with heq | ⟨_, _, hkl, _⟩
  · exact heq
  · cases hkl

/-- What stands side by side in two nodes that do. -/
theorem trans {a b : Node} (h : Beside t u m n) (h' : Beside m n a b) (halike : t.AlikeBy σ u) :
    Beside t u a b := by
  induction t generalizing u with
  | node form span ks ih =>
      obtain ⟨form', span', js⟩ := u
      have hchildren : List.Forall₂ (AlikeBy σ) ks js := halike.forall₂_children
      rcases (node_iff hchildren).mp h with ⟨rfl, rfl⟩ | ⟨k, l, hkl, h⟩
      · exact h'
      · have hsame := (List.forall₂_iff_zip.mp hchildren).2 hkl
        exact (node_iff hchildren).mpr (.inr ⟨k, l, hkl, ih k (List.of_mem_zip hkl).1 h hsame⟩)

/-- The children of two nodes side by side stand side by side. -/
theorem children (h : Beside t u m n) (halike : t.AlikeBy σ u) :
    List.Forall₂ (Beside t u) m.children n.children := by
  obtain ⟨form, span, ks⟩ := m
  obtain ⟨form', span', js⟩ := n
  have hchildren : List.Forall₂ (AlikeBy σ) ks js := (h.alikeBy halike).forall₂_children
  refine List.forall₂_iff_zip.mpr ⟨hchildren.length_eq, fun hkl => ?_⟩
  exact h.trans ((node_iff hchildren).mpr (.inr ⟨_, _, hkl, self _ _⟩)) halike

/-- The parts of two nodes side by side stand side by side. -/
theorem parts (h : Beside t u m n) (halike : t.AlikeBy σ u) :
    List.Forall₂ (Beside t u) m.parts n.parts :=
  List.forall₂_iff_zip.mpr
    ⟨(h.alikeBy halike).length_parts, fun hab => h.trans hab halike⟩

/-- What stands side by side in two trees that are the same relabelled is the same relabelled. -/
theorem relabel_eq {f g : NodeKey → Nat} (h : Beside t u m n) (halike : t.AlikeBy σ u)
    (hsame : t.relabel σ f = u.relabel σ g) : m.relabel σ f = n.relabel σ g := by
  induction t generalizing u with
  | node form span ks ih =>
      obtain ⟨form', span', js⟩ := u
      have hchildren : List.Forall₂ (AlikeBy σ) ks js := halike.forall₂_children
      rcases (node_iff hchildren).mp h with ⟨rfl, rfl⟩ | ⟨k, l, hkl, h⟩
      · exact hsame
      · have hmap := congrArg Node.children hsame
        rw [children_relabel, children_relabel] at hmap
        exact ih k (List.of_mem_zip hkl).1 h ((List.forall₂_iff_zip.mp hchildren).2 hkl)
          ((List.forall₂_iff_zip.mp (forall₂_of_map_eq hmap)).2 hkl)

/-- A node that holds more than words and strings has one node beside it. -/
theorem right_unique (ht : t.WellPlaced) (hbare : m.isBare = false) (h : Beside t u m n)
    (h' : Beside t u m n') : n = n' := by
  obtain ⟨i, hi⟩ := List.mem_iff_getElem?.mp h
  obtain ⟨j, hj⟩ := List.mem_iff_getElem?.mp h'
  obtain ⟨him, hin⟩ := List.getElem?_zip_eq_some.mp hi
  obtain ⟨hjm, hjn⟩ := List.getElem?_zip_eq_some.mp hj
  obtain rfl := ht.index_eq hbare him hjm
  exact Option.some.inj (hin.symm.trans hjn)

theorem symm (h : Beside t u m n) : Beside u t n m := by
  rw [Beside, ← List.zip_swap]
  exact List.mem_map_of_mem h

theorem isBare_eq (h : Beside t u m n) (halike : t.AlikeBy σ u) : n.isBare = m.isBare :=
  (h.alikeBy halike).isBare_eq

/-- Nodes of one rank have one span in one tree exactly if the nodes beside them do in the other
one. -/
theorem span_eq_iff (ht : t.WellPlaced) (hu : u.WellPlaced) (halike : t.AlikeBy σ u)
    (h : Beside t u m n) (h' : Beside t u m' n') (hm : m.isBare = false) (hm' : m'.isBare = false)
    (hrank : m.form.rank = m'.form.rank) : m.span = m'.span ↔ n.span = n'.span := by
  constructor
  · intro hspan
    obtain rfl := ht.eq_of_span_eq h.left_mem h'.left_mem hm hm' hspan hrank
    rw [right_unique ht hm h h']
  · intro hspan
    have hn := (h.isBare_eq halike).trans hm
    have hrank' : n.form.rank = n'.form.rank := by
      rw [← (h.alikeBy halike).rank_eq, ← (h'.alikeBy halike).rank_eq, hrank]
    obtain rfl := hu.eq_of_span_eq h.right_mem h'.right_mem hn
      ((h'.isBare_eq halike).trans hm') hspan hrank'
    rw [right_unique hu hn h.symm h'.symm]

end Beside

end Node

end Graft
