import Graft.Proofs.Tree.Parts
/-!
Trees that differ in nothing but where their nodes were read.
-/
namespace Graft

/-- A text is what the string of it says. -/
theorem StringUnit.plainText_ofText (text : String) : plainText (ofText text) = text := by
  have hhalves : (text.toList.map StringUnit.scalar).any isHalf = false := by
    simp [isHalf]
  simp [plainText, ofText, hhalves, List.flatMap_map, List.flatMap_singleton']

namespace Node

mutual

/-- Whether two trees are one. -/
def decEq : (m n : Node) → Decidable (m = n)
  | .node f s ks, .node g t js =>
      if h : f = g ∧ s = t then
        match decEqAll ks js with
        | isTrue hks => isTrue (by rw [h.1, h.2, hks])
        | isFalse hks => isFalse fun heq => hks (Node.node.inj heq).2.2
      else isFalse fun heq => h ⟨(Node.node.inj heq).1, (Node.node.inj heq).2.1⟩

def decEqAll : (ms ns : List Node) → Decidable (ms = ns)
  | [], [] => isTrue rfl
  | [], _ :: _ => isFalse nofun
  | _ :: _, [] => isFalse nofun
  | m :: ms, n :: ns =>
      match decEq m n, decEqAll ms ns with
      | isTrue h, isTrue hs => isTrue (by rw [h, hs])
      | isFalse h, _ => isFalse fun heq => h (List.cons.inj heq).1
      | _, isFalse hs => isFalse fun heq => hs (List.cons.inj heq).2

end

instance : DecidableEq Node := decEq

/-- A tree without the places of its nodes. -/
def unplaced : Node → Node :=
  fold fun form _ children => .node form .none (children.map Prod.snd)

/-- Whether two trees are one tree up to the places of their nodes. -/
def Alike (m n : Node) : Prop := m.unplaced = n.unplaced

instance (m n : Node) : Decidable (m.Alike n) := inferInstanceAs (Decidable (_ = _))

/-- To forget the places in a tree is to forget them at the top and in the children. -/
theorem unplaced_node (form : Form) (span : Span) (children : List Node) :
    (node form span children).unplaced = node form .none (children.map unplaced) := by
  rw [unplaced, fold_node]
  simp [Function.comp_def]

@[simp] theorem form_unplaced (n : Node) : n.unplaced.form = n.form := by
  cases n with
  | node form span children =>
      rw [unplaced_node]
      rfl

@[simp] theorem children_unplaced (n : Node) :
    n.unplaced.children = n.children.map unplaced := by
  cases n with
  | node form span children =>
      rw [unplaced_node]
      rfl

@[simp] theorem stringText?_unplaced (n : Node) : n.unplaced.stringText? = n.stringText? := by
  rw [stringText?, form_unplaced, stringText?]

/-- A node with the tree of another one has its form and alike children. -/
theorem exists_of_unplaced {n : Node} {form : Form} {span : Span} {ks : List Node}
    (h : n.unplaced = node form span ks) :
    ∃ own js, n = node form own js ∧ js.map unplaced = ks := by
  obtain ⟨form', own, js⟩ := n
  rw [unplaced_node] at h
  obtain ⟨rfl, -, rfl⟩ := Node.node.inj h
  exact ⟨own, js, rfl, rfl⟩

theorem exists_of_map_unplaced {js : List Node} {k : Node} (h : js.map unplaced = [k]) :
    ∃ j, js = [j] ∧ j.unplaced = k :=
  List.map_eq_singleton_iff.mp h

/-- Trees that are alike have alike parts. -/
theorem Alike.exists_part {t n m : Node} (h : t.Alike n) (hm : m ∈ t.parts) :
    ∃ m' ∈ n.parts, m.Alike m' := by
  induction t generalizing n with
  | node form span children ih =>
      rcases mem_parts_node.mp hm with rfl | ⟨k, hk, hmk⟩
      · exact ⟨n, self_mem_parts n, h⟩
      · rw [Alike, unplaced_node] at h
        obtain ⟨_, ks, rfl, hks⟩ := exists_of_unplaced h.symm
        have hsame : k.unplaced ∈ ks.map unplaced := hks ▸ List.mem_map_of_mem hk
        obtain ⟨k', hk', halike⟩ := List.mem_map.mp hsame
        obtain ⟨m', hm', hsame⟩ := ih k hk halike.symm hmk
        exact ⟨m', mem_parts_of_child hk' hm', hsame⟩

/-- A form stands somewhere in a tree at the top or in a child. -/
theorem any_node (p : Form → Bool) (form : Form) (span : Span) (ks : List Node) :
    (node form span ks).any p = (p form || ks.any (any p)) := by
  rw [any, fold_node, List.any_map]
  rfl

@[simp] theorem any_unplaced (p : Form → Bool) (n : Node) : n.unplaced.any p = n.any p := by
  induction n with
  | node form span ks ih =>
      rw [unplaced_node, any_node, any_node, List.any_map]
      congr 1
      rw [Bool.eq_iff_iff, List.any_eq_true, List.any_eq_true]
      exact exists_congr fun k => and_congr_right fun hk => by rw [Function.comp_apply, ih k hk]

end Node

end Graft
