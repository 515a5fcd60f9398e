import Graft.Origin
/-!
The nodes of a tree.

Every analysis of this library is a fold, so a fact about an analysis is an induction with one
hypothesis for each child (`Node.induct`). What the analyses look at are nodes of the tree they are
given: the start of a row of accesses (`root_mem_parts`), what a value is read from
(`source_mem_parts`). `Node.parts` is the vocabulary in which that is said.
-/
namespace Graft

/-- Whether the children of a form stand as values. -/
def Form.holdsValues : Form → Bool
  | .place | .chain => false
  | _ => true

namespace Node

-- ============================================================ induction

/-- A fact that passes from the children of a node to the node holds of every tree. -/
@[induction_eliminator]
theorem induct {motive : Node → Prop}
    (node : ∀ form span children, (∀ k ∈ children, motive k) →
      motive (.node form span children)) :
    ∀ n, motive n :=
  @Node.rec motive (fun ks => ∀ k ∈ ks, motive k)
    node
    (fun k hk => absurd hk List.not_mem_nil)
    (fun k ks hk hks k' hk' => by
      rcases List.mem_cons.mp hk' with rfl | hmem
      · exact hk
      · exact hks k' hmem)

-- ============================================================ parts

/-- All nodes of a tree, every node before its children. -/
def parts : Node → List Node :=
  fold fun form span children =>
    .node form span (children.map Prod.fst) :: children.flatMap Prod.snd

/-- The parts of a node, in the order of the text: the node and the parts of its children. -/
theorem parts_node (form : Form) (span : Span) (children : List Node) :
    (node form span children).parts
      = node form span children :: children.flatMap parts := by
  rw [parts, fold_node]
  simp [List.map_map, List.flatMap_map, Function.comp_def]

/-- A part of a node is the node or a part of one of its children. -/
theorem mem_parts_node {n : Node} {form : Form} {span : Span} {children : List Node} :
    n ∈ (node form span children).parts
      ↔ n = node form span children ∨ ∃ k ∈ children, n ∈ k.parts := by
  rw [parts_node, List.mem_cons, List.mem_flatMap]

@[simp] theorem self_mem_parts (n : Node) : n ∈ n.parts := by
  cases n with
  | node form span children => exact mem_parts_node.mpr (.inl rfl)

/-- The parts of a child are parts of the node. -/
theorem mem_parts_of_child {n k m : Node} (hk : k ∈ n.children) (hm : m ∈ k.parts) :
    m ∈ n.parts := by
  cases n with
  | node form span children => exact mem_parts_node.mpr (.inr ⟨k, hk, hm⟩)

theorem child_mem_parts {n k : Node} (hk : k ∈ n.children) : k ∈ n.parts :=
  mem_parts_of_child hk (self_mem_parts k)

/-- A part of a part is a part. -/
theorem mem_parts_trans {a b c : Node} (hab : a ∈ b.parts) (hbc : b ∈ c.parts) :
    a ∈ c.parts := by
  induction c with
  | node form span children ih =>
      rcases mem_parts_node.mp hbc with rfl | ⟨k, hk, hbk⟩
      · exact hab
      · exact mem_parts_node.mpr (.inr ⟨k, hk, ih k hk hbk⟩)

-- ============================================================ starts of values

/-- The start of a row of accesses is a part of it. -/
theorem root_mem_parts (n : Node) : n.root ∈ n.parts := by
  induction n with
  | node form span children ih =>
      have step : ∀ k ∈ children, k.root ∈ (node form span children).parts :=
        fun k hk => mem_parts_node.mpr (.inr ⟨k, hk, ih k hk⟩)
      rw [root.eq_def]
      split
      case h_4 => exact self_mem_parts _
      all_goals
        rename_i heq
        cases heq
        exact step _ (by simp)

/-- What a value is read from is a part of it. -/
theorem source_mem_parts (helper : String) (n : Node) : n.source helper ∈ n.parts := by
  induction n with
  | node form span children ih =>
      have step : ∀ k ∈ children, k.source helper ∈ (node form span children).parts :=
        fun k hk => mem_parts_node.mpr (.inr ⟨k, hk, ih k hk⟩)
      rw [source.eq_def]
      split
      case h_5 => exact self_mem_parts _
      case h_4 =>
        rename_i heq
        cases heq
        split
        · exact step _ (by simp)
        · exact self_mem_parts _
      all_goals
        rename_i heq
        cases heq
        exact step _ (by simp)

end Node

end Graft
