import Graft.Proofs.Tree.Identity
/-!
Where a name stands in a pattern.

What a pattern gives a name depends on the way that leads to the name: the keys on it, the numbers
of elements passed over, the rest elements. `Node.Holds` says that a pattern has something at the
end of such a way, and whatever stands on the way is a part of the pattern and no declarator
(`Node.Holds.ne_declarator`).
-/
namespace Graft

/-- A step from a pattern to a pattern inside of it. -/
inductive PatternStep where
  /-- To the value of the property with a key that is not computed. -/
  | key (key : Node)
  /-- To the value of the property at a place of the text whose key is computed. -/
  | computed (property : Span)
  /-- To the element with so many others before it. -/
  | element (before : Nat)
  /-- To what a rest element collects. -/
  | rest
  /-- Past a default. -/
  | defaulted

namespace Node

/-- Whether a pattern has something at the end of a way into it. -/
inductive Holds : Node → List PatternStep → Node → Prop
  | self (n : Node) : Holds n [] n
  | key {role : PatternRole} {span own : Span} {ks : List Node} {isShorthand : Bool}
      {key value b : Node} {path : List PatternStep}
      (hk : .node (.patternProperty false isShorthand) own [key, value] ∈ ks)
      (h : Holds value path b) : Holds (.node (.objectPattern role) span ks) (.key key :: path) b
  | computed {role : PatternRole} {span own : Span} {ks : List Node} {isShorthand : Bool}
      {key value b : Node} {path : List PatternStep}
      (hk : .node (.patternProperty true isShorthand) own [key, value] ∈ ks)
      (h : Holds value path b) :
      Holds (.node (.objectPattern role) span ks) (.computed own :: path) b
  | element {role : PatternRole} {span : Span} {before after : List Node} {k b : Node}
      {path : List PatternStep} (h : Holds k path b) :
      Holds (.node (.arrayPattern role) span (before ++ k :: after))
        (.element before.length :: path) b
  | rest {form : Form} {span own : Span} {ks : List Node} {inner b : Node}
      {path : List PatternStep}
      (hform : (∃ role, form = .objectPattern role) ∨ ∃ role, form = .arrayPattern role)
      (hk : .node .rest own [inner] ∈ ks) (h : Holds inner path b) :
      Holds (.node form span ks) (.rest :: path) b
  | defaulted {span : Span} {inner value b : Node} {path : List PatternStep}
      (h : Holds inner path b) : Holds (.node .defaulted span [inner, value]) (.defaulted :: path) b

variable {t b : Node} {path : List PatternStep}

theorem mem_parts_of_first {form : Form} {own : Span} {first b : Node} {others : List Node}
    (hb : b ∈ first.parts) : b ∈ (node form own (first :: others)).parts :=
  mem_parts_node.mpr (.inr ⟨first, List.mem_cons_self, hb⟩)

theorem mem_parts_of_value {form : Form} {own : Span} {key value b : Node} (hb : b ∈ value.parts) :
    b ∈ (Node.node form own [key, value]).parts :=
  mem_parts_node.mpr (.inr ⟨value, List.mem_cons_of_mem _ List.mem_cons_self, hb⟩)

/-- What a path leads to is a part. -/
theorem Holds.mem_parts (h : Holds t path b) : b ∈ t.parts := by
  induction h with
  | self n => exact self_mem_parts n
  | key hk _ ih => exact mem_parts_of_child hk (mem_parts_of_value ih)
  | computed hk _ ih => exact mem_parts_of_child hk (mem_parts_of_value ih)
  | element _ ih =>
      exact mem_parts_of_child (List.mem_append_right _ List.mem_cons_self) ih
  | rest _ hk _ ih => exact mem_parts_of_child hk (mem_parts_of_first ih)
  | defaulted _ ih => exact mem_parts_of_first ih

/-- Nothing stands in a word. -/
theorem Holds.of_isWord (h : Holds t path b) (hword : t.form.isWord = true) : path = [] ∧ b = t := by
  cases h with
  | self => exact ⟨rfl, rfl⟩
  | rest hform =>
      rcases hform with ⟨_, rfl⟩ | ⟨_, rfl⟩
      · cases hword
      · cases hword
  | _ => cases hword

/-- What has something in it that stands below a child is the node, or stands below the child. -/
theorem WellPlaced.eq_or_mem_of_child {t k x b : Node} (ht : t.WellPlaced) (hk : k ∈ t.children)
    (hbk : b ∈ k.parts) (hbare : b.isBare = false) (hx : x ∈ t.parts) (hbx : b ∈ x.parts) :
    x = t ∨ x ∈ k.parts := by
  cases t with
  | node form span children =>
      rcases mem_parts_node.mp hx with rfl | ⟨k', hk', hxk⟩
      · exact .inl rfl
      · obtain rfl := ht.child_eq hk hk' hbk (mem_parts_trans hbx hxk) hbare
        exact .inr hxk

/-- On the way to something below the value of a property there is the property, or what is on the
way from the value. -/
theorem WellPlaced.eq_or_mem_of_value {form : Form} {own : Span} {key value x b : Node}
    (hw : (Node.node form own [key, value]).WellPlaced) (hb : b ∈ value.parts)
    (hbare : b.isBare = false)
    (hx : x ∈ (Node.node form own [key, value]).parts) (hbx : b ∈ x.parts) :
    x = Node.node form own [key, value] ∨ x ∈ value.parts :=
  hw.eq_or_mem_of_child (List.mem_cons_of_mem _ List.mem_cons_self) hb hbare hx hbx

theorem WellPlaced.of_value {form : Form} {own : Span} {key value : Node}
    (hw : (Node.node form own [key, value]).WellPlaced) : value.WellPlaced :=
  hw.part (mem_parts_of_value (self_mem_parts value))

/-- No declarator stands on the way to something in a pattern. -/
theorem Holds.ne_declarator (h : Holds t path b) (ht : t.WellPlaced) (hbare : b.isBare = false)
    {x : Node} (hx : x ∈ t.parts) (hbx : b ∈ x.parts) : x = b ∨ x.form ≠ .declarator := by
  induction h with
  -- by the way down the pattern: each step shows that nothing between `x` and `b` declares
  | self n => exact .inl (eq_of_mem_parts hx hbx)
  | key hk h ih =>
      -- `x` is the property's pattern, the property itself, or lies below and is the induction's
      rcases ht.eq_or_mem_of_child hk (mem_parts_of_value h.mem_parts) hbare hx hbx with rfl | hxk
      · exact .inr nofun
      have hkw := ht.part (child_mem_parts hk)
      rcases hkw.eq_or_mem_of_value h.mem_parts hbare hxk hbx with rfl | hxv
      · exact .inr nofun
      · exact ih hkw.of_value hbare hxv hbx
  | computed hk h ih =>
      rcases ht.eq_or_mem_of_child hk (mem_parts_of_value h.mem_parts) hbare hx hbx with rfl | hxk
      · exact .inr nofun
      have hkw := ht.part (child_mem_parts hk)
      rcases hkw.eq_or_mem_of_value h.mem_parts hbare hxk hbx with rfl | hxv
      · exact .inr nofun
      · exact ih hkw.of_value hbare hxv hbx
  | @element role span before after k b path h ih =>
      have hk : k ∈ (node (.arrayPattern role) span (before ++ k :: after)).children :=
        List.mem_append_right _ List.mem_cons_self
      rcases ht.eq_or_mem_of_child hk h.mem_parts hbare hx hbx with rfl | hxk
      · exact .inr nofun
      · exact ih (ht.part (child_mem_parts hk)) hbare hxk hbx
  | rest hform hk h ih =>
      rcases ht.eq_or_mem_of_child hk (mem_parts_of_first h.mem_parts) hbare hx hbx with rfl | hxk
      · rcases hform with ⟨_, rfl⟩ | ⟨_, rfl⟩
        · exact .inr nofun
        · exact .inr nofun
      have hkw := ht.part (child_mem_parts hk)
      rcases hkw.eq_or_mem_of_child List.mem_cons_self h.mem_parts hbare hxk hbx with rfl | hxi
      · exact .inr nofun
      · exact ih (hkw.part (child_mem_parts List.mem_cons_self)) hbare hxi hbx
  | defaulted h ih =>
      rcases ht.eq_or_mem_of_child List.mem_cons_self h.mem_parts hbare hx hbx with rfl | hxi
      · exact .inr nofun
      · exact ih (ht.part (child_mem_parts List.mem_cons_self)) hbare hxi hbx

end Node

end Graft
