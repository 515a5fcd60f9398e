import Graft.Proofs.Tree.Outline
/-!
Programs that are bound to plugins of different names.

What is bound to a plugin names it in one place, the last argument of the call of `bind`. Two
programs that differ in nothing but that name, and in their offsets, are `Node.Renamed`; apart from
those calls neither name is the text of a string in them. Where neither name was the text of a
string before, a program is renamed to itself (`Node.Renamed.self_of_fresh`).
-/
namespace Graft

/-- All texts are one. -/
def mute : TextMap := fun _ => []

namespace Node

/-- Whether a callee is the `bind` of something: an access to it, or one that was bound itself. -/
inductive IsBind (plugin : String) : Node → Prop
  | access {isOptional : Bool} {span : Span} {target : Node} :
      IsBind plugin (.node (.member isOptional "bind") span [target])
  | bound {isOptional isPure : Bool} {span own other : Span} {callee : Node}
      (h : IsBind plugin callee) :
      IsBind plugin (.node (.call isOptional isPure) span [callee, .node .nullValue own [],
        .node (.string (StringUnit.ofText plugin)) other []])

/-- Whether two programs differ only in their offsets, and in that what the first one binds to a
plugin of the name `a` the second one binds to a plugin of the name `b`. -/
inductive Renamed (a b : String) : Node → Node → Prop
  /-- No other string says one of the names. -/
  | node {form : Form} {span span' : Span} {ks js : List Node}
      (left : (Node.node form span ks).stringText? ≠ some a)
      (right : (Node.node form span ks).stringText? ≠ some b) (length : ks.length = js.length)
      (children : ∀ p ∈ ks.zip js, Renamed a b p.1 p.2) :
      Renamed a b (.node form span ks) (.node form span' js)
  /-- `callee(null, a)` and `callee(null, b)`. -/
  | bound {isOptional isPure : Bool} {span own other span' own' other' : Span}
      {callee callee' : Node} (bind : callee.IsBind a) (children : Renamed a b callee callee') :
      Renamed a b
        (.node (.call isOptional isPure) span [callee, .node .nullValue own [],
          .node (.string (StringUnit.ofText a)) other []])
        (.node (.call isOptional isPure) span' [callee', .node .nullValue own' [],
          .node (.string (StringUnit.ofText b)) other' []])

theorem stringText?_ofText (span : Span) (ks : List Node) (text : String) :
    (node (.string (StringUnit.ofText text)) span ks).stringText? = some text :=
  congrArg some (StringUnit.plainText_ofText text)

theorem stringText?_of_alike {m n : Node} (h : m.Alike n) : n.stringText? = m.stringText? := by
  rw [← stringText?_unplaced, ← h, stringText?_unplaced]

namespace Renamed

variable {a b : String} {m n m' n' : Node}

/-- Renamed trees have the same form. -/
theorem form_eq (h : Renamed a b m n) : n.form = m.form := by
  cases h with
  | node => rfl
  | bound => rfl

theorem stringText?_eq (h : Renamed a b m n) : n.stringText? = m.stringText? := by
  rw [stringText?, h.form_eq, stringText?]

theorem forall₂ {ks js : List Node} (hlength : ks.length = js.length)
    (h : ∀ p ∈ ks.zip js, Renamed a b p.1 p.2) : List.Forall₂ (Renamed a b) ks js :=
  List.forall₂_iff_zip.mpr ⟨hlength, fun hmem => h _ hmem⟩

/-- A renamed node that is no call has renamed children. -/
theorem node_of_forall₂ {form : Form} {span span' : Span} {ks js : List Node}
    (left : (Node.node form span ks).stringText? ≠ some a)
    (right : (Node.node form span ks).stringText? ≠ some b)
    (h : List.Forall₂ (Renamed a b) ks js) :
    Renamed a b (.node form span ks) (.node form span' js) :=
  .node left right h.length_eq fun _ hmem => (List.forall₂_iff_zip.mp h).2 hmem

/-- A node that is no string is renamed when its children are. -/
theorem node_of_no_text {form : Form} {span span' : Span} {ks js : List Node}
    (hnone : (Node.node form span ks).stringText? = none) (h : List.Forall₂ (Renamed a b) ks js) :
    Renamed a b (.node form span ks) (.node form span' js) := by
  refine node_of_forall₂ ?_ ?_ h <;> simp [hnone]

/-- Renamed programs have the same outline without their texts. -/
theorem alikeBy (h : Renamed a b m n) : m.AlikeBy mute n := by
  induction h with
  | @node form span span' ks js _ _ hlength _ ih =>
      have hmap : ks.map (outline mute) = js.map (outline mute) := by
        refine List.ext_getElem (by simp [hlength]) fun i hi hi' => ?_
        rw [List.getElem_map, List.getElem_map]
        rw [List.length_map] at hi hi'
        have hmem := List.getElem_mem (l := ks.zip js) (n := i) (by simp; omega)
        rw [List.getElem_zip] at hmem
        exact ih _ hmem
      rw [AlikeBy, outline_node, outline_node, hmap]
  | bound _ _ ih =>
      simp only [AlikeBy, outline_node, List.map_cons, List.map_nil, Form.mapText, mute]
      rw [ih]

end Renamed

/-- A node that is alike to one without children. -/
theorem exists_leaf {form : Form} {span : Span} {n : Node} (h : (node form span []).Alike n) :
    ∃ own, n = node form own [] := by
  obtain ⟨own, js, rfl, hjs⟩ := exists_of_unplaced (h.symm.trans (unplaced_node ..))
  obtain rfl := List.map_eq_nil_iff.mp hjs
  exact ⟨own, rfl⟩

/-- A node that is alike to a call which binds something to a plugin is such a call. -/
theorem exists_bound {isOptional isPure : Bool} {span own other : Span} {callee n : Node}
    {plugin : String}
    (h : (node (.call isOptional isPure) span [callee, .node .nullValue own [],
      .node (.string (StringUnit.ofText plugin)) other []]).Alike n) :
    ∃ span' own' other' callee', callee.Alike callee'
      ∧ n = node (.call isOptional isPure) span' [callee', .node .nullValue own' [],
          .node (.string (StringUnit.ofText plugin)) other' []] := by
  obtain ⟨span', js, rfl, hjs⟩ := exists_of_unplaced (h.symm.trans (unplaced_node ..))
  obtain ⟨callee', js, rfl, hcallee, hjs⟩ := List.map_eq_cons_iff.mp hjs
  obtain ⟨this, js, rfl, hthis, hjs⟩ := List.map_eq_cons_iff.mp hjs
  obtain ⟨name, rfl, hname⟩ := List.map_eq_singleton_iff.mp hjs
  obtain ⟨own', rfl⟩ := exists_leaf (n := this) hthis.symm
  obtain ⟨other', rfl⟩ := exists_leaf (n := name) hname.symm
  exact ⟨span', own', other', callee', hcallee.symm, rfl⟩

/-- A bound access stays one in a tree that is alike. -/
theorem IsBind.of_alike {plugin : String} {m n : Node} (h : m.IsBind plugin) (halike : m.Alike n) :
    n.IsBind plugin := by
  induction h generalizing n with
  | access =>
      obtain ⟨own, js, rfl, hjs⟩ := exists_of_unplaced (halike.symm.trans (unplaced_node ..))
      obtain ⟨target, rfl, -⟩ := List.map_eq_singleton_iff.mp hjs
      exact .access
  | bound _ ih =>
      obtain ⟨span', own', other', callee', hcallee, rfl⟩ := exists_bound halike
      exact .bound (ih hcallee)

namespace Renamed

variable {a b : String} {m n m' n' : Node}

/-- What is alike to lists of renamed programs are lists of renamed programs. -/
theorem forall₂_of_alike {ks ks' js js' : List Node}
    (h : List.Forall₂ (fun k j => ∀ {k' j' : Node}, k.Alike k' → j.Alike j' → Renamed a b k' j')
      ks js)
    (hks : List.Forall₂ Alike ks ks') (hjs : List.Forall₂ Alike js js') :
    List.Forall₂ (Renamed a b) ks' js' := by
  induction h generalizing ks' js' with
  | nil =>
      cases hks
      cases hjs
      exact .nil
  | cons hkj _ ih =>
      obtain _ | ⟨hk, hks⟩ := hks
      obtain _ | ⟨hj, hjs⟩ := hjs
      exact .cons (hkj hk hj) (ih hks hjs)

/-- What is alike to two renamed programs is renamed. -/
theorem of_alike (h : Renamed a b m n) (hm : m.Alike m') (hn : n.Alike n') :
    Renamed a b m' n' := by
  induction h generalizing m' n' with
  | node left right hlength _ ih =>
      rw [← stringText?_of_alike hm] at left right
      obtain ⟨own, ks', rfl, hks⟩ := exists_of_unplaced (hm.symm.trans (unplaced_node ..))
      obtain ⟨own', js', rfl, hjs⟩ := exists_of_unplaced (hn.symm.trans (unplaced_node ..))
      exact node_of_forall₂ left right
        (forall₂_of_alike (List.forall₂_iff_zip.mpr ⟨hlength, fun hp => ih _ hp⟩)
          (forall₂_of_map_eq hks.symm) (forall₂_of_map_eq hjs.symm))
  | bound hbind _ ih =>
      obtain ⟨_, _, _, callee, hcallee, rfl⟩ := exists_bound hm
      obtain ⟨_, _, _, callee', hcallee', rfl⟩ := exists_bound hn
      exact .bound (hbind.of_alike hcallee) (ih hcallee hcallee')

/-- A program in which neither name is the text of a string is renamed to itself. -/
theorem self_of_fresh (h : ∀ k ∈ m.parts, k.stringText? ≠ some a ∧ k.stringText? ≠ some b) :
    Renamed a b m m := by
  induction m with
  | node form span children ih =>
      obtain ⟨left, right⟩ := h _ (self_mem_parts _)
      refine node_of_forall₂ left right (List.forall₂_same.mpr fun k hk => ?_)
      exact ih k hk fun j hj => h j (mem_parts_of_child hk hj)

/-- A renamed node is no string that says one of the names. -/
theorem stringText?_ne (h : Renamed a b m n) : m.stringText? ≠ some a ∧ m.stringText? ≠ some b := by
  cases h with
  | node left right _ _ => exact ⟨left, right⟩
  | bound _ _ => exact ⟨nofun, nofun⟩

/-- What is bound to the first plugin is bound to the second one. -/
theorem isBind (h : Renamed a b m n) (hm : m.IsBind a) : n.IsBind b := by
  induction hm generalizing n with
  | access =>
      cases h with
      | node _ _ hlength _ =>
          obtain ⟨target, rfl⟩ := List.length_eq_one_iff.mp hlength.symm
          exact .access
  | bound _ ih =>
      cases h with
      | node _ _ hlength hchildren =>
          -- its last argument says the name
          obtain _ | ⟨_, _ | ⟨_, _ | ⟨hlast, _⟩⟩⟩ := forall₂ hlength hchildren
          exact absurd (stringText?_ofText ..) hlast.stringText?_ne.1
      | bound _ hcallee => exact .bound (ih hcallee)

end Renamed

end Node

end Graft
