import Graft.Proofs.Edit.Weight
import Graft.Proofs.Scope.Words
/-!
Where the words of an edited program come from.

An edit makes names of its own, which carry no span; every other word of its result is a word of
the program outside of the statements that went away (`EditPlan.mem_kept_of_mem_remake`). In a well
placed program a word outside of a statement is not also inside of it, so what survives an edit
stood in no statement that the edit removed (`EditPlan.not_mem_of_kept`).
-/
namespace Graft

namespace Node

-- ============================================================ words made anew

/-- The words in an access are those of its object. -/
theorem mem_parts_access {object m : Node} {name : String} (hword : m.form.isWord = true)
    (hm : m ∈ (object.access name).parts) : m ∈ object.parts := by
  rcases mem_parts_node.mp hm with rfl | ⟨k, hk, hmk⟩
  · cases hword
  · exact List.mem_singleton.mp hk ▸ hmk

/-- The words in a bound access are those of the access. -/
theorem mem_parts_boundTo {target m : Node} {plugin : String} (hword : m.form.isWord = true)
    (hm : m ∈ (target.boundTo plugin).parts) : m ∈ target.parts := by
  rcases mem_parts_node.mp hm with rfl | ⟨k, hk, hmk⟩
  · cases hword
  · simp only [List.mem_cons, List.not_mem_nil, or_false] at hk
    -- neither `null` nor the name of the plugin is a word
    rcases hk with rfl | rfl | rfl
    · exact mem_parts_access hword hmk
    · rw [made, parts_node, List.flatMap_nil, List.mem_singleton] at hmk
      rw [hmk] at hword
      cases hword
    · rw [made, parts_node, List.flatMap_nil, List.mem_singleton] at hmk
      rw [hmk] at hword
      cases hword

/-- The words of a chain of names are made anew. -/
theorem span_of_mem_ofChain {names : List String} {chain m : Node}
    (hchain : ofChain? names = some chain) (hword : m.form.isWord = true) (hm : m ∈ chain.parts) :
    m.span = .none := by
  cases names with
  | nil => cases hchain
  | cons first names =>
      obtain rfl := Option.some.inj hchain
      have hfold : ∀ n : Node, (m ∈ n.parts → m.span = .none) →
          m ∈ (names.foldl access n).parts → m.span = .none := by
        clear hchain hm
        induction names with
        | nil => exact fun _ h => h
        | cons name names ih =>
            exact fun n hn => ih (n.access name) fun hm => hn (mem_parts_access hword hm)
      refine hfold _ (fun hm => ?_) hm
      rw [made, parts_node, List.flatMap_nil, List.mem_singleton] at hm
      rw [hm]
      rfl

end Node

namespace EditPlan

open Node

variable {p : EditPlan} {plugin : String}

-- ============================================================ what is kept

/-- The parts of a tree outside of the statements that go away. -/
def kept (p : EditPlan) : Node → List Node :=
  fold fun form span children =>
    .node form span (children.map Prod.fst)
      :: (children.filter fun c => !p.isRemoved c.1).flatMap Prod.snd

/-- What a node keeps is the node itself and what is kept of the children that are not removed. -/
theorem mem_kept_node {form : Form} {span : Span} {children : List Node} {m : Node} :
    m ∈ p.kept (.node form span children)
      ↔ m = .node form span children ∨ ∃ k ∈ children, p.isRemoved k = false ∧ m ∈ p.kept k := by
  have heq : p.kept (.node form span children)
      = .node form span children :: (children.filter fun k => !p.isRemoved k).flatMap p.kept := by
    rw [kept, fold_node]
    simp [List.filter_map, List.flatMap_map, Function.comp_def]
  rw [heq]
  simp [and_assoc]

/-- Every node keeps itself. -/
theorem self_mem_kept (n : Node) : n ∈ p.kept n := by
  cases n with
  | node form span children => exact mem_kept_node.mpr (.inl rfl)

/-- What is kept of a tree is part of it. -/
theorem kept_subset {t m : Node} (h : m ∈ p.kept t) : m ∈ t.parts := by
  induction t with
  | node form span children ih =>
      rcases mem_kept_node.mp h with rfl | ⟨k, hk, -, hmk⟩
      · exact self_mem_parts _
      · exact mem_parts_of_child hk (ih k hk hmk)


/-- What is kept stands in no statement that goes away. -/
theorem not_mem_of_kept {t st m : Node} (ht : t.WellPlaced) (hstays : p.isRemoved t = false)
    (hm : m ∈ p.kept t) (hbare : m.isBare = false) (hst : st ∈ t.parts)
    (hgoes : p.isRemoved st = true) : m ∉ st.parts := by
  intro hin
  have hstb : st.isBare = false := by
    refine eq_false_of_ne_true fun h => ?_
    rw [isBare_of_mem_parts h hin] at hbare
    cases hbare
  induction t with
  | node form span children ih =>
      rcases mem_parts_node.mp hst with rfl | ⟨k, hk, hstk⟩
      · rw [hstays] at hgoes
        cases hgoes
      · cases ht with
        | node fits parts =>
        rcases mem_kept_node.mp hm with rfl | ⟨k', hk', hstays', hmk'⟩
        · -- the tree would be a part of one of its children
          have hbelow : node form span children ∈ k.parts := mem_parts_trans hin hstk
          have hrank := (WellPlaced.node fits parts).rank_lt hk hbelow hbare rfl
          exact Nat.lt_irrefl _ hrank
        · by_cases heq : k = k'
          · subst heq
            exact ih k hk (parts k hk) hstays' hmk' hstk
          · have hmk := mem_parts_trans hin hstk
            have hapart := fits.parts_apart parts hk hk' heq hmk (kept_subset hmk') hbare hbare
            have hlt := (fits.part_sits (parts k hk) hk hmk hbare).2.1
            omega

-- ============================================================ words of the result

/-- The words of the declarators that a declarator is divided into are words of the declarator. -/
theorem mem_of_mem_splitDeclarator {splits : List PropertySplit} {isDroppable : Bool}
    {n x m : Node} (hx : x ∈ (splitDeclarator plugin splits isDroppable n).result)
    (hword : m.form.isWord = true) (hm : m ∈ x.parts) : m ∈ n.parts := by
  unfold splitDeclarator at hx
  split at hx
  case h_2 => exact List.mem_singleton.mp hx ▸ hm
  case h_1 span role inner properties value =>
    have hproperty : ∀ k ∈ properties, m ∈ k.parts →
        m ∈ (node .declarator span [.node (.objectPattern role) inner properties, value]).parts :=
      fun k hk hmk => mem_parts_of_child List.mem_cons_self (mem_parts_of_child hk hmk)
    have hvalue : m ∈ value.parts →
        m ∈ (node .declarator span [.node (.objectPattern role) inner properties, value]).parts :=
      mem_parts_of_child (List.mem_cons_of_mem _ List.mem_cons_self)
    rcases List.mem_append.mp hx with hx | hx
    · -- the part that stays
      split at hx
      · cases hx
      · obtain rfl := List.mem_singleton.mp hx
        rcases mem_parts_node.mp hm with rfl | ⟨k, hk, hmk⟩
        · cases hword
        · simp only [List.mem_cons, List.not_mem_nil, or_false] at hk
          rcases hk with rfl | rfl
          · rcases mem_parts_node.mp hmk with rfl | ⟨k', hk', hmk'⟩
            · cases hword
            · exact hproperty k' (List.mem_filter.mp hk').1 hmk'
          · exact hvalue hmk
    · -- a part for a property that moves out
      obtain ⟨moved, hmoved, rfl⟩ := List.mem_map.mp hx
      obtain ⟨k, hk, hsome⟩ := List.mem_filterMap.mp hmoved
      rcases mem_parts_node.mp hm with rfl | ⟨k', hk', hmk'⟩
      · cases hword
      · simp only [List.mem_cons, List.not_mem_nil, or_false] at hk'
        rcases hk' with rfl | rfl
        · refine hproperty k hk ?_
          unfold movedValue? at hsome
          split at hsome
          case h_1 =>
            obtain ⟨s, -, rfl⟩ := Option.map_eq_some_iff.mp hsome
            exact mem_parts_of_child (List.mem_cons_of_mem _ List.mem_cons_self) hmk'
          case h_2 => cases hsome
        · exact hvalue (mem_parts_access hword (mem_parts_boundTo hword hmk'))

/-- What becomes of all children becomes of one of them. -/
theorem AllBecome.exists_of_mem {form : Form} {ks : List Node} {out : Edited (List Node)} {x : Node}
    (h : AllBecome p plugin form ks out) (hx : x ∈ out.result) :
    ∃ k ∈ ks, ∃ o, Becomes p plugin form k o ∧ x ∈ o.result := by
  induction h with
  | nil => cases hx
  | cons head tail ih =>
      rcases List.mem_append.mp hx with hx | hx
      · exact ⟨_, List.mem_cons_self, _, head, hx⟩
      · obtain ⟨k, hk, hrest⟩ := ih hx
        exact ⟨k, List.mem_cons_of_mem _ hk, hrest⟩

/-- Statements that go away do not stand among the entries of a pattern or a declaration. -/
theorem isRemoved_of_entry {form : Form} {span : Span} {children : List Node} {k : Node}
    (fits : Fits form span children)
    (hform : form.holdsEntries = true ∨ form.isDeclaration = true) (hk : k ∈ children) :
    p.isRemoved k = false := by
  refine eq_false_of_ne_true fun h => ?_
  rw [isRemoved, Bool.and_eq_true, beq_iff_eq] at h
  rcases hform with hentries | hdeclaration
  · have hrank := fits.entries hentries k hk
    rw [h.1] at hrank
    exact absurd hrank (by decide)
  · have hrank := fits.declarators hdeclaration k hk
    rw [h.1] at hrank
    exact absurd hrank (by decide)

/-- A word of what becomes of a child is a word of what the child was rebuilt into, and then the
child has not gone away. -/
theorem Becomes.word {form : Form} {span : Span} {children : List Node} {k x m : Node}
    {out : Edited (List Node)} (h : Becomes p plugin form k out) (fits : Fits form span children)
    (hk : k ∈ children) (hx : x ∈ out.result) (hword : m.form.isWord = true) (hm : m ∈ x.parts) :
    p.isRemoved k = false ∧ ∃ isValue, m ∈ (p.remake plugin isValue k).result.parts := by
  cases h with
  | removed => cases hx
  | emptied =>
      rw [List.mem_singleton.mp hx, made, parts_node, List.flatMap_nil, List.mem_singleton] at hm
      rw [hm] at hword
      cases hword
  | pruned => cases hx
  | remade hremoved =>
      refine ⟨eq_false_of_ne_true fun h => ?_, _, List.mem_singleton.mp hx ▸ hm⟩
      have hentry := isRemoved_of_entry (p := p) fits (by
        have hform := hremoved h
        cases form <;> first | exact .inl rfl | cases hform) hk
      rw [h] at hentry
      cases hentry
  | vanished => cases hx
  | divided hform hparts =>
      refine ⟨isRemoved_of_entry fits (.inr (hform ▸ rfl)) hk, true, ?_⟩
      exact mem_of_mem_splitDeclarator (hparts ▸ hx) hword hm

/-- A word of the result that was not made anew is a word that was kept. -/
theorem mem_kept_of_mem_remake {t m : Node} {isValue : Bool} (ht : t.WellPlaced)
    (hword : m.form.isWord = true) (hm : m ∈ (p.remake plugin isValue t).result.parts) :
    m.span = .none ∨ m ∈ p.kept t := by
  induction t generalizing isValue with
  | node form span children ih =>
      obtain ⟨parts, hall, houtcome⟩ := p.remake_outcome plugin form span children isValue
      cases ht with
      | node fits hws =>
      have hchild : ∀ x ∈ parts.result, m ∈ x.parts →
          m.span = .none ∨ m ∈ p.kept (.node form span children) := by
        intro x hx hmx
        obtain ⟨k, hk, o, hbecomes, hxo⟩ := hall.exists_of_mem hx
        obtain ⟨hstays, isValue', hmk⟩ := hbecomes.word fits hk hxo hword hmx
        exact (ih k hk (hws k hk) hmk).imp_right fun h =>
          mem_kept_node.mpr (.inr ⟨k, hk, hstays, h⟩)
      have hnode : m ∈ (node form span parts.result).parts →
          m.span = .none ∨ m ∈ p.kept (.node form span children) := by
        intro hm
        rcases mem_parts_node.mp hm with rfl | ⟨x, hx, hmx⟩
        · -- a word has no children, neither before nor after
          obtain rfl := fits.word hword
          cases hall
          exact .inr (self_mem_kept _)
        · exact hchild x hx hmx
      generalize p.remake plugin isValue (.node form span children) = out at hm houtcome
      cases houtcome with
      | substituted _ _ hchain => exact .inl (span_of_mem_ofChain hchain hword hm)
      | bound => exact hnode (mem_parts_boundTo hword hm)
      | kept => exact hnode hm

end EditPlan

end Graft
