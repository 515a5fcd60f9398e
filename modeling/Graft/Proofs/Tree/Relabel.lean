import Graft.Proofs.Tree.Identity
import Graft.Proofs.Tree.Outline
/-!
Trees with numbers in the place of offsets.

What a program means does not hang on where it was read, but the analyses find a name or an access
by its offset. So two trees that differ in their offsets, and in the texts of their strings, are
compared by a third one: every word and every access gets the number of its place in the list of
parts, all other offsets go, and the strings get other texts (`Node.relabel`, `Node.label`).

- Trees with the same outline then are one tree (`Node.relabel_label_eq`).
- No two things that are asked for by their offsets become one (`Node.label_inj`), for in a
  well-placed tree words start at different offsets and accesses have different spans
  (`Node.Keyed`).

So what an analysis finds in the third tree it finds in both, each time by the label of what was
asked for.
-/
namespace Graft

/-- By what a word or an access of a program is asked for. -/
inductive NodeKey where
  /-- A name that is used, by its offset. -/
  | use (start : Nat)
  /-- A name that is introduced, by its offset. -/
  | name (start : Nat)
  /-- An access by a name. -/
  | access (span : Span)
deriving DecidableEq

/-- The offset that a key names. -/
def NodeKey.start : NodeKey → Nat
  | use start | name start => start
  | access span => span.start

/-- By what a node of a form at a span is asked for, if it is. -/
def Form.key? (form : Form) (span : Span) : Option NodeKey :=
  match form with
  | .identifier _ => some (.use span.start)
  | .binding _ => some (.name span.start)
  | .member .. => some (.access span)
  | _ => none

/-- Whether a form has a key does not hang on the span. -/
theorem Form.isSome_key? (form : Form) (s s' : Span) :
    (form.key? s).isSome = (form.key? s').isSome := by
  cases form <;> rfl

/-- Whether a form has a key does not hang on the text of a string. -/
theorem Form.isSome_key?_mapText (σ : TextMap) (form : Form) (s : Span) :
    ((form.mapText σ).key? s).isSome = (form.key? s).isSome := by
  cases form <;> rfl

namespace Node

-- ============================================================ relabelling

/-- By what a node is asked for, if it is. -/
def key? (n : Node) : Option NodeKey := n.form.key? n.span

/-- A key begins where its node does. -/
theorem start_of_key? {n : Node} {k : NodeKey} (h : n.key? = some k) :
    n.span.start = k.start := by
  rw [key?, Form.key?.eq_def] at h
  split at h <;> cases h <;> rfl

/-- What goes by an access is that access. -/
theorem isMember_of_key? {n : Node} {span : Span} (h : n.key? = some (.access span)) :
    n.span = span ∧ ∃ isOptional name, n.form = .member isOptional name := by
  rw [key?, Form.key?.eq_def] at h
  split at h <;> cases h
  exact ⟨rfl, _, _, ‹_›⟩

/-- Words and accesses have keys, and nothing else has. -/
theorem isWord_or_isMember {n : Node} {k : NodeKey} (h : n.key? = some k) :
    n.form.isWord = true
      ∨ k = .access n.span ∧ ∃ isOptional name, n.form = .member isOptional name := by
  cases k with
  | access span =>
      obtain ⟨rfl, hform⟩ := isMember_of_key? h
      exact .inr ⟨rfl, hform⟩
  | _ =>
      refine .inl ?_
      rw [key?, Form.key?.eq_def] at h
      split at h <;> cases h
      all_goals
        rename_i heq
        rw [heq]
        rfl

/-- The place of a key in a relabelled tree. -/
def placeOf (f : NodeKey → Nat) : Option NodeKey → Span
  | some k => ⟨f k, 0⟩
  | none => .none

/-- A tree with numbers for the keys of its nodes and no other offsets, and with other texts in its
strings. -/
def relabel (σ : TextMap) (f : NodeKey → Nat) : Node → Node :=
  fold fun form span children =>
    .node (form.mapText σ) (placeOf f (form.key? span)) (children.map Prod.snd)

variable {σ : TextMap}

/-- To relabel a tree is to relabel its top and its children. -/
theorem relabel_node (f : NodeKey → Nat) (form : Form) (span : Span) (children : List Node) :
    (node form span children).relabel σ f
      = node (form.mapText σ) (placeOf f (form.key? span)) (children.map (relabel σ f)) := by
  rw [relabel, fold_node]
  simp [Function.comp_def]

@[simp] theorem form_relabel (f : NodeKey → Nat) (n : Node) :
    (n.relabel σ f).form = n.form.mapText σ := by
  cases n with
  | node form span children =>
      rw [relabel_node]
      rfl

@[simp] theorem isAbsent_relabel (f : NodeKey → Nat) (n : Node) :
    (n.relabel σ f).isAbsent = n.isAbsent := by
  rw [isAbsent, isAbsent, form_relabel]
  cases n.form <;> rfl

/-- The label of a key is the place of the relabelled node. -/
theorem span_relabel (f : NodeKey → Nat) (n : Node) :
    (n.relabel σ f).span = placeOf f n.key? := by
  cases n with
  | node form span children =>
      rw [relabel_node]
      rfl

/-- The children are relabelled one by one. -/
theorem children_relabel (f : NodeKey → Nat) (n : Node) :
    (n.relabel σ f).children = n.children.map (relabel σ f) := by
  cases n with
  | node form span children =>
      rw [relabel_node]
      rfl

/-- Relabelled alike, some nodes one after the other are the same if they get the same places. -/
theorem map_relabel_eq {f g : NodeKey → Nat} {ms ns : List Node}
    (h : ∀ m ∈ ms, ∀ n, m.AlikeBy σ n →
      m.parts.map (fun k => placeOf f k.key?) = n.parts.map (fun k => placeOf g k.key?) →
      m.relabel σ f = n.relabel σ g)
    (hmap : ms.map (outline σ) = ns.map (outline σ))
    (hplaces : (ms.flatMap parts).map (fun k => placeOf f k.key?)
      = (ns.flatMap parts).map fun k => placeOf g k.key?) :
    ms.map (relabel σ f) = ns.map (relabel σ g) := by
  induction ms generalizing ns with
  | nil =>
      obtain rfl := List.map_eq_nil_iff.mp hmap.symm
      rfl
  | cons m ms ih =>
      obtain ⟨n, ns, rfl, hn, hns⟩ := List.map_eq_cons_iff.mp hmap.symm
      have halike : m.AlikeBy σ n := hn.symm
      rw [List.flatMap_cons, List.flatMap_cons, List.map_append, List.map_append] at hplaces
      obtain ⟨hfirst, hothers⟩ := List.append_inj hplaces (by simp [halike.length_parts])
      rw [List.map_cons, List.map_cons, h m List.mem_cons_self n halike hfirst,
        ih (fun m' hm' => h m' (List.mem_cons_of_mem _ hm')) hns.symm hothers]

/-- Trees with the same outline are the same relabelled if all their nodes get the same places. -/
theorem relabel_eq {f g : NodeKey → Nat} {m n : Node} (halike : m.AlikeBy σ n)
    (hplaces : m.parts.map (fun k => placeOf f k.key?) = n.parts.map fun k => placeOf g k.key?) :
    m.relabel σ f = n.relabel σ g := by
  induction m generalizing n with
  | node form span children ih =>
      cases n with
      | node form' span' children' =>
          have hform : form.mapText σ = form'.mapText σ := halike.form_eq
          rw [parts_node, parts_node, List.map_cons, List.map_cons] at hplaces
          obtain ⟨hplace, hothers⟩ := List.cons.inj hplaces
          rw [relabel_node, relabel_node, hform]
          exact congr (congrArg (node (form'.mapText σ)) hplace)
            (map_relabel_eq (fun k hk n => ih k hk) halike.map_children hothers)

-- ============================================================ labels

/-- The number of the part of a tree that is asked for by a key. -/
def label (t : Node) (k : NodeKey) : Nat := t.parts.findIdx fun n => n.key? == some k

/-- The number of a part stands for no key but its own. -/
theorem label_inj {t n : Node} {k k' : NodeKey} (hn : n ∈ t.parts) (hk : n.key? = some k)
    (h : t.label k' = t.label k) : k' = k := by
  have hlt : t.label k < t.parts.length :=
    List.findIdx_lt_length_of_exists ⟨n, hn, beq_iff_eq.mpr hk⟩
  have hkey : t.parts[t.label k].key? = some k := beq_iff_eq.mp (List.findIdx_getElem (w := hlt))
  have hlt' : t.label k' < t.parts.length := h ▸ hlt
  have hkey' : t.parts[t.label k'].key? = some k' :=
    beq_iff_eq.mp (List.findIdx_getElem (w := hlt'))
  have heq : t.parts[t.label k'] = t.parts[t.label k] := by simp only [h]
  rw [heq, hkey] at hkey'
  exact (Option.some.inj hkey').symm

/-- Whether no two nodes of a tree are asked for by one key. -/
def Keyed (t : Node) : Prop := (t.parts.filterMap key?).Nodup

/-- In a keyed tree no two parts share a key. -/
theorem Keyed.pairwise {t : Node} (h : t.Keyed) :
    t.parts.Pairwise fun m n => ∀ k, m.key? = some k → n.key? ≠ some k :=
  (List.pairwise_filterMap.mp h).imp fun hne k hm hn => hne k hm k hn rfl

/-- The parts of a well placed tree are told apart by their keys. -/
theorem WellPlaced.keyed {t : Node} (ht : t.WellPlaced) : t.Keyed := by
  have hbare : ∀ n : Node, n.key?.isSome = true → n.isBare = false := by
    intro n hn
    cases n with
    | node form span children =>
        rw [isBare_node]
        cases form <;> first | rfl | cases hn
  have hpairwise : (t.parts.filter fun n => n.key?.isSome).Pairwise
      fun m n => ∀ k, m.key? = some k → n.key? ≠ some k := ht.pairwise hbare ?apart ?inside
  case apart =>
    intro m n hlt hle k hm hn
    have hstart : m.span.start = n.span.start := (start_of_key? hm).trans (start_of_key? hn).symm
    omega
  case inside =>
    intro m hm hms c hc n hn hns k hmk hnk
    have hmw := ht.part hm
    rcases isWord_or_isMember hmk with hword | ⟨rfl, isOptional, name, hform⟩
    · -- a word has nothing inside
      cases hmw with
      | node fits parts =>
        obtain rfl := fits.word hword
        cases hc
    · obtain ⟨hspan, isOptional', name', hform'⟩ := isMember_of_key? hnk
      have hlt := hmw.rank_lt hc hn (hbare n hns) hspan
      rw [hform, hform'] at hlt
      exact Nat.lt_irrefl _ hlt
  refine List.pairwise_filterMap.mpr ?_
  have hall := List.pairwise_filter.mp hpairwise
  refine hall.imp fun {m n} hmn k hk k' hk' heq => ?_
  subst heq
  exact hmn (by simp [hk]) (by simp [hk']) k hk hk'

/-- The label of a key is the number of the part that has it. -/
theorem Keyed.label_getElem {t : Node} (h : t.Keyed) {i : Nat} (hi : i < t.parts.length)
    {k : NodeKey} (hk : t.parts[i].key? = some k) : t.label k = i := by
  refine (List.findIdx_eq hi).mpr ⟨beq_iff_eq.mpr hk, fun j hj => ?_⟩
  have hne := List.pairwise_iff_getElem.mp h.pairwise j i (Nat.lt_trans hj hi) hi hj k
  exact eq_false_of_ne_true fun hbeq => hne (beq_iff_eq.mp hbeq) hk

/-- Trees with the same outline whose parts are told apart are the same once their parts are
numbered. -/
theorem relabel_label_eq {t u : Node} (ht : t.Keyed) (hu : u.Keyed) (h : t.AlikeBy σ u) :
    t.relabel σ t.label = u.relabel σ u.label := by
  refine relabel_eq h (List.ext_getElem (by simp [h.length_parts]) fun i hi hi' => ?_)
  rw [List.length_map] at hi hi'
  rw [List.getElem_map, List.getElem_map]
  have hform : t.parts[i].form.mapText σ = u.parts[i].form.mapText σ := by
    have hpart := congrArg (fun ns => (ns[i]?).map form) h.map_parts
    simpa [hi, hi', form_outline] using hpart
  have hsome : t.parts[i].key?.isSome = u.parts[i].key?.isSome := by
    rw [key?, key?, ← Form.isSome_key?_mapText, hform, Form.isSome_key?_mapText]
    exact Form.isSome_key? ..
  cases hk : t.parts[i].key? with
  | none =>
      rw [hk] at hsome
      have hnone : u.parts[i].key? = none := by
        cases hk' : u.parts[i].key? with
        | none => rfl
        | some k =>
            rw [hk'] at hsome
            cases hsome
      rw [hnone]
      rfl
  | some k =>
      rw [hk] at hsome
      obtain ⟨k', hk'⟩ := Option.isSome_iff_exists.mp hsome.symm
      rw [hk', placeOf, placeOf, ht.label_getElem hi hk, hu.label_getElem hi' hk']

end Node

end Graft
