import Graft.Proofs.Edit.Standing
import Graft.Proofs.Plan.Entries
import Graft.Proofs.Tree.Path
/-!
Patterns after an edit.

An edit takes entries out of the patterns of declarators. What it leaves of a pattern is told here,
by the ways that lead into it.

- What the pattern has at the end of a way into it, it has there after the edit, if nothing on the
  way goes away or moves out (`EditPlan.MadeFor.performed_of_holds`). The induction is on the way;
  an element of an array pattern keeps its number, for of an array pattern only a rest element goes,
  and that stands last.
- Of its entries a pattern keeps those that have to stay, in their order (`EditPlan.KeepsEntries`):
  each of them stands for the entry that it was (`EditPlan.SameEntry`), and an entry that may do
  something of its own is among them. If the rest element stays, so does every property.
- A pattern keeps every entry if the value of its declarator does not trace to the host
  (`EditPlan.MadeFor.keeps_of_no_host`), for what is planned about a pattern is planned about the
  pattern of one declarator, and of no other.
-/
namespace Graft

namespace EditPlan

open Node Survey

-- ============================================================ what is to be kept

/-- The entries of a pattern that neither go away nor move out. -/
def staying (p : EditPlan) (ks : List Node) : List Node :=
  ks.filter fun k => !p.isPruned k && !p.isMoved k

/-- Whether an entry of a pattern may do something of its own: its key is computed, or its value has
a default or takes elements. -/
def isFixedEntry (k : Node) : Bool :=
  match k with
  | .node (.patternProperty isComputed _) _ [_, value] =>
      isComputed || match value.form with
        | .defaulted | .arrayPattern _ => true
        | _ => false
  | _ => false

/-- Whether an entry stands for another one: of the same form, at the same place of the text and,
unless that is computed, under the same key. -/
structure SameEntry (k k' : Node) : Prop where
  form : k'.form = k.form
  span : k'.span = k.span
  key : k.form.isKeyed = true → k'.children.head? = k.children.head?

/-- What a pattern of properties keeps of its entries: those that stay, in their order, and all that
may do something of their own are among them; if its rest element is, then all are. And a property
that is not, though its value is a pattern, goes away with every entry of that pattern. -/
structure KeepsEntries (p : EditPlan) (ks ks' : List Node) : Prop where
  same : List.Forall₂ SameEntry (p.staying ks) ks'
  fixed : ∀ k ∈ ks, isFixedEntry k = true → k ∈ p.staying ks
  rest : ∀ k ∈ p.staying ks, k.form = .rest → p.staying ks = ks
  nested : ∀ {form own key role span es},
    .node form own [key, .node (.objectPattern role) span es] ∈ ks →
      .node form own [key, .node (.objectPattern role) span es] ∉ p.staying ks →
        ∀ e ∈ es, p.isPruned e = true

variable {v : Survey} {l : Liveness} {tree : Node} {p : EditPlan} {plugin : String} {n : Node}

namespace MadeFor

-- ============================================================ what stays of a pattern

/-- No entry of a pattern is a statement that is removed. -/
theorem isRemoved_of_isEntry (hentry : n.form.isEntry = true) : p.isRemoved n = false := by
  refine isRemoved_eq_false fun heq => ?_
  rw [heq] at hentry
  cases hentry

/-- What stands in place of a pattern. -/
theorem performed_pattern {form : Form} (hform : isPattern form = true) (span : Span)
    (ks : List Node) (above : Form) :
    p.performed plugin (.node form span ks) above
      = [.node form span (ks.flatMap (p.performed plugin · form))] := by
  cases form with
  | objectPattern role => exact performed_objectPattern role span ks above
  | arrayPattern role =>
      have hplain : Form.arrayPattern role ≠ .expressionStatement := fun h => by cases h
      rw [performed_of_plain hplain rfl]
      simp only [restored, Form.askAll, List.flatMap_map]
  | _ => cases hform

/-- What stands in place of an entry of a pattern that stays. -/
theorem performed_entry {form : Form} {own : Span} {ks : List Node} (hentry : form.isEntry = true)
    (hkept : p.isPruned (.node form own ks) = false)
    (hunmoved : p.isMoved (.node form own ks) = false) (above : Form) :
    p.performed plugin (.node form own ks) above
      = [.node form own (ks.flatMap (p.performed plugin · form))] := by
  have hstays : p.isRemoved (.node form own ks) = false := isRemoved_of_isEntry hentry
  rw [performed_node, hstays, hkept, hunmoved, if_neg Bool.false_ne_true,
    Bool.or_self, if_neg Bool.false_ne_true]
  cases form with
  | patternProperty isComputed isShorthand =>
      simp only [restored, Form.askAll, List.flatMap_map]
  | rest => simp only [restored, Form.askAll, List.flatMap_map]
  | _ => cases hentry

/-- The key and the value of a property that stays are rewritten in it, and the key is not if it is
not computed. -/
theorem performed_property (h : MadeFor v l tree p) (plugin : String) {isComputed isShorthand : Bool}
    {own : Span} {key value : Node}
    (hn : .node (.patternProperty isComputed isShorthand) own [key, value] ∈ tree.parts)
    (hkept : p.isPruned (.node (.patternProperty isComputed isShorthand) own [key, value]) = false)
    (hunmoved : p.isMoved (.node (.patternProperty isComputed isShorthand) own [key, value]) = false)
    (above : Form) :
    ∃ key' value', p.performed plugin value (.patternProperty isComputed isShorthand) = [value']
      ∧ p.performed plugin (.node (.patternProperty isComputed isShorthand) own [key, value]) above
        = [.node (.patternProperty isComputed isShorthand) own [key', value']]
      ∧ (isComputed = false → key' = key) := by
  have hone : ∀ k ∈ [key, value],
      ∃ k', p.performed plugin k (.patternProperty isComputed isShorthand) = [k'] := fun k hk =>
    h.exists_performed plugin hn hk (h.not_pruned_of_parent hn hk rfl)
      (h.not_moved_of_parent hn hk nofun) rfl rfl
  obtain ⟨key', hkey⟩ := hone key List.mem_cons_self
  obtain ⟨value', hvalue⟩ := hone value (List.mem_cons_of_mem _ List.mem_cons_self)
  refine ⟨key', value', hvalue, ?_, fun hcomputed => ?_⟩
  · rw [performed_entry rfl hkept hunmoved]
    simp only [List.flatMap_cons, List.flatMap_nil, hkey, hvalue]
    rfl
  · subst hcomputed
    have hw := h.wellPlaced.part hn
    cases hw with
    | node fits =>
      rw [performed_of_isBare (fits.key rfl key rfl)] at hkey
      exact (List.cons.inj hkey).1.symm

/-- What stands before an element of an array pattern is no rest element that goes away. -/
theorem not_pruned_of_before (h : MadeFor v l tree p) (hwhole : TakesWhole v l tree p)
    {role : PatternRole} {span : Span} {before after : List Node} {k x : Node}
    (hq : .node (.arrayPattern role) span (before ++ k :: after) ∈ tree.parts) (hx : x ∈ before) :
    p.isPruned x = false := by
  refine eq_false_of_ne_true fun hgoes => ?_
  have hchild : x ∈ (node (.arrayPattern role) span (before ++ k :: after)).children :=
    List.mem_append_left _ hx
  have hbare := isBare_eq_false_of_isPruned hgoes
  -- of an array pattern only a rest element goes away, and it is the last one
  have hrest : x.form = .rest := by
    obtain ⟨_, pattern, _, q, hdeclarator, hreaches, hspare⟩ :=
      h.pruned (mem_parts_trans (child_mem_parts hchild) hq) hgoes
    have hpt := mem_parts_trans (child_mem_parts List.mem_cons_self) (kept_subset hdeclarator)
    obtain rfl := h.wellPlaced.parent_eq hq (mem_parts_trans hreaches.mem_parts hpt) hchild
      hspare.mem hbare
    refine hspare.kind.resolve_right ?_
    rintro ⟨⟨role', hrole⟩, -⟩
    cases hrole
  have hlast := (h.withdrawn hwhole hq hchild hgoes).last hrest
  have hlast : (before ++ k :: after).getLast? = some x := hlast
  rw [List.getLast?_append_of_ne_nil _ (List.cons_ne_nil k after)] at hlast
  have hw := h.wellPlaced.part hq
  cases hw with
  | node fits parts =>
    have hapart := (List.pairwise_append.mp (fits.apart parts)).2.2 x hx x
      (List.mem_of_getLast? hlast) hbare hbare
    have hlt := (fits.part_sits (parts x hchild) hchild (self_mem_parts x) hbare).2.1
    omega

/-- A name that is introduced stays as it is. -/
theorem performed_of_isBinding (h : MadeFor v l tree p) (hn : n ∈ tree.parts)
    (hname : n.isBinding = true) (above : Form) : p.performed plugin n above = [n] := by
  obtain ⟨name, hform⟩ := exists_name_of_isBinding hname
  have hw := h.wellPlaced.part hn
  cases hw with
  | @node form span children fits =>
    obtain rfl : form = .binding name := hform
    obtain rfl := fits.word rfl
    have hplain : Form.binding name ≠ .expressionStatement := fun heq => by cases heq
    rw [performed_of_plain hplain rfl]
    rfl

/-- The way into the value of a property of a pattern of properties, given the way on in the
value. -/
theorem holds_property (h : MadeFor v l tree p) (plugin : String) {role : PatternRole}
    {span own : Span} {ks : List Node} {isComputed isShorthand : Bool} {key value b : Node}
    {path : List PatternStep} (ht : .node (.objectPattern role) span ks ∈ tree.parts)
    (hk : .node (.patternProperty isComputed isShorthand) own [key, value] ∈ ks)
    (hb : b ∈ value.parts)
    (hkept : ∀ m ∈ (node (.objectPattern role) span ks).parts, b ∈ m.parts → p.isPruned m = false)
    (hunmoved : ∀ k ∈ ks, b ∈ k.parts → p.isMoved k = false)
    (ih : value ∈ tree.parts → (∀ m ∈ value.parts, b ∈ m.parts → p.isPruned m = false) →
      (∀ k ∈ value.children, b ∈ k.parts → p.isMoved k = false) →
      ∀ above, ∃ value', p.performed plugin value above = [value'] ∧ value'.Holds path b)
    (above : Form) :
    ∃ ks' key' value', p.performed plugin (.node (.objectPattern role) span ks) above
        = [.node (.objectPattern role) span ks']
      ∧ .node (.patternProperty isComputed isShorthand) own [key', value'] ∈ ks'
      ∧ value'.Holds path b ∧ (isComputed = false → key' = key) := by
  have hkp : node (.patternProperty isComputed isShorthand) own [key, value]
      ∈ (node (.objectPattern role) span ks).parts := mem_parts_of_child hk (self_mem_parts _)
  have hkt := mem_parts_trans hkp ht
  have hvp := mem_parts_trans (mem_parts_of_value (self_mem_parts value)) hkp
  have hbk : b ∈ (node (.patternProperty isComputed isShorthand) own [key, value]).parts :=
    mem_parts_of_value hb
  obtain ⟨key', value', hvalue', hperformed, hkey⟩ := h.performed_property plugin hkt
    (hkept _ hkp hbk) (hunmoved _ hk hbk) (.objectPattern role)
  obtain ⟨value'', hvalue'', hholds⟩ := ih (mem_parts_trans hvp ht)
    (fun m hm => hkept m (mem_parts_trans hm hvp))
    (fun m hm _ => h.not_moved_below hkt (List.mem_cons_of_mem _ List.mem_cons_self) hm
      fun _ _ _ heq => absurd (Node.node.inj heq).1 nofun)
    (.patternProperty isComputed isShorthand)
  rw [hvalue'] at hvalue''
  obtain ⟨rfl, -⟩ := List.cons.inj hvalue''
  refine ⟨_, key', value', performed_objectPattern role span ks above, ?_, hholds, hkey⟩
  exact List.mem_flatMap.mpr ⟨_, hk, hperformed ▸ List.mem_singleton_self _⟩

/-- As many elements as stood before an element of an array pattern stand before it. -/
theorem length_before (h : MadeFor v l tree p) (hwhole : TakesWhole v l tree p) (plugin : String)
    {role : PatternRole} {span : Span} {before after : List Node} {k : Node}
    (hq : .node (.arrayPattern role) span (before ++ k :: after) ∈ tree.parts) :
    (before.flatMap (p.performed plugin · (.arrayPattern role))).length = before.length := by
  have hone : ∀ x ∈ before, (p.performed plugin x (.arrayPattern role)).length = 1 := by
    intro x hx
    have hchild : x ∈ (node (.arrayPattern role) span (before ++ k :: after)).children :=
      List.mem_append_left _ hx
    obtain ⟨x', hx'⟩ := h.exists_performed plugin hq hchild (h.not_pruned_of_before hwhole hq hx)
      (h.not_moved_of_parent hq hchild nofun) rfl rfl
    rw [show p.performed plugin x (.arrayPattern role) = [x'] from hx']
    rfl
  rw [List.length_flatMap, List.map_congr_left hone]
  simp

/-- What a pattern has at the end of a way it has there after the edit, if nothing on the way goes
away or moves out. -/
theorem performed_of_holds (h : MadeFor v l tree p) (hwhole : TakesWhole v l tree p)
    (plugin : String) {t b : Node} {path : List PatternStep} (hholds : t.Holds path b)
    (ht : t ∈ tree.parts) (hb : b.isBinding = true)
    (hkept : ∀ m ∈ t.parts, b ∈ m.parts → p.isPruned m = false)
    (hunmoved : ∀ k ∈ t.children, b ∈ k.parts → p.isMoved k = false) (above : Form) :
    ∃ t', p.performed plugin t above = [t'] ∧ t'.Holds path b := by
  -- below the pattern itself nothing moves out
  have hbelow : ∀ {q k : Node}, q ∈ tree.parts → q.form ≠ .declarator → k ∈ q.children →
      ∀ m ∈ k.children, p.isMoved m = false := fun {q k} hq hform hk m hm =>
    h.not_moved_below hq hk hm fun _ _ _ heq => absurd (by rw [heq]; rfl) hform
  induction hholds generalizing above with
  | self n => exact ⟨n, h.performed_of_isBinding ht hb above, .self n⟩
  | key hk hvalue ih =>
      obtain ⟨ks', key', value', hperformed, hmem, hholds, hkey⟩ :=
        h.holds_property plugin ht hk hvalue.mem_parts hkept hunmoved (ih · hb) above
      obtain rfl := hkey rfl
      exact ⟨_, hperformed, .key hmem hholds⟩
  | computed hk hvalue ih =>
      obtain ⟨ks', key', value', hperformed, hmem, hholds, -⟩ :=
        h.holds_property plugin ht hk hvalue.mem_parts hkept hunmoved (ih · hb) above
      exact ⟨_, hperformed, .computed hmem hholds⟩
  | @element role span before after k b path hk ih =>
      have hmem : k ∈ (node (.arrayPattern role) span (before ++ k :: after)).children :=
        List.mem_append_right _ List.mem_cons_self
      obtain ⟨k', hk', hholds⟩ := ih (mem_parts_trans (child_mem_parts hmem) ht) hb
        (fun m hm => hkept m (mem_parts_of_child hmem hm)) (fun m hm _ => hbelow ht nofun hmem m hm)
        (.arrayPattern role)
      rw [performed_pattern rfl, List.flatMap_append, List.flatMap_cons, hk']
      refine ⟨_, rfl, ?_⟩
      rw [← h.length_before hwhole plugin ht]
      exact .element hholds
  | @rest form span own ks inner b path hform hk hinner ih =>
      have hpattern : isPattern form = true := by
        rcases hform with ⟨_, rfl⟩ | ⟨_, rfl⟩ <;> rfl
      have hkp : node .rest own [inner] ∈ (node form span ks).parts :=
        mem_parts_of_child hk (self_mem_parts _)
      have hbk : b ∈ (node .rest own [inner]).parts := mem_parts_of_first hinner.mem_parts
      have hip := mem_parts_trans (mem_parts_of_first (self_mem_parts inner)) hkp
      obtain ⟨inner', hinner', hholds⟩ := ih (mem_parts_trans hip ht) hb
        (fun m hm => hkept m (mem_parts_trans hm hip))
        (fun m hm _ => hbelow (mem_parts_trans hkp ht) nofun List.mem_cons_self m hm) .rest
      have hrest : p.performed plugin (.node .rest own [inner]) form = [.node .rest own [inner']] := by
        rw [performed_entry rfl (hkept _ hkp hbk) (hunmoved _ hk hbk), List.flatMap_singleton,
          hinner']
      have hmem : node .rest own [inner'] ∈ ks.flatMap (p.performed plugin · form) :=
        List.mem_flatMap.mpr ⟨_, hk, hrest ▸ List.mem_singleton_self _⟩
      exact ⟨_, performed_pattern hpattern span ks above, .rest hform hmem hholds⟩
  | @defaulted span inner value b path hinner ih =>
      have hvalue : value ∈ (node .defaulted span [inner, value]).children :=
        List.mem_cons_of_mem _ List.mem_cons_self
      obtain ⟨inner', hinner', hholds⟩ := ih
        (mem_parts_trans (child_mem_parts List.mem_cons_self) ht) hb
        (fun m hm => hkept m (mem_parts_of_child List.mem_cons_self hm))
        (fun m hm _ => hbelow ht nofun List.mem_cons_self m hm) .defaulted
      obtain ⟨value', hvalue'⟩ := h.exists_performed plugin ht hvalue
        (h.not_pruned_of_parent ht hvalue rfl) (h.not_moved_of_parent ht hvalue nofun) rfl rfl
      have hvalue' : p.performed plugin value .defaulted = [value'] := hvalue'
      have hplain : Form.defaulted ≠ .expressionStatement := nofun
      rw [performed_of_plain hplain rfl]
      simp only [restored, Form.askAll, List.map_cons, List.map_nil, List.flatMap_cons,
        List.flatMap_nil, hinner', hvalue', List.append_nil]
      exact ⟨_, rfl, .defaulted hholds⟩

-- ============================================================ entries of patterns

/-- Nothing stands in place of an entry that goes away or moves out. -/
theorem performed_of_gone (hentry : n.form.isEntry = true)
    (hgone : (!p.isPruned n && !p.isMoved n) = false) (above : Form) :
    p.performed plugin n above = [] := by
  have hgone : (p.isPruned n || p.isMoved n) = true := by
    rw [← Bool.not_or, Bool.not_eq_false'] at hgone
    exact hgone
  cases n with
  | node form own ks =>
      rw [performed_node, isRemoved_of_isEntry hentry, if_neg Bool.false_ne_true, if_pos hgone]

/-- What stands in place of an entry that stays is the same entry. -/
theorem exists_sameEntry (h : MadeFor v l tree p) (plugin : String) (hn : n ∈ tree.parts)
    (hentry : n.form.isEntry = true) (hstays : (!p.isPruned n && !p.isMoved n) = true)
    (above : Form) : ∃ k, p.performed plugin n above = [k] ∧ SameEntry n k := by
  rw [Bool.and_eq_true, Bool.not_eq_true', Bool.not_eq_true'] at hstays
  obtain ⟨hkept, hunmoved⟩ := hstays
  have hw := h.wellPlaced.part hn
  cases hw with
  | @node form own ks fits =>
    cases form with
    | patternProperty isComputed isShorthand =>
        obtain ⟨key, value, rfl⟩ := fits.shape
        obtain ⟨key', value', -, hperformed, hkey⟩ :=
          h.performed_property plugin hn hkept hunmoved above
        refine ⟨_, hperformed, rfl, rfl, fun hkeyed => ?_⟩
        have hkeyed : (!isComputed) = true := hkeyed
        rw [hkey (by simpa using hkeyed)]
        rfl
    | rest =>
        refine ⟨_, performed_entry hentry hkept hunmoved above, rfl, rfl, fun hkeyed => ?_⟩
        cases hkeyed
    | _ => cases hentry

/-- What stands in place of the entries of a pattern are the entries that stay. -/
theorem forall₂_staying (h : MadeFor v l tree p) (plugin : String) {es : List Node}
    (hes : ∀ k ∈ es, k ∈ tree.parts ∧ k.form.isEntry = true) (above : Form) :
    List.Forall₂ SameEntry (p.staying es) (es.flatMap (p.performed plugin · above)) := by
  unfold staying
  induction es with
  | nil => exact .nil
  | cons k es ih =>
      obtain ⟨hk, hentry⟩ := hes k List.mem_cons_self
      have hrest := ih fun k' hk' => hes k' (List.mem_cons_of_mem _ hk')
      rw [List.filter_cons, List.flatMap_cons]
      cases hstays : !p.isPruned k && !p.isMoved k with
      | false =>
          rw [performed_of_gone hentry hstays]
          exact hrest
      | true =>
          obtain ⟨k', hk', hsame⟩ := h.exists_sameEntry plugin hk hentry hstays above
          rw [hk']
          exact .cons hsame hrest

section

variable {role : PatternRole} {span : Span} {ks : List Node}

/-- What stands in an object pattern is an entry. -/
theorem isEntry_of_mem {k : Node} (hw : (node (.objectPattern role) span ks).WellPlaced)
    (hk : k ∈ ks) : k.form.isEntry = true := by
  rcases form_of_entry hw hk with hproperty | hrest
  · exact isEntry_of_isPatternProperty hproperty
  · rw [hrest]; rfl

/-- An entry that may do something of its own stays. -/
theorem stays_of_isFixedEntry (h : MadeFor v l tree p) (hn : n ∈ tree.parts)
    (hfixed : isFixedEntry n = true) : p.isPruned n = false ∧ p.isMoved n = false := by
  have hvalue : ∀ {isShorthand own key value}, n = .node (.patternProperty false isShorthand) own
      [key, value] → ¬ ((∃ name, value.form = .binding name)
        ∨ ∃ role, value.form = .objectPattern role) := by
    rintro isShorthand own key value rfl (⟨name, hname⟩ | ⟨role, hrole⟩)
    · simp [isFixedEntry, hname] at hfixed
    · simp [isFixedEntry, hrole] at hfixed
  refine ⟨eq_false_of_ne_true fun hgoes => ?_, eq_false_of_ne_true fun hmoved => ?_⟩
  · obtain ⟨_, _, _, _, -, -, hspare⟩ := h.pruned hn hgoes
    rcases hspare.kind with hrest | ⟨-, _, _, _, _, heq, hkind⟩
    · cases n with
      | node form own ks =>
          obtain rfl : form = .rest := hrest
          cases hfixed
    · exact hvalue heq hkind
  · obtain ⟨s, hs⟩ := Option.isSome_iff_exists.mp hmoved
    obtain ⟨_, _, _, hmoves⟩ := h.moves hn hs
    obtain ⟨_, _, _, heq, -, hname, -⟩ := hmoves.entry.kind
    exact hvalue heq (.inl hname)

/-- A pattern of properties keeps the entries that have to stay. -/
theorem keepsEntries (h : MadeFor v l tree p) (hwhole : TakesWhole v l tree p) (plugin : String)
    (hq : .node (.objectPattern role) span ks ∈ tree.parts) :
    p.KeepsEntries ks (ks.flatMap (p.performed plugin · (.objectPattern role))) := by
  have hw := h.wellPlaced.part hq
  have hkt : ∀ k ∈ ks, k ∈ tree.parts := fun k hk =>
    mem_parts_trans (mem_parts_of_child hk (self_mem_parts k)) hq
  refine ⟨?_, fun k hk hfixed => ?_, fun rest hstays hrest => ?_, ?_⟩
  · exact h.forall₂_staying plugin (fun k hk => ⟨hkt k hk, isEntry_of_mem hw hk⟩) _
  · obtain ⟨hkept, hunmoved⟩ := h.stays_of_isFixedEntry (hkt k hk) hfixed
    exact List.mem_filter.mpr ⟨hk, by rw [hkept, hunmoved]; rfl⟩
  · obtain ⟨hmem, hstays⟩ := List.mem_filter.mp hstays
    rw [Bool.and_eq_true, Bool.not_eq_true', Bool.not_eq_true'] at hstays
    refine List.filter_eq_self.mpr fun k hk => ?_
    -- whatever goes away or moves out takes the rest element along
    refine eq_true_of_ne_false fun hgone => ?_
    have hgone : p.isPruned k = true ∨ p.isMoved k = true := by
      rw [← Bool.not_or, Bool.not_eq_false', Bool.or_eq_true] at hgone
      exact hgone
    have hne : k.form ≠ .rest := by
      intro hform
      obtain rfl := eq_of_rest hw hk hform hmem hrest
      rcases hgone with hgone | hgone
      · rw [hstays.1] at hgone
        cases hgone
      · rw [hstays.2] at hgone
        cases hgone
    have hgoes := h.rest_goes hwhole hq hk hgone hne hmem hrest
    rw [hstays.1] at hgoes
    cases hgoes
  · intro form own key role' span' es hk hgone e he
    have hgoes : p.isPruned (.node form own [key, .node (.objectPattern role') span' es]) = true := by
      refine eq_true_of_ne_false fun hkept => hgone (List.mem_filter.mpr ⟨hk, ?_⟩)
      have hunmoved : p.isMoved (.node form own [key, .node (.objectPattern role') span' es])
          = false := by
        refine eq_false_of_ne_true fun hmoved => ?_
        obtain ⟨s, hs⟩ := Option.isSome_iff_exists.mp hmoved
        obtain ⟨_, _, _, hmoves⟩ := h.moves (hkt _ hk) hs
        obtain ⟨_, _, _, heq, -, ⟨_, hname⟩, -⟩ := hmoves.entry.kind
        cases heq
        cases hname
      rw [hkept, hunmoved]
      rfl
    have hvw := (hw.part (child_mem_parts hk)).of_value
    rw [isPruned, isEntry_of_mem hvw he, Bool.true_and, List.contains_iff_mem]
    exact (h.withdrawn hwhole hq hk hgoes).nested rfl e he

end

-- ============================================================ values that do not come from the host

/-- A pattern that is reached from the pattern of one declarator is in the pattern of no other. -/
theorem declarator_eq (h : MadeFor v l tree p) {span span' : Span}
    {pattern pattern' value value' q k : Node} {path : List PatternStep}
    (hd : .node .declarator span [pattern, value] ∈ tree.parts)
    (hd' : .node .declarator span' [pattern', value'] ∈ tree.parts) (hholds : pattern.Holds path q)
    (hreaches : Reaches pattern' q) (hform : isPattern q.form = true) (hk : k ∈ q.children)
    (hentry : k.form.isEntry = true) : value = value' := by
  have hqb : q.isBare = false := isBare_eq_false_of_form (by
    cases hq : q.form <;> first | rfl | (rw [hq] at hform; cases hform))
  have hkb : k.isBare = false := isBare_eq_false_of_form (by
    cases hk : k.form <;> first | rfl | (rw [hk] at hentry; cases hentry))
  have hqd : q ∈ (node .declarator span [pattern, value]).parts := mem_parts_of_first hholds.mem_parts
  have hqd' : q ∈ (node .declarator span' [pattern', value']).parts :=
    mem_parts_of_first hreaches.mem_parts
  have hdw := h.wellPlaced.part hd
  have hdw' := h.wellPlaced.part hd'
  rcases h.wellPlaced.nested hd hd' hqd hqd' hqb with hin | hin
  · rcases hdw'.eq_or_mem_of_child List.mem_cons_self hreaches.mem_parts hqb hin hqd with heq | hin
    · cases heq
      rfl
    · -- the first declarator would stand on the way from the second pattern
      have hpw' := hdw'.part (child_mem_parts List.mem_cons_self)
      rcases hreaches.path hpw' hk hkb hin (mem_parts_trans (child_mem_parts hk) hqd) with
        rfl | rfl | ⟨role, hrole⟩ | hproperty
      · cases hentry
      · cases hform
      · cases hrole
      · cases hproperty
  · rcases hdw.eq_or_mem_of_child List.mem_cons_self hholds.mem_parts hqb hin hqd' with heq | hin
    · cases heq
      rfl
    · have hpw := hdw.part (child_mem_parts List.mem_cons_self)
      rcases hholds.ne_declarator hpw hqb hin hqd' with rfl | hne
      · cases hform
      · exact absurd rfl hne

/-- A pattern keeps every entry if the value of its declarator does not trace to the host. -/
theorem keeps_of_no_host (h : MadeFor v l tree p) {span : Span} {pattern value q k : Node}
    {path : List PatternStep} (hd : .node .declarator span [pattern, value] ∈ tree.parts)
    (htrace : v.origin.traces value = false) (hholds : pattern.Holds path q) (hk : k ∈ q.children) :
    p.isPruned k = false ∧ p.isMoved k = false := by
  have hqt := mem_parts_trans hholds.mem_parts
    (mem_parts_trans (child_mem_parts List.mem_cons_self) hd)
  have hkt := mem_parts_trans (child_mem_parts hk) hqt
  refine ⟨eq_false_of_ne_true fun hgoes => ?_, eq_false_of_ne_true fun hmoved => ?_⟩
  · -- a pruned entry is in the pattern of some declarator with the host's value; it would be this
    -- one
    have hbare := isBare_eq_false_of_isPruned hgoes
    rw [isPruned, Bool.and_eq_true, List.contains_iff_mem] at hgoes
    obtain ⟨span', pattern', value', hd', htrace', hs⟩ := h.grounded.patterns _ hgoes.2
    have hpt' := mem_parts_trans (child_mem_parts List.mem_cons_self) hd'
    obtain ⟨q', entry, hreaches, hspare, hspan⟩ :=
      (prunes_planPattern v l (h.wellPlaced.part hpt')).removed _ hs
    have hqt' := mem_parts_trans hreaches.mem_parts hpt'
    obtain rfl := eq_of_spareEntry h.wellPlaced hqt' hspare hkt hgoes.1 hbare hspan
    obtain rfl := h.wellPlaced.parent_eq hqt hqt' hk hspare.mem hbare
    obtain rfl := h.declarator_eq hd hd' hholds hreaches hspare.pattern hk hgoes.1
    rw [htrace] at htrace'
    cases htrace'
  · -- and so would the declarator that a moved entry leaves
    obtain ⟨s, hs⟩ := Option.isSome_iff_exists.mp hmoved
    obtain ⟨span', pattern', value', hmoves⟩ := h.moves hkt hs
    have hd' := kept_subset hmoves.declarator
    obtain ⟨-, htrace', -⟩ := h.of_split? hd' hmoves.entry.mem hs
    obtain rfl := h.wellPlaced.parent_eq hqt
      (mem_parts_trans (child_mem_parts List.mem_cons_self) hd') hk hmoves.entry.mem
      (isBare_eq_false_of_isMoved hmoved)
    have hform : isPattern q.form = true := by
      obtain ⟨role, hrole⟩ := hmoves.entry.pattern
      rw [hrole]
      rfl
    have hentry : k.form.isEntry = true := by
      obtain ⟨_, _, _, rfl, -⟩ := hmoves.entry.kind
      rfl
    obtain rfl := h.declarator_eq hd hd' hholds (.self q) hform hk hentry
    rw [htrace] at htrace'
    cases htrace'

end MadeFor

end EditPlan

end Graft
