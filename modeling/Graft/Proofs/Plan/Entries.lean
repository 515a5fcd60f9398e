import Graft.Proofs.Plan.Targets
/-!
What goes along with an entry of a pattern.

# What a child says

The plan for a pattern of properties is folded over its children, with one plan handed on. What a
child adds to it depends on the child and on whether a rest element keeps everything, and on nothing
that the others said (`Survey.planProperty_eq`). So the plan for the pattern is put together from
what each child says by itself (`Survey.removed_object`, `Survey.splits_object`,
`Survey.emptied_object`).

# What follows

- A property goes away or moves out only where no rest element collects what is left
  (`Survey.rest_of_splits`).
- A property whose value is a pattern goes away only with everything that stands in that pattern
  (`Survey.removed_of_emptied`, `Survey.Withdrawn`).
- A plan for a program takes over the plan for a pattern as a whole (`planEdits_takesWhole`), so
  what goes along with an entry is then planned too (`EditPlan.MadeFor.withdrawn`,
  `EditPlan.MadeFor.rest_goes`).
-/
namespace Graft

namespace Survey

open Node

variable {v : Survey} {l : Liveness}

-- ============================================================ what a child says

/-- What a child of an object pattern says by itself. -/
def planEntry (v : Survey) (l : Liveness) (keepsAll : Bool) (k : Node) : PatternPlan :=
  v.planProperty l keepsAll { emptied := true } k (v.planPattern l k)

section

variable {keepsAll : Bool} {p inner : PatternPlan} {k : Node}

/-- What a child says is added to what the others said. -/
theorem planProperty_eq (v : Survey) (l : Liveness) (keepsAll : Bool) (p inner : PatternPlan)
    (k : Node) :
    (v.planProperty l keepsAll p k inner).removed
        = p.removed ++ (v.planProperty l keepsAll { emptied := true } k inner).removed
      ∧ (v.planProperty l keepsAll p k inner).splits
        = p.splits ++ (v.planProperty l keepsAll { emptied := true } k inner).splits
      ∧ (v.planProperty l keepsAll p k inner).emptied
        = (p.emptied && (v.planProperty l keepsAll { emptied := true } k inner).emptied) := by
  unfold planProperty
  split
  case h_1 => simp
  case h_2 =>
    split
    case h_1 =>
      split
      · simp
      · split
        · simp
        · simp
    case h_2 =>
      dsimp only
      split
      · simp
      · simp
    case h_3 => simp
    case h_4 => simp
  case h_3 => simp

/-- The plan for a pattern is put together from what its entries say, each for itself. -/
theorem foldl_planProperty (ks : List Node) (p : PatternPlan) :
    let q := (ks.map fun k => (k, v.planPattern l k)).foldl
      (fun p c => v.planProperty l keepsAll p c.1 c.2) p
    q.removed = p.removed ++ ks.flatMap (fun k => (v.planEntry l keepsAll k).removed)
      ∧ q.splits = p.splits ++ ks.flatMap (fun k => (v.planEntry l keepsAll k).splits)
      ∧ q.emptied = (p.emptied && ks.all fun k => (v.planEntry l keepsAll k).emptied) := by
  induction ks generalizing p with
  | nil => simp
  | cons k ks ih =>
      obtain ⟨hremoved, hsplits, hemptied⟩ := planProperty_eq v l keepsAll p (v.planPattern l k) k
      obtain ⟨ihremoved, ihsplits, ihemptied⟩ := ih (v.planProperty l keepsAll p k (v.planPattern l k))
      simp only [List.map_cons, List.foldl_cons, List.flatMap_cons, List.all_cons]
      refine ⟨?_, ?_, ?_⟩
      · rw [ihremoved, hremoved, List.append_assoc]
        rfl
      · rw [ihsplits, hsplits, List.append_assoc]
        rfl
      · rw [ihemptied, hemptied, Bool.and_assoc]
        rfl

/-- What a child takes away: itself, if nothing uses it and no rest element keeps it, or something
inside of its value. -/
theorem removed_planEntry {s : Span} (hs : s ∈ (v.planEntry l keepsAll k).removed) :
    ∃ isShorthand span key value, k = .node (.patternProperty false isShorthand) span [key, value]
      ∧ (keepsAll = false ∧ s = span
          ∧ (v.isUnusedName l value = true
            ∨ (∃ role, value.form = .objectPattern role) ∧ (v.planPattern l value).emptied = true)
        ∨ EditPlan.isPattern value.form = true ∧ s ∈ (v.planPattern l value).removed) := by
  unfold planEntry planProperty at hs
  split at hs
  case h_1 => cases hs
  case h_3 => cases hs
  case h_2 isShorthand span key value =>
    refine ⟨isShorthand, span, key, value, rfl, ?_⟩
    rw [planPattern_property] at hs
    split at hs
    -- a name is removed when nothing reads it, unless the pattern keeps all its entries
    case h_1 =>
      split at hs
      case isTrue => cases hs
      case isFalse hkeeps =>
        split at hs
        case isTrue hunused =>
          exact .inl ⟨eq_false_of_ne_true hkeeps, List.mem_singleton.mp hs, .inl hunused⟩
        case isFalse => cases hs
    -- an object pattern hands on what it removes, and goes itself when that empties it
    case h_2 role hrole =>
      dsimp only at hs
      split at hs
      case isTrue hempty =>
        simp only [Bool.and_eq_true, Bool.not_eq_true'] at hempty
        rcases List.mem_append.mp hs with hs | hs
        · exact .inr ⟨by rw [hrole]; rfl, hs⟩
        · exact .inl ⟨hempty.2, List.mem_singleton.mp hs, .inr ⟨⟨role, hrole⟩, hempty.1⟩⟩
      case isFalse => exact .inr ⟨by rw [hrole]; rfl, hs⟩
    -- an array pattern only hands on
    case h_3 role hrole =>
      cases value with
      | node form own children =>
          obtain rfl : form = .arrayPattern role := hrole
          rw [planPattern_array]
          exact .inr ⟨rfl, hs⟩
    case h_4 => cases hs

/-- What goes away inside of the value of a property goes away. -/
theorem inner_subset {isShorthand : Bool} {span : Span} {key value : Node}
    (hform : EditPlan.isPattern value.form = true) :
    (v.planPattern l value).removed ⊆ (v.planEntry l keepsAll
      (.node (.patternProperty false isShorthand) span [key, value])).removed := by
  unfold planEntry planProperty
  rw [planPattern_property]
  cases value with
  | node form own children =>
      cases form with
      | objectPattern role =>
          dsimp only [Node.form]
          split
          · exact List.subset_append_left ..
          · exact List.Subset.refl _
      | arrayPattern role =>
          rw [planPattern_array]
          exact List.Subset.refl _
      | _ => cases hform

/-- Nothing moves out from beside a rest element in use. -/
theorem splits_planEntry {s : PropertySplit} (hs : s ∈ (v.planEntry l keepsAll k).splits) :
    keepsAll = false := by
  unfold planEntry planProperty at hs
  split at hs
  case h_1 => cases hs
  case h_3 => cases hs
  case h_2 =>
    split at hs
    case h_1 =>
      split at hs
      case isTrue => cases hs
      case isFalse hkeeps => exact eq_false_of_ne_true hkeeps
    case h_2 =>
      dsimp only at hs
      split at hs
      · cases hs
      · cases hs
    case h_3 => cases hs
    case h_4 => cases hs

/-- A property that is not in the way of emptying its pattern goes away. -/
theorem span_mem_of_emptied {isComputed isShorthand : Bool} {span : Span} {key value : Node}
    (he : (v.planEntry l false
      (.node (.patternProperty isComputed isShorthand) span [key, value])).emptied = true) :
    span ∈ (v.planEntry l false
      (.node (.patternProperty isComputed isShorthand) span [key, value])).removed := by
  cases isComputed with
  | true => cases he
  | false =>
      unfold planEntry planProperty at he ⊢
      dsimp only at he ⊢
      split at he
      case h_1 =>
        split at he
        case isTrue hkeeps => cases hkeeps
        case isFalse =>
          split at he
          case isTrue hunused =>
            rw [if_neg Bool.false_ne_true, if_pos hunused]
            exact List.mem_append_right _ List.mem_cons_self
          case isFalse => cases he
      case h_2 =>
        split at he
        case isTrue hempty =>
          rw [if_pos hempty]
          exact List.mem_append_right _ List.mem_cons_self
        case isFalse => cases he
      case h_3 => cases he
      case h_4 => cases he

end

-- ============================================================ what a pattern says

section

variable {role : PatternRole} {span : Span} {children : List Node}

/-- What goes away from an object pattern: an unused rest element and what its entries give up. -/
theorem removed_object : (v.planPattern l (.node (.objectPattern role) span children)).removed
    = v.unusedRest l children
      ++ children.flatMap fun k => (v.planEntry l (v.keepsAll l children) k).removed := by
  rw [planPattern_object]
  exact (foldl_planProperty children _).1

/-- What moves out of an object pattern is what its entries let go. -/
theorem splits_object : (v.planPattern l (.node (.objectPattern role) span children)).splits
    = children.flatMap fun k => (v.planEntry l (v.keepsAll l children) k).splits := by
  rw [planPattern_object, (foldl_planProperty children _).2.1]
  exact List.nil_append _

/-- An object pattern is emptied when no rest element needs its entries and each one gives itself
up. -/
theorem emptied_object : (v.planPattern l (.node (.objectPattern role) span children)).emptied
    = (!v.keepsAll l children
      && children.all fun k => (v.planEntry l (v.keepsAll l children) k).emptied) := by
  rw [planPattern_object]
  exact (foldl_planProperty children _).2.2

variable (hw : (node (.objectPattern role) span children).WellPlaced)
include hw

/-- The entries of a pattern are properties and rest elements. -/
theorem form_of_entry {k : Node} (hk : k ∈ children) :
    k.form.isPatternProperty = true ∨ k.form = .rest := by
  cases hw with
  | node fits =>
    rcases mem_dropLast_or_getLast? hk with h | h
    · exact .inl (fits.shape.1 k h)
    · exact fits.shape.2 k h

/-- A rest element stands last. -/
theorem getLast?_of_rest {k : Node} (hk : k ∈ children) (hrest : k.form = .rest) :
    children.getLast? = some k := by
  cases hw with
  | node fits =>
    rcases mem_dropLast_or_getLast? hk with h | h
    · have hproperty := fits.shape.1 k h
      rw [hrest] at hproperty
      cases hproperty
    · exact h

/-- A pattern has one rest element at most. -/
theorem eq_of_rest {k k' : Node} (hk : k ∈ children) (hrest : k.form = .rest) (hk' : k' ∈ children)
    (hrest' : k'.form = .rest) : k = k' :=
  Option.some.inj ((getLast?_of_rest hw hk hrest).symm.trans (getLast?_of_rest hw hk' hrest'))

/-- A rest element that does not keep the properties goes away itself. -/
theorem rest_mem_unusedRest {k : Node} (hkeeps : v.keepsAll l children = false) (hk : k ∈ children)
    (hrest : k.form = .rest) : k.span ∈ v.unusedRest l children := by
  have hlast := getLast?_of_rest hw hk hrest
  have hkw := hw.part (child_mem_parts hk)
  cases hkw with
  | @node form own ks fits =>
    obtain rfl : form = .rest := hrest
    obtain ⟨pattern, rfl⟩ := fits.shape
    have hsome := restOf?_of_getLast? hlast
    rw [keepsAll, hsome, unusedRest, hsome] at hkeeps
    rw [unusedRest, hsome]
    by_cases hunused : v.isUnusedName l pattern = true
    · simp [hunused, Node.span]
    · simp [hunused] at hkeeps

/-- Of a pattern that is emptied every entry goes away. -/
theorem removed_of_emptied
    (he : (v.planPattern l (.node (.objectPattern role) span children)).emptied = true) {k : Node}
    (hk : k ∈ children) :
    k.span ∈ (v.planPattern l (.node (.objectPattern role) span children)).removed := by
  rw [emptied_object, Bool.and_eq_true, Bool.not_eq_true', List.all_eq_true] at he
  obtain ⟨hkeeps, hall⟩ := he
  rw [removed_object]
  rcases form_of_entry hw hk with hproperty | hrest
  · refine List.mem_append_right _ (List.mem_flatMap.mpr ⟨k, hk, ?_⟩)
    have hempty := hall k hk
    have hkw := hw.part (child_mem_parts hk)
    cases hkw with
    | @node form own ks fits =>
      obtain ⟨isComputed, isShorthand, rfl⟩ := Form.exists_of_isPatternProperty hproperty
      obtain ⟨key, value, rfl⟩ := fits.shape
      rw [hkeeps] at hempty ⊢
      exact span_mem_of_emptied hempty
  · exact List.mem_append_left _ (rest_mem_unusedRest hw hkeeps hk hrest)

/-- A rest element goes away where something moves out. -/
theorem rest_of_splits {s : PropertySplit} {k : Node}
    (hs : s ∈ (v.planPattern l (.node (.objectPattern role) span children)).splits)
    (hk : k ∈ children) (hrest : k.form = .rest) :
    k.span ∈ (v.planPattern l (.node (.objectPattern role) span children)).removed := by
  rw [splits_object] at hs
  obtain ⟨k', -, hs⟩ := List.mem_flatMap.mp hs
  rw [removed_object]
  exact List.mem_append_left _ (rest_mem_unusedRest hw (splits_planEntry hs) hk hrest)

end

/-- What goes along with an entry that goes away from a pattern, if the spans are those of all
entries that go away: a rest element stands last, a rest element beside a property goes away with
the property, and so does everything in a pattern that is the value. -/
structure Withdrawn (spans : List Span) (q entry : Node) : Prop where
  last : entry.form = .rest → q.children.getLast? = some entry
  rest : entry.form ≠ .rest → ∀ k ∈ q.children, k.form = .rest → k.span ∈ spans
  nested : ∀ {form own key role span children},
    entry = .node form own [key, .node (.objectPattern role) span children] →
      ∀ k ∈ children, k.span ∈ spans

/-- More spans only make more of what goes along. -/
theorem Withdrawn.mono {spans more : List Span} {q entry : Node} (h : Withdrawn spans q entry)
    (hsub : spans ⊆ more) : Withdrawn more q entry where
  last := h.last
  rest hform k hk hrest := hsub (h.rest hform k hk hrest)
  nested heq k hk := hsub (h.nested heq k hk)

/-- Whether a span is that of an entry that goes away from a pattern of a tree, with all that goes
along with it. -/
def IsWithdrawn (spans : List Span) (t : Node) (s : Span) : Prop :=
  ∃ q entry, Reaches t q ∧ entry ∈ q.children ∧ entry.form.isEntry = true ∧ entry.span = s
    ∧ Withdrawn spans q entry

/-- An unused rest element goes away with nothing along. -/
theorem IsWithdrawn.of_unusedRest {form : Form} {span s : Span} {children : List Node}
    {spans : List Span} (hs : s ∈ v.unusedRest l children) :
    IsWithdrawn spans (.node form span children) s := by
  obtain ⟨pattern, hlast, -⟩ := unusedRest_cases hs
  refine ⟨_, _, .self _, List.mem_of_getLast? hlast, rfl, rfl, fun _ => hlast, ?_, ?_⟩
  · exact fun hform => absurd rfl hform
  · intro _ _ _ _ _ _ heq
    cases heq

/-- With every entry that the plan for a pattern takes away goes what has to go along. -/
theorem isWithdrawn_of_removed (v : Survey) (l : Liveness) {t : Node} (ht : t.WellPlaced) :
    ∀ s ∈ (v.planPattern l t).removed, IsWithdrawn (v.planPattern l t).removed t s := by
  induction t with
  | node form span children ih =>
      intro s hs
      cases form with
      | objectPattern role =>
          have hinner : ∀ k ∈ children, (v.planEntry l (v.keepsAll l children) k).removed
              ⊆ (v.planPattern l (.node (.objectPattern role) span children)).removed := by
            intro k hk s hs
            rw [removed_object]
            exact List.mem_append_right _ (List.mem_flatMap.mpr ⟨k, hk, hs⟩)
          have hmem := hs
          rw [removed_object] at hmem
          rcases List.mem_append.mp hmem with hrest | hentry
          · exact .of_unusedRest hrest
          obtain ⟨k, hk, hentry⟩ := List.mem_flatMap.mp hentry
          obtain ⟨isShorthand, own, key, value, rfl, hown | ⟨hform, hbelow⟩⟩ :=
            removed_planEntry hentry
          · obtain ⟨hkeeps, rfl, hkind⟩ := hown
            refine ⟨_, _, .self _, hk, rfl, rfl, nofun, fun _ k' hk' hrest => ?_, ?_⟩
            · rw [removed_object]
              exact List.mem_append_left _ (rest_mem_unusedRest ht hkeeps hk' hrest)
            · intro _ _ _ role' span' children' heq k' hk'
              cases heq
              rcases hkind with hunused | ⟨-, hempty⟩
              · obtain ⟨name, hname⟩ := exists_name_of_isUnusedName hunused
                cases hname
              · have hvalue := (ht.part (child_mem_parts hk)).part
                  (child_mem_parts (List.mem_cons_of_mem _ List.mem_cons_self))
                exact hinner _ hk (inner_subset rfl (removed_of_emptied hvalue hempty hk'))
          · -- what goes away inside of the value
            have hbelow' : s ∈ (v.planPattern l
                (.node (.patternProperty false isShorthand) own [key, value])).removed := by
              rwa [planPattern_property]
            obtain ⟨q, entry, hreaches, hmem, hkind, hspan, hwith⟩ :=
              ih _ hk (ht.part (child_mem_parts hk)) s hbelow'
            refine ⟨q, entry, .entry hk hreaches, hmem, hkind, hspan, hwith.mono ?_⟩
            rw [planPattern_property]
            exact List.Subset.trans (inner_subset hform) (hinner _ hk)
      | arrayPattern role =>
          rw [planPattern_array] at hs ⊢
          exact .of_unusedRest hs
      | patternProperty isComputed isShorthand =>
          cases ht with
          | node fits parts =>
          obtain ⟨key, value, rfl⟩ := fits.shape
          rw [planPattern_property] at hs ⊢
          obtain ⟨q, entry, hreaches, hrest⟩ := ih value (by simp) (parts value (by simp)) s hs
          exact ⟨q, entry, .value hreaches, hrest⟩
      | _ => cases hs

-- ============================================================ the plan of a program

/-- Whether a plan takes over what can be done about a pattern as a whole. -/
structure TakesWhole (v : Survey) (l : Liveness) (tree : Node) (p : EditPlan) : Prop where
  patterns : ∀ s ∈ p.removedPatterns, ∃ span pattern value,
    .node .declarator span [pattern, value] ∈ tree.parts ∧ s ∈ (v.planPattern l pattern).removed
      ∧ (v.planPattern l pattern).removed ⊆ p.removedPatterns
  splits : ∀ e ∈ p.splits, ∃ pattern value, .node .declarator e.1 [pattern, value] ∈ tree.parts
    ∧ (v.planPattern l pattern).removed ⊆ p.removedPatterns

/-- A declarator takes over the whole plan for its pattern, or none of it. -/
theorem TakesWhole.patternEdits {tree : Node} {p : EditPlan} (h : TakesWhole v l tree p)
    {isListed : Bool} {span : Span} {pattern value : Node}
    (hmem : .node .declarator span [pattern, value] ∈ tree.parts) :
    TakesWhole v l tree (v.patternEdits isListed span pattern value l p) := by
  unfold Survey.patternEdits
  split
  case h_1 role hrole =>
    -- the patterns taken before stay, and this pattern's go in as a whole
    have hmore : p.removedPatterns
        ⊆ (v.planPattern l pattern).removed.reverse ++ p.removedPatterns :=
      List.subset_append_right ..
    have hwhole : (v.planPattern l pattern).removed
        ⊆ (v.planPattern l pattern).removed.reverse ++ p.removedPatterns := fun s hs =>
      List.mem_append_left _ (List.mem_reverse.mpr hs)
    have hold : ∀ e ∈ p.splits, ∃ pattern' value',
        .node .declarator e.1 [pattern', value'] ∈ tree.parts ∧ (v.planPattern l pattern').removed
          ⊆ (v.planPattern l pattern).removed.reverse ++ p.removedPatterns := by
      intro e he
      obtain ⟨pattern', value', hdeclarator, hsub⟩ := h.splits e he
      exact ⟨pattern', value', hdeclarator, List.Subset.trans hsub hmore⟩
    -- a removed entry comes from this pattern or from one before; so does a split declarator
    refine ⟨fun s hs => ?_, fun e he => ?_⟩
    · rcases List.mem_append.mp hs with hs | hs
      · exact ⟨span, pattern, value, hmem, List.mem_reverse.mp hs, hwhole⟩
      · obtain ⟨span', pattern', value', hdeclarator, hs, hsub⟩ := h.patterns s hs
        exact ⟨span', pattern', value', hdeclarator, hs, List.Subset.trans hsub hmore⟩
    · dsimp only at he
      split at he
      · rcases List.mem_cons.mp he with rfl | he
        · exact ⟨pattern, value, hmem, hwhole⟩
        · exact hold e he
      · exact hold e he
  -- an array pattern adds its own entries in the same way, and splits nothing
  case h_2 =>
    have hmore : p.removedPatterns ⊆ (v.planPattern l pattern).removed ++ p.removedPatterns :=
      List.subset_append_right ..
    refine ⟨fun s hs => ?_, fun e he => ?_⟩
    · rcases List.mem_append.mp hs with hs | hs
      · exact ⟨span, pattern, value, hmem, hs, List.subset_append_left ..⟩
      · obtain ⟨span', pattern', value', hdeclarator, hs, hsub⟩ := h.patterns s hs
        exact ⟨span', pattern', value', hdeclarator, hs, List.Subset.trans hsub hmore⟩
    · obtain ⟨pattern', value', hdeclarator, hsub⟩ := h.splits e he
      exact ⟨pattern', value', hdeclarator, List.Subset.trans hsub hmore⟩
  case h_3 => exact h

end Survey

/-- The plan for a program takes over what can be done about a pattern as a whole. -/
theorem planEdits_takesWhole (config : TransformConfig) (plugin : String) (tree : Node) :
    Survey.TakesWhole (Survey.onProgram config plugin tree)
      (firstDecisions config plugin tree).liveness tree (planEdits config plugin tree).1 := by
  rw [planEdits_fst]
  have hfirst : Survey.DividesOnly (Survey.onProgram config plugin tree)
      (firstDecisions config plugin tree).liveness [] (firstDecisions config plugin tree).plan :=
    Survey.visit_dividesOnly tree true _ ⟨nofun, nofun, nofun⟩
  refine (Survey.visitPatterns_induct (P := Survey.TakesWhole (Survey.onProgram config plugin tree)
    (firstDecisions config plugin tree).liveness tree) (fun hmem _ hp => hp.patternEdits hmem) tree
    (Node.self_mem_parts tree) false _ rfl ⟨fun s hs => ?_, fun e he => ?_⟩).2
  · obtain ⟨_, _, _, hnone, -⟩ := hfirst.patterns s hs
    cases hnone
  · obtain ⟨_, _, hnone, -⟩ := hfirst.splits e he
    cases hnone

namespace EditPlan

open Node Survey

variable {v : Survey} {l : Liveness} {tree q n : Node} {p : EditPlan}

namespace MadeFor

/-- With an entry that goes away goes what has to go along. -/
theorem withdrawn (h : MadeFor v l tree p) (hwhole : TakesWhole v l tree p) (hq : q ∈ tree.parts)
    (hn : n ∈ q.children) (hgoes : p.isPruned n = true) : Withdrawn p.removedPatterns q n := by
  have hnt := mem_parts_trans (child_mem_parts hn) hq
  have hnb := isBare_eq_false_of_isPruned hgoes
  obtain ⟨_, pattern', _, q', hdeclarator', hreaches', hspare⟩ := h.pruned hnt hgoes
  have hq't := mem_parts_trans hreaches'.mem_parts
    (mem_parts_trans (child_mem_parts List.mem_cons_self) (kept_subset hdeclarator'))
  rw [isPruned, Bool.and_eq_true, List.contains_iff_mem] at hgoes
  obtain ⟨span, pattern, value, hdeclarator, hs, hsub⟩ := hwhole.patterns _ hgoes.2
  have hpattern := mem_parts_trans (child_mem_parts List.mem_cons_self) hdeclarator
  obtain ⟨q'', entry, hreaches, hentry, hkind, hspan, hwith⟩ :=
    isWithdrawn_of_removed v l (h.wellPlaced.part hpattern) _ hs
  have hq''t := mem_parts_trans hreaches.mem_parts hpattern
  -- the plan for the pattern speaks of this entry
  have hbare : entry.isBare = false := isBare_eq_false_of_isEntry hkind
  obtain rfl := eq_of_spareEntry h.wellPlaced hq't hspare
    (mem_parts_trans (child_mem_parts hentry) hq''t) hkind hbare hspan.symm
  obtain rfl := h.wellPlaced.parent_eq hq hq''t hn hentry hnb
  exact hwith.mono hsub

/-- A rest element goes away where a property goes away or moves out. -/
theorem rest_goes (h : MadeFor v l tree p) (hwhole : TakesWhole v l tree p) (hq : q ∈ tree.parts)
    (hn : n ∈ q.children) (hgoes : p.isPruned n = true ∨ p.isMoved n = true) (hform : n.form ≠ .rest)
    {k : Node} (hk : k ∈ q.children) (hrest : k.form = .rest) : p.isPruned k = true := by
  rw [isPruned, hrest, Bool.and_eq_true, List.contains_iff_mem]
  refine ⟨rfl, ?_⟩
  rcases hgoes with hgoes | hmoved
  · exact (h.withdrawn hwhole hq hn hgoes).rest hform k hk hrest
  · obtain ⟨s, hs⟩ := Option.isSome_iff_exists.mp hmoved
    obtain ⟨span, pattern, value, hmoves⟩ := h.moves (mem_parts_trans (child_mem_parts hn) hq) hs
    have hdt := kept_subset hmoves.declarator
    have hpt := mem_parts_trans (child_mem_parts List.mem_cons_self) hdt
    obtain rfl := h.wellPlaced.parent_eq hq hpt hn hmoves.entry.mem
      (isBare_eq_false_of_isMoved hmoved)
    obtain ⟨pattern', value', hdeclarator, hsub⟩ := hwhole.splits _ hmoves.splits
    obtain ⟨-, -, hsame⟩ := Node.node.inj (h.wellPlaced.eq_of_span_eq hdt hdeclarator
      (isBare_node ..) (isBare_node ..) rfl rfl)
    obtain ⟨rfl, -⟩ := List.cons.inj hsame
    obtain ⟨role, hrole⟩ := hmoves.entry.pattern
    cases q with
    | node form own children =>
        obtain rfl : form = .objectPattern role := hrole
        exact hsub (rest_of_splits (h.wellPlaced.part hpt) hmoves.mem hk hrest)

end MadeFor

end EditPlan

end Graft
