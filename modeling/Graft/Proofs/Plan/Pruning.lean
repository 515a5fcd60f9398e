import Graft.Proofs.Edit.Rebuild
import Graft.Proofs.Plan.Grounds
import Graft.Proofs.Scope.Words
/-!
What goes away with a property of a pattern, and what moves out.

The plan for a pattern takes a property or a rest element away if its name counts as unused, or if
it is a pattern of which nothing stays. Both times all names that go away with it count as unused,
and nothing but names goes away: no computed key, no default (`Node.IsSpare`,
`Survey.prunes_planPattern`). What moves out is a property of the pattern itself whose value is a
name in use.

# The induction

It is on how deep the patterns are nested. That a pattern is emptied has to say of every name in it
that it counts as unused, or the property with the pattern could not go away; so the plan for a
pattern is described with three clauses at once (`Survey.Prunes`). Along the entries of one pattern
the same three are kept for the entries so far (`Survey.Planned`): a property stays, though
something inside may go away, or it goes away itself.
-/
namespace Graft

/-- Whether a form names something and does nothing else: it is a word or a string, a pattern of
properties, or an entry of a pattern whose key is not computed. -/
def Form.isNaming : Form → Bool
  | .binding _ | .objectPattern _ | .patternProperty false _ | .rest => true
  | form => form.isBare

theorem Form.isNaming_of_isBare {form : Form} (h : form.isBare = true) : form.isNaming = true := by
  cases form <;> first | exact h | rfl | cases h

namespace Node

/-- Whether all names that a tree introduces count as unused. -/
def IsUnused (v : Survey) (l : Liveness) (t : Node) : Prop :=
  ∀ b ∈ t.bindings, v.isUnusedName l b = true

/-- The pattern that a node of a pattern is about: a property stands for its value. -/
def pattern : Node → Node
  | .node (.patternProperty ..) _ [_, value] => value.pattern
  | n => n
termination_by structural n => n

/-- The pattern that a node is about is a part of the node. -/
theorem pattern_mem_parts (t : Node) : t.pattern ∈ t.parts := by
  induction t with
  | node form span children ih =>
      rw [pattern.eq_def]
      split
      case h_1 isComputed isShorthand own key value heq =>
        cases heq
        exact mem_parts_node.mpr (.inr ⟨value, by simp, ih value (by simp)⟩)
      case h_2 => exact self_mem_parts _

/-- Whether a tree can go away and take nothing along but names that count as unused. -/
structure IsSpare (v : Survey) (l : Liveness) (t : Node) : Prop where
  unused : t.IsUnused v l
  naming : ∀ n ∈ t.parts, n.form.isNaming = true

variable {v : Survey} {l : Liveness}

/-- A word or a string takes nothing along. -/
theorem isSpare_of_isBare {t : Node} (h : t.isBare = true) : t.IsSpare v l where
  unused b hb := by
    rw [bindings_of_isBare h] at hb
    cases hb
  naming n hn := by
    have hbare := isBare_of_mem_parts h hn
    cases n with
    | node form span children =>
        rw [isBare_node, Bool.and_eq_true] at hbare
        exact Form.isNaming_of_isBare hbare.1

/-- A node that names something takes along what its children take along. -/
theorem isSpare_node {form : Form} {span : Span} {children : List Node}
    (hform : form.isNaming = true) (hname : ∀ name, form ≠ .binding name)
    (h : ∀ k ∈ children, k.IsSpare v l) : (node form span children).IsSpare v l where
  unused b hb := by
    obtain ⟨k, hk, hbk⟩ := mem_bindings_node hname hb
    exact (h k hk).unused b hbk
  naming n hn := by
    rcases mem_parts_node.mp hn with rfl | ⟨k, hk, hnk⟩
    · exact hform
    · exact (h k hk).naming n hnk

/-- A property with a plain key is as spare as its value. -/
theorem isSpare_property {isShorthand : Bool} {span : Span} {key value : Node}
    (hw : (node (.patternProperty false isShorthand) span [key, value]).WellPlaced)
    (h : value.IsSpare v l) :
    (node (.patternProperty false isShorthand) span [key, value]).IsSpare v l := by
  cases hw with
  | node fits parts =>
    refine isSpare_node rfl nofun fun k hk => ?_
    rcases List.mem_cons.mp hk with rfl | hk
    · exact isSpare_of_isBare (fits.key rfl k rfl)
    · exact List.mem_singleton.mp hk ▸ h

/-- Only a name that is introduced counts as unused. -/
theorem exists_name_of_isUnusedName {n : Node} (h : v.isUnusedName l n = true) :
    ∃ name, n.form = .binding name := by
  unfold Survey.isUnusedName at h
  split at h
  case h_1 name heq => exact ⟨name, heq⟩
  case h_2 => cases h

/-- A name that counts as unused is all that goes away with it. -/
theorem isSpare_of_isUnusedName {n : Node} (hw : n.WellPlaced)
    (h : v.isUnusedName l n = true) : n.IsSpare v l := by
  obtain ⟨name, hform⟩ := exists_name_of_isUnusedName h
  have hparts : n.parts = [n] := hw.parts_of_isWord (by rw [hform]; rfl)
  refine ⟨fun b hb => ?_, fun m hm => ?_⟩
  · have hb := (List.mem_filter.mp hb).1
    rw [hparts, List.mem_singleton] at hb
    exact hb ▸ h
  · rw [hparts, List.mem_singleton] at hm
    rw [hm, hform]
    rfl

end Node

namespace Survey

open Node

variable {v : Survey} {l : Liveness}

/-- Whether a pattern is reached from a pattern through properties of object patterns alone. -/
inductive Reaches : Node → Node → Prop
  | self (q : Node) : Reaches q q
  | entry {role : PatternRole} {span : Span} {children : List Node} {k q : Node}
      (hk : k ∈ children) (h : Reaches k q) : Reaches (.node (.objectPattern role) span children) q
  | value {isComputed isShorthand : Bool} {span : Span} {key value q : Node}
      (h : Reaches value q) :
      Reaches (.node (.patternProperty isComputed isShorthand) span [key, value]) q

/-- What is reached from a pattern is a part of it. -/
theorem Reaches.mem_parts {t q : Node} (h : Reaches t q) : q ∈ t.parts := by
  induction h with
  | self => exact self_mem_parts _
  | entry hk _ ih => exact mem_parts_of_child hk ih
  | value _ ih => exact mem_parts_of_child (List.mem_cons_of_mem _ List.mem_cons_self) ih

/-- What stands between a pattern and an entry that is reached from it: patterns and properties. -/
theorem Reaches.path {t q entry x : Node} (h : Reaches t q) (ht : t.WellPlaced)
    (hentry : entry ∈ q.children) (hbare : entry.isBare = false) (hx : x ∈ t.parts)
    (hin : entry ∈ x.parts) :
    x = entry ∨ x = q ∨ (∃ role, x.form = .objectPattern role)
      ∨ x.form.isPatternProperty = true := by
  induction h with
  | self q => exact (ht.eq_or_eq_of_child hentry hx hin hbare).imp_right .inl
  | entry hk' h ih =>
      rcases mem_parts_node.mp hx with rfl | ⟨k, hk, hxk⟩
      · exact .inr (.inr (.inl ⟨_, rfl⟩))
      · obtain rfl := ht.child_eq hk hk' (mem_parts_trans hin hxk)
          (mem_parts_trans (child_mem_parts hentry) h.mem_parts) hbare
        exact ih (ht.part (child_mem_parts hk)) hentry hxk
  | @value _ _ _ key value q h ih =>
      rcases mem_parts_node.mp hx with rfl | ⟨k, hk, hxk⟩
      · exact .inr (.inr (.inr rfl))
      · obtain rfl := ht.child_eq hk (List.mem_cons_of_mem key List.mem_cons_self)
          (mem_parts_trans hin hxk) (mem_parts_trans (child_mem_parts hentry) h.mem_parts) hbare
        exact ih (ht.part (child_mem_parts hk)) hentry hxk

/-- An entry that a pattern can do without: a rest element, or a property whose key is not computed
and whose value is a name or a pattern without a default. -/
structure SpareEntry (v : Survey) (l : Liveness) (q entry : Node) : Prop where
  pattern : EditPlan.isPattern q.form = true
  mem : entry ∈ q.children
  kind : entry.form = .rest ∨ (∃ role, q.form = .objectPattern role)
    ∧ ∃ isShorthand span key value,
        entry = .node (.patternProperty false isShorthand) span [key, value]
          ∧ ((∃ name, value.form = .binding name) ∨ ∃ role, value.form = .objectPattern role)
  spare : entry.IsSpare v l

/-- A spare entry holds more than a word. -/
theorem SpareEntry.isBare_eq_false {q entry : Node} (h : SpareEntry v l q entry) :
    entry.isBare = false := by
  rcases h.kind with hrest | ⟨-, isShorthand, span, key, value, rfl, -⟩
  · cases entry with
    | node form span children =>
        rw [isBare_node, show form = .rest from hrest]
        rfl
  · rw [isBare_node]
    rfl

/-- Whether a span is that of an entry that can go away from a pattern of a tree. -/
def IsSpareEntry (v : Survey) (l : Liveness) (t : Node) (s : Span) : Prop :=
  ∃ q entry, Reaches t q ∧ SpareEntry v l q entry ∧ entry.span = s

/-- A property of a pattern that can move out of it: the value is a name in use, and the key is the
name of the method that the value stands for. -/
structure MovableEntry (v : Survey) (l : Liveness) (q entry : Node) (s : PropertySplit) : Prop where
  pattern : ∃ role, q.form = .objectPattern role
  mem : entry ∈ q.children
  kind : ∃ isShorthand key value,
    entry = .node (.patternProperty false isShorthand) s.property [key, value]
      ∧ key.form = .key s.method ∧ (∃ name, value.form = .binding name)
      ∧ v.isUnusedName l value = false

/-- The property says what is planned about it. -/
theorem MovableEntry.split_eq {q q' entry : Node} {s s' : PropertySplit}
    (h : MovableEntry v l q entry s) (h' : MovableEntry v l q' entry s') : s = s' := by
  obtain ⟨_, key, _, rfl, hkey, -⟩ := h.kind
  obtain ⟨_, _, _, heq, hkey', -⟩ := h'.kind
  obtain ⟨-, hspan, hkeys⟩ := Node.node.inj heq
  obtain ⟨rfl, -⟩ := List.cons.inj hkeys
  rw [hkey] at hkey'
  cases s
  cases s'
  cases hspan
  cases hkey'
  rfl

/-- Whether an entry of a plan is about a property that can move out of a pattern. -/
def IsMovableEntry (v : Survey) (l : Liveness) (t : Node) (s : PropertySplit) : Prop :=
  ∃ entry, MovableEntry v l t entry s

/-- What the plan for a pattern may say. -/
structure Prunes (v : Survey) (l : Liveness) (t : Node) (p : PatternPlan) : Prop where
  removed : ∀ s ∈ p.removed, IsSpareEntry v l t s
  splits : ∀ s ∈ p.splits, IsMovableEntry v l t.pattern s
  emptied : p.emptied = true → t.pattern.IsSpare v l

-- ============================================================ rest elements

/-- The rest element that the planner finds is the last entry. -/
theorem getLast?_of_restOf? {children : List Node} {span : Span} {pattern : Node}
    (h : restOf? children = some (span, pattern)) :
    children.getLast? = some (.node .rest span [pattern]) := by
  unfold restOf? at h
  split at h
  case h_1 heq =>
    cases h
    exact heq
  case h_2 => cases h

/-- A rest element at the end is the one that the planner finds. -/
theorem restOf?_of_getLast? {children : List Node} {span : Span} {pattern : Node}
    (h : children.getLast? = some (.node .rest span [pattern])) :
    restOf? children = some (span, pattern) := by
  unfold restOf?
  rw [h]

/-- A rest element that nothing uses. -/
theorem unusedRest_cases {children : List Node} {s : Span}
    (h : s ∈ v.unusedRest l children) :
    ∃ pattern, children.getLast? = some (.node .rest s [pattern])
      ∧ v.isUnusedName l pattern = true := by
  unfold unusedRest at h
  split at h
  case h_1 span pattern heq =>
    split at h
    case isTrue hunused =>
      obtain rfl := List.mem_singleton.mp h
      exact ⟨pattern, getLast?_of_restOf? heq, hunused⟩
    case isFalse => cases h
  case h_2 => cases h

/-- A rest element with an unused name is spare. -/
theorem isSpare_rest {s : Span} {pattern : Node}
    (hw : (node .rest s [pattern]).WellPlaced) (h : v.isUnusedName l pattern = true) :
    (node .rest s [pattern]).IsSpare v l := by
  cases hw with
  | node fits parts =>
    refine isSpare_node rfl nofun fun k hk => ?_
    obtain rfl := List.mem_singleton.mp hk
    exact isSpare_of_isUnusedName (parts k hk) h

/-- An unused rest element of a pattern can go away. -/
theorem isSpareEntry_of_unusedRest {form : Form} {span : Span} {children : List Node} {s : Span}
    (hform : EditPlan.isPattern form = true) (parts : ∀ k ∈ children, k.WellPlaced)
    (h : s ∈ v.unusedRest l children) : IsSpareEntry v l (.node form span children) s := by
  obtain ⟨pattern, hlast, hunused⟩ := unusedRest_cases h
  have hmem := List.mem_of_getLast? hlast
  exact ⟨_, _, .self _,
    { pattern := hform, mem := hmem, kind := .inl rfl, spare := isSpare_rest (parts _ hmem) hunused },
    rfl⟩

-- ============================================================ properties

/-- What the plan for an object pattern has come to after some of its children. -/
structure Planned (v : Survey) (l : Liveness) (keepsAll : Bool) (t : Node) (done : List Node)
    (p : PatternPlan) : Prop where
  removed : ∀ s ∈ p.removed, IsSpareEntry v l t s
  splits : ∀ s ∈ p.splits, IsMovableEntry v l t s
  emptied : p.emptied = true → keepsAll = false
    ∧ ∀ k ∈ done, k.form ≠ .rest → k.IsSpare v l

section

variable {keepsAll : Bool} {t k : Node} {done : List Node} {p : PatternPlan}
variable {notices : List EditNotice}

/-- A property that stays, though something inside may go away, or that moves out. -/
theorem Planned.stays (removed : List Span) (splits : List PropertySplit)
    (hremoved : ∀ s ∈ removed, IsSpareEntry v l t s)
    (hsplits : ∀ s ∈ splits, IsMovableEntry v l t s) (h : Planned v l keepsAll t done p) :
    Planned v l keepsAll t (done ++ [k])
      ⟨p.removed ++ removed, p.splits ++ splits, notices, false⟩ where
  removed s hs := (List.mem_append.mp hs).elim (h.removed s) (hremoved s)
  splits s hs := (List.mem_append.mp hs).elim (h.splits s) (hsplits s)
  emptied := nofun

/-- A property that goes away, or may as well. -/
theorem Planned.goes (removed : List Span) (hremoved : ∀ s ∈ removed, IsSpareEntry v l t s)
    (h : Planned v l keepsAll t done p) (hk : k.form ≠ .rest → k.IsSpare v l) :
    Planned v l keepsAll t (done ++ [k])
      ⟨p.removed ++ removed, p.splits, notices, p.emptied⟩ where
  removed s hs := (List.mem_append.mp hs).elim (h.removed s) (hremoved s)
  splits := h.splits
  emptied he := by
    obtain ⟨hall, hdone⟩ := h.emptied he
    refine ⟨hall, fun k' hk' hrest => ?_⟩
    rcases List.mem_append.mp hk' with hk' | hk'
    · exact hdone k' hk' hrest
    · obtain rfl := List.mem_singleton.mp hk'
      exact hk hrest

end

/-- One child of an object pattern. -/
theorem Planned.property {keepsAll : Bool} {role : PatternRole} {span : Span}
    {children done : List Node} {p inner : PatternPlan} {k : Node}
    (h : Planned v l keepsAll (.node (.objectPattern role) span children) done p)
    (hk : k ∈ children) (hw : k.WellPlaced)
    (hform : k.form.isPatternProperty = true ∨ k.form = .rest) (hinner : Prunes v l k inner) :
    Planned v l keepsAll (.node (.objectPattern role) span children) (done ++ [k])
      (v.planProperty l keepsAll p k inner) := by
  cases hw with
  | @node form own ks fits parts =>
  cases form with
  | rest => simpa [planProperty] using h.goes [] nofun fun hrest => absurd rfl hrest
  | patternProperty isComputed isShorthand =>
      obtain ⟨key, value, rfl⟩ := fits.shape
      cases isComputed with
      | true => simpa [planProperty] using h.stays [] [] nofun nofun
      | false =>
          have hproperty := isSpare_property (v := v) (l := l) (WellPlaced.node fits parts)
          have hvalue : value.WellPlaced := parts value (by simp)
          -- the property itself as an entry that goes away
          have hentry : ((∃ name, value.form = .binding name)
                ∨ ∃ role, value.form = .objectPattern role) → value.IsSpare v l →
              IsSpareEntry v l (.node (.objectPattern role) span children) own := by
            intro hkind hspare
            exact ⟨_, _, .self _,
              { pattern := rfl
                mem := hk
                kind := .inr ⟨⟨role, rfl⟩, isShorthand, own, key, value, rfl, hkind⟩
                spare := hproperty hspare }, rfl⟩
          simp only [planProperty]
          split
          case h_1 name heq =>
            split
            case isTrue hkeeps =>
              subst hkeeps
              refine ⟨h.removed, h.splits, fun he => ?_⟩
              cases (h.emptied he).1
            case isFalse =>
              split
              case isTrue hunused =>
                have hspare := isSpare_of_isUnusedName hvalue hunused
                exact h.goes [own] (fun s hs => List.mem_singleton.mp hs ▸
                  hentry (.inl ⟨name, heq⟩) hspare) fun _ => hproperty hspare
              case isFalse hused =>
                split
                case h_1 method hkey =>
                  have hsplits : ∀ s ∈ (if v.config.host.isBindable method then
                        [(⟨own, method⟩ : PropertySplit)] else []),
                      IsMovableEntry v l (.node (.objectPattern role) span children) s := by
                    intro s hs
                    split at hs
                    · obtain rfl := List.mem_singleton.mp hs
                      exact ⟨_, ⟨role, rfl⟩, hk, isShorthand, key, value, rfl, hkey,
                        ⟨name, heq⟩, eq_false_of_ne_true hused⟩
                    · cases hs
                  simpa using h.stays [] _ nofun hsplits
                case h_2 =>
                  simpa using h.stays [] [] nofun nofun
          case h_2 role' heq =>
            have hremoved : ∀ s ∈ inner.removed,
                IsSpareEntry v l (.node (.objectPattern role) span children) s := by
              intro s hs
              obtain ⟨q, entry, hreaches, hspare, hspan⟩ := hinner.removed s hs
              exact ⟨q, entry, .entry hk hreaches, hspare, hspan⟩
            split
            case isTrue hempty =>
              simp only [Bool.and_eq_true] at hempty
              have hpattern : value.pattern = value := by
                cases value with
                | node vform vspan vchildren =>
                    obtain rfl : vform = .objectPattern role' := heq
                    rfl
              have hspare : value.IsSpare v l := hpattern ▸ hinner.emptied hempty.1
              rw [List.append_assoc]
              refine h.goes _ (fun s hs => ?_) fun _ => hproperty hspare
              rcases List.mem_append.mp hs with hs | hs
              · exact hremoved s hs
              · exact List.mem_singleton.mp hs ▸ hentry (.inr ⟨role', heq⟩) hspare
            case isFalse => simpa using h.stays _ [] hremoved nofun
          case h_3 role' heq =>
            have hremoved : ∀ s ∈ v.unusedRest l value.children,
                IsSpareEntry v l (.node (.objectPattern role) span children) s := by
              intro s hs
              cases value with
              | node vform vspan vchildren =>
                  obtain rfl : vform = .arrayPattern role' := heq
                  cases hvalue with
                  | node _ vparts =>
                    have hrest : IsSpareEntry v l (.node (.arrayPattern role') vspan vchildren) s :=
                      isSpareEntry_of_unusedRest rfl vparts hs
                    obtain ⟨q, entry, hreaches, hspare, hspan⟩ := hrest
                    exact ⟨q, entry, .entry hk (.value hreaches), hspare, hspan⟩
            simpa using h.stays _ [] hremoved nofun
          case h_4 => simpa using h.stays [] [] nofun nofun
  | _ => rcases hform with hform | hform <;> cases hform

-- ============================================================ patterns

/-- Whether a rest element in use needs every property to stay. -/
def keepsAll (v : Survey) (l : Liveness) (children : List Node) : Bool :=
  (restOf? children).isSome && (v.unusedRest l children).isEmpty

/-- The plan for an object pattern goes through the entries in order, starting with the rest
element. -/
theorem planPattern_object (role : PatternRole) (span : Span) (children : List Node) :
    v.planPattern l (.node (.objectPattern role) span children)
      = (children.map fun k => (k, v.planPattern l k)).foldl
          (fun p c => v.planProperty l (v.keepsAll l children) p c.1 c.2)
          { removed := v.unusedRest l children, emptied := !v.keepsAll l children } := by
  have hnodes : (children.map fun k => (k, v.planPattern l k)).map Prod.fst = children := by
    simp [Function.comp_def]
  rw [planPattern, fold_node]
  show v.planObject l (children.map fun k => (k, v.planPattern l k)) = _
  rw [planObject, hnodes]
  rfl

/-- A rest element does not keep the other entries if nothing uses it. -/
theorem isSpare_of_keepsAll {children : List Node} {k : Node} (hw : k.WellPlaced)
    (hlast : children.getLast? = some k) (hrest : k.form = .rest)
    (h : v.keepsAll l children = false) : k.IsSpare v l := by
  cases hw with
  | @node form span ks fits parts =>
    obtain rfl : form = .rest := hrest
    obtain ⟨pattern, rfl⟩ := fits.shape
    have hsome := restOf?_of_getLast? hlast
    rw [keepsAll, hsome, unusedRest, hsome] at h
    refine isSpare_rest (.node fits parts) ?_
    by_cases hunused : v.isUnusedName l pattern = true
    · exact hunused
    · simp [hunused] at h

/-- Of an array pattern the planner gives up a rest element at most. -/
theorem planPattern_array (role : PatternRole) (span : Span) (children : List Node) :
    v.planPattern l (.node (.arrayPattern role) span children)
      = { removed := v.unusedRest l children } := by
  rw [planPattern, fold_node]
  simp [Function.comp_def]

/-- A property says what its value says. -/
theorem planPattern_property (isComputed isShorthand : Bool) (span : Span) (key value : Node) :
    v.planPattern l (.node (.patternProperty isComputed isShorthand) span [key, value])
      = v.planPattern l value := by
  rw [planPattern, fold_node]
  rfl

/-- An entry stands last or before. -/
theorem mem_dropLast_or_getLast? {k : Node} {ks : List Node} (h : k ∈ ks) :
    k ∈ ks.dropLast ∨ k ∈ ks.getLast? := by
  cases hlast : ks.getLast? with
  | none =>
      rw [List.getLast?_eq_none_iff.mp hlast] at h
      cases h
  | some last =>
      rw [List.getLast?_eq_some_iff] at hlast
      obtain ⟨front, rfl⟩ := hlast
      rcases List.mem_append.mp h with h | h
      · exact .inl (by simpa using h)
      · exact .inr (List.mem_singleton.mp h ▸ rfl)

/-- All children of an object pattern. -/
theorem planned_all {keepsAll : Bool} {role : PatternRole} {span : Span} {children : List Node}
    (hw : ∀ k ∈ children, k.WellPlaced)
    (hform : ∀ k ∈ children, k.form.isPatternProperty = true ∨ k.form = .rest)
    (hinner : ∀ k ∈ children, Prunes v l k (v.planPattern l k)) {ks done : List Node}
    {p : PatternPlan} (hks : ∀ k ∈ ks, k ∈ children)
    (h : Planned v l keepsAll (.node (.objectPattern role) span children) done p) :
    Planned v l keepsAll (.node (.objectPattern role) span children) (done ++ ks)
      ((ks.map fun k => (k, v.planPattern l k)).foldl
        (fun p c => v.planProperty l keepsAll p c.1 c.2) p) := by
  induction ks generalizing done p with
  | nil => simpa using h
  | cons k ks ih =>
      have hk := hks k List.mem_cons_self
      have hnext := h.property hk (hw k hk) (hform k hk) (hinner k hk)
      rw [List.append_cons]
      exact ih (fun k' hk' => hks k' (List.mem_cons_of_mem _ hk')) hnext

/-- The plan for a pattern takes away only what introduces unused names. -/
theorem prunes_planPattern (v : Survey) (l : Liveness) {t : Node} (ht : t.WellPlaced) :
    Prunes v l t (v.planPattern l t) := by
  induction t with
  | node form span children ih =>
      have hnothing : Prunes v l (.node form span children) {} := ⟨nofun, nofun, nofun⟩
      cases ht with
      | node fits parts =>
      cases form with
      | objectPattern role =>
          have hform : ∀ k ∈ children, k.form.isPatternProperty = true ∨ k.form = .rest := by
            intro k hk
            rcases mem_dropLast_or_getLast? hk with h | h
            · exact .inl (fits.shape.1 k h)
            · exact fits.shape.2 k h
          have hall : Planned v l (v.keepsAll l children)
              (.node (.objectPattern role) span children) ([] ++ children)
              (v.planPattern l (.node (.objectPattern role) span children)) := by
            rw [planPattern_object]
            refine planned_all parts hform (fun k hk => ih k hk (parts k hk)) (fun _ h => h) ?_
            exact ⟨fun s hs => isSpareEntry_of_unusedRest rfl parts hs, nofun,
              fun he => ⟨by simpa using he, nofun⟩⟩
          refine ⟨hall.removed, hall.splits, fun he => ?_⟩
          obtain ⟨hkeeps, hspare⟩ := hall.emptied he
          refine isSpare_node rfl nofun fun k hk => ?_
          by_cases hrest : k.form = .rest
          · -- a rest element is in the way of emptying the pattern, unless it goes away itself
            have hlast : children.getLast? = some k := by
              rcases mem_dropLast_or_getLast? hk with h | h
              · have hproperty := fits.shape.1 k h
                rw [hrest] at hproperty
                cases hproperty
              · exact h
            exact isSpare_of_keepsAll (parts k hk) hlast hrest hkeeps
          · exact hspare k hk hrest
      | arrayPattern role =>
          rw [planPattern_array]
          exact ⟨fun s hs => isSpareEntry_of_unusedRest rfl parts hs, nofun, nofun⟩
      | patternProperty isComputed isShorthand =>
          obtain ⟨key, value, rfl⟩ := fits.shape
          have hvalue := ih value (by simp) (parts value (by simp))
          rw [planPattern_property]
          refine ⟨fun s hs => ?_, hvalue.splits, hvalue.emptied⟩
          obtain ⟨q, entry, hreaches, hspare, hspan⟩ := hvalue.removed s hs
          exact ⟨q, entry, .value hreaches, hspare, hspan⟩
      | _ => exact hnothing

end Survey

-- ============================================================ the plan of a program

namespace EditPlan

open Node

variable {v : Survey} {l : Liveness} {tree : Node} {p : EditPlan}

theorem rank_of_isPattern {form : Form} (h : isPattern form = true) : form.rank = 1 := by
  cases form <;> first | rfl | cases h

/-- What the plan takes out of a pattern introduces unused names only. -/
theorem GroundedIn.isUnused (hp : GroundedIn v l tree p) (ht : tree.WellPlaced) {q entry : Node}
    (hq : q ∈ tree.parts) (hform : isPattern q.form = true) (hentry : entry ∈ q.children)
    (hbare : entry.isBare = false) (h : entry.span ∈ p.removedPatterns) :
    entry.IsUnused v l := by
  obtain ⟨span, pattern, value, hdeclarator, -, hremoved⟩ := hp.patterns _ h
  have hpattern : pattern ∈ tree.parts :=
    mem_parts_trans (child_mem_parts List.mem_cons_self) hdeclarator
  obtain ⟨q', entry', hreaches, hspare, hspan⟩ :=
    (Survey.prunes_planPattern v l (ht.part hpattern)).removed _ hremoved
  exact ht.child_eq_of_span_eq (mem_parts_trans hreaches.mem_parts hpattern) hq
    (rank_of_isPattern hspare.pattern) (rank_of_isPattern hform) hspare.mem hentry
    hspare.isBare_eq_false hbare hspan ▸ hspare.spare.unused

/-- What the plan moves out of a pattern has a key that is not computed. -/
theorem GroundedIn.isKeyed (hp : GroundedIn v l tree p) (ht : tree.WellPlaced) {q entry : Node}
    (hq : q ∈ tree.parts) (hform : isPattern q.form = true) (hentry : entry ∈ q.children)
    (hbare : entry.isBare = false) {e : Span × List PropertySplit} (he : e ∈ p.splits)
    {s : PropertySplit} (hs : s ∈ e.2) (hspan : s.property = entry.span) :
    ∃ isShorthand, entry.form = .patternProperty false isShorthand := by
  obtain ⟨pattern, value, hdeclarator, -, -, heq⟩ := hp.splits e he
  have hpattern : pattern ∈ tree.parts :=
    mem_parts_trans (child_mem_parts List.mem_cons_self) hdeclarator
  obtain ⟨entry', ⟨role, hrole⟩, hentry', ⟨isShorthand, key, value', rfl, -⟩⟩ :=
    (Survey.prunes_planPattern v l (ht.part hpattern)).splits s (heq ▸ hs)
  have hq' : pattern.pattern ∈ tree.parts := mem_parts_trans pattern.pattern_mem_parts hpattern
  rw [← ht.child_eq_of_span_eq hq' hq (by rw [hrole]; rfl) (rank_of_isPattern hform) hentry'
    hentry (isBare_node ..) hbare hspan]
  exact ⟨isShorthand, rfl⟩

end EditPlan

end Graft
