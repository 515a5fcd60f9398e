import Graft.Grammar.Pattern
import Graft.Proofs.Grammar.Ends
/-!
Patterns stand where they were read.

There is one theorem for each reader, in the order of the readers.

# Patterns that introduce names

They are read as they stand (`bindingPattern_reads`). A property of such a pattern may be a name
that is key and value in one place; of these two words only the value is asked for its place.

# Patterns that assign

These are read as values first, and become patterns once an operator that assigns shows up behind
them. The conversion keeps every node in its place (`Converts`): an array or an object becomes a
pattern over the same text, a spread the element that takes the rest, an assignment a default
(`asElement?_converts`, by induction on the value). So what is assigned to stands where it was read
(`asTarget?_stands`).
-/
namespace Graft

/-- What the rules of the grammar give. -/
structure Rules.Sound (r : Rules) : Prop where
  assignment : ∀ (s : Setting) {c : Cursor}, c.Sound →
    Parse.Ends (r.assignment s) c (Parse.Reads Parse.IsValue c)
  binary : ∀ (s : Setting) (least : Precedence) {c : Cursor}, c.Sound →
    Parse.Ends (r.binary s least) c (Parse.Reads Parse.IsValue c)
  unary : ∀ (s : Setting) {c : Cursor}, c.Sound →
    Parse.Ends (r.unary s) c (Parse.Reads Parse.IsValue c)
  postfixed : ∀ (s : Setting) {c : Cursor}, c.Sound →
    Parse.Ends (r.postfixed s) c (Parse.Reads Parse.IsValue c)
  primary : ∀ (s : Setting) {c : Cursor}, c.Sound →
    Parse.Ends (r.primary s) c (Parse.Reads Parse.IsValue c)
  pattern : ∀ (s : Setting) {c : Cursor}, c.Sound →
    Parse.Ends (r.pattern s) c (Parse.Reads Parse.IsPattern c)
  statement : ∀ (s : Setting) (place : StatementPlace) {c : Cursor}, c.Sound →
    Parse.Ends (r.statement s place) c (Parse.Reads (Parse.IsPart 4) c)

namespace Parse

variable {r : Rules} {s : Setting} {c : Cursor}

-- ================================================================ keys

/-- What a reader of a key gives: a value if the key is computed, and else a word or a string; a
name that is shown is the key itself. -/
structure ReadsKey (c : Cursor) (key : Node × Bool) (c' : Cursor) : Prop where
  reads : Reads IsValue c key.1 c'
  bare : key.2 = false → key.1.isBare = true
  word : ∀ text escaped, c.lexeme = .name text escaped →
    ∃ span, key.1 = .node (.key text) span []

/-- A token that is a key by itself is read as one. -/
theorem leaf_readsKey {form : Form} (hc : c.Sound) (hl : c.lexeme ≠ .finish)
    (hform : isUpTo 2 form = true) (hbare : form.isBare = true)
    (hword : ∀ text escaped, c.lexeme = .name text escaped → form = .key text) :
    Ends (leaf form >>= fun key => pure (key, false)) c (ReadsKey c) := by
  have hw : ∀ span, Node.WellPlaced (.node form span []) := by
    refine fun span => Node.wellPlaced_leaf ?_
    cases form <;> first | rfl | cases hbare
  refine (leaf_ends (Q := fun key c' => ReadsKey c (key, false) c') hc hl ?_).bind
    fun _ _ h => ends_pure h
  intro c' hb
  refine ⟨⟨hb, stands_node (hw _) (Nat.le_refl _) hb.past ⟨isPart_node hform, ?_⟩⟩, ?_, ?_⟩
  · refine Node.isClosed_of_all ?_ fun _ h => absurd h List.not_mem_nil
    rintro name rfl
    cases hbare
  · intro _
    simp [Node.isBare, Node.fold_node, hbare]
  · intro text escaped hl
    exact ⟨_, by rw [hword text escaped hl]⟩

/-- A key of a property is a word, a text, a number, or a value between brackets. -/
theorem propertyKey_reads (hr : r.Sound) (hc : c.Sound) :
    Ends (propertyKey r s) c (ReadsKey c) := by
  unfold propertyKey
  refine ends_peek ?_
  split
  case h_1 value raw hl =>
    exact leaf_readsKey hc (by simp [hl]) rfl rfl (by simp [hl])
  case h_2 value hl =>
    exact leaf_readsKey hc (by simp [hl]) rfl rfl (by simp [hl])
  case h_3 value hl =>
    exact leaf_readsKey hc (by simp [hl]) rfl rfl (by simp [hl])
  case h_4 hl =>
    refine (next_ends hc (by simp [hl])).bind fun _ c₁ h₁ => ?_
    refine (hr.assignment _ h₁.sound).bind fun key c₂ h₂ => ?_
    refine (mark_ends _ h₂.beyond.sound).bind fun _ c₃ h₃ => ends_pure ?_
    have hb := (h₁.then (h₂.beyond.onward h₁.sound)).then (h₃.onward h₂.beyond.sound)
    have hlo := h₁.sound.gap
    have hpast := h₁.past
    have hstop := (h₃.onward h₂.beyond.sound).past
    exact ⟨⟨hb, h₂.stands.mono (by omega) hstop⟩, fun h => (by cases h), by simp [hl]⟩
  case h_5 lexeme hstring hnumber hbigint hmark =>
    split
    case h_1 name hname =>
      refine leaf_readsKey hc ?_ rfl rfl ?_
      · intro hl
        simp [hl, wordAsKey] at hname
      · intro text escaped hl
        obtain rfl : text = name := by simpa [hl, wordAsKey] using hname
        rfl
    case h_2 => exact ends_failure

-- ============================================================== patterns

/-- A name that is introduced. -/
structure IsName (n : Node) : Prop extends IsPattern n where
  word : n.form.isWord = true

instance : Free IsName := ⟨fun _ h => free_of_rank (by decide) h.rank⟩

/-- A name that is introduced is read as one. -/
theorem bindingName_reads (hc : c.Sound) : Ends (bindingName s) c (Reads IsName c) := by
  unfold bindingName
  refine ends_peek ?_
  split
  case h_1 text escaped hl =>
    refine ends_ite (fun _ => ?_) fun _ => ends_failure
    refine leaf_ends hc (by simp [hl]) fun c' hb => ⟨hb, stands_node ?_ (Nat.le_refl _) hb.past
      ⟨⟨isPart_node rfl, rfl⟩, rfl⟩⟩
    exact Node.wellPlaced_leaf rfl
  case h_2 => exact ends_failure

/-- A node that assigns to its first child. -/
theorem suits_assigning {form : Form} {target : Node} {others : List Node}
    (hform : form.isAssigning = true) (htargets : form.targets (target :: others) = [target])
    (h : target.form.takesValue = true) : Node.Suits form (target :: others) :=
  Node.suits_of_isAssigning hform fun _ hk => List.mem_singleton.mp (htargets ▸ hk) ▸ h

/-- A pattern is read with its default or without. -/
theorem patternWithDefault_reads (hr : r.Sound) (hc : c.Sound) :
    Ends (patternWithDefault r s) c (Reads IsPattern c) := by
  unfold patternWithDefault
  refine ends_position ((hr.pattern s hc).bind fun pattern c₁ h₁ => ?_)
  refine ends_ifEaten (eatMark_ends _ h₁.beyond.sound) (fun c₂ h₂ => ?_) (ends_pure h₁)
  refine (hr.assignment _ h₂.sound).bind fun value c₃ h₃ => ?_
  exact node_first h₁ h₁.stands.kind.present h₂ (h₃.all h₂.sound) h₃.beyond.sound.onward rfl
    (suits_assigning rfl rfl h₁.stands.kind.takes) fun _ => ⟨isPart_node rfl, rfl⟩

/-- A property whose value starts where its key stands. -/
theorem wellPlaced_shorthand {key value : Node} {span : Span} {lo hi : Nat}
    (hkey : key.isBare = true) (hw : key.WellPlaced) (hvalue : Node.Laid lo hi [value])
    (hrank : value.form.rank ≤ 2) (htakes : value.form.takesValue = true) (hlo : span.start ≤ lo)
    (hhi : hi ≤ span.stop) :
    Node.WellPlaced (.node (.patternProperty false true) span [key, value]) := by
  refine hvalue.wellPlaced_aside (fun h => by cases h)
    (Node.suits_patternProperty (fun _ => hkey) htakes) ?_ hlo hhi ?_ ?_
  · exact fun k hk => List.mem_singleton.mp hk ▸ free_of_rank (by decide) hrank
  · exact fun k hk _ _ => List.mem_singleton.mp hk ▸ Nat.lt_succ_of_le hrank
  · exact fun k hk => List.mem_singleton.mp hk ▸ ⟨hkey, hw⟩

/-- A property of a pattern, or the rest. -/
structure IsPatternEntry (n : Node) : Prop extends IsPart 3 n where
  kind : n.form.isPatternProperty = true ∨ n.form = .rest

instance : Free IsPatternEntry := ⟨fun _ h => free_of_rank (by decide) h.rank⟩

/-- A property of a pattern is a key and a pattern, or a name that is both. -/
theorem patternProperty_reads (hr : r.Sound) (hc : c.Sound) :
    Ends (patternProperty r s) c (Reads IsPatternEntry c) := by
  unfold patternProperty
  refine ends_position (ends_ifEaten (eatMark_ends _ hc) (fun c₁ h₁ => ?_) ?_)
  · -- `...name`
    refine (bindingName_reads h₁.sound).bind fun name c₂ h₂ => ?_
    exact node_after h₁ (h₂.all h₁.sound) h₂.beyond.sound.onward rfl
      (Node.suits_rest h₂.stands.kind.takes) fun _ => ⟨isPart_node rfl, .inr rfl⟩
  · -- a key, and then either a colon with a pattern or the shorthand's own name
    refine ends_atName ((propertyKey_reads hr hc).bind fun key c₁ h₁ => ?_)
    obtain ⟨key, computed⟩ := key
    obtain ⟨hreads, hbare, hword⟩ := h₁
    refine ends_ifEaten (eatMark_ends _ hreads.beyond.sound) (fun c₂ h₂ => ?_) ?_
    · refine (patternWithDefault_reads hr h₂.sound).bind fun value c₃ h₃ => ?_
      exact node_first hreads hreads.stands.kind.present h₂ (h₃.all h₂.sound)
        h₃.beyond.sound.onward rfl (Node.suits_patternProperty hbare h₃.stands.kind.takes)
        fun _ => ⟨isPart_node rfl, .inl rfl⟩
    · dsimp only
      split
      -- a shorthand: the name read as a key must be one that can be bound
      case h_1 name span ks =>
        refine ends_unless fun hnamed => ?_
        have hshown : c.lexeme.isUsable s = true := by simpa using hnamed
        obtain ⟨text, escaped, hl⟩ := Lexeme.exists_name_of_isUsable hshown
        obtain ⟨_, hkey⟩ := hword text escaped hl
        cases hkey
        have hbinding : Reads IsPattern c (.node (.binding name) span []) c₁ :=
          ⟨hreads.beyond, hreads.stands.laid.replace rfl rfl (Node.wellPlaced_leaf
            rfl), isPart_node rfl, rfl⟩
        -- key and value share the place of the name, so the entry is well placed as a shorthand
        have hplaced : ∀ {value : Node} {c' : Cursor}, Reads IsPattern c value c' →
            Reads IsPatternEntry c (.node (.patternProperty false true)
              ⟨c.here.offset, c'.previousStop⟩ [.node (.key name) span [], value]) c' := by
          intro value c' h
          refine ⟨h.beyond, stands_node ?_ (Nat.le_refl _) h.beyond.past
            ⟨isPart_node rfl, .inl rfl⟩⟩
          exact wellPlaced_shorthand rfl (Node.wellPlaced_leaf rfl)
            h.stands.laid h.stands.kind.rank h.stands.kind.takes (Nat.le_refl _) (Nat.le_refl _)
        -- with a default the value is the assignment pattern, and it still starts at the name
        refine ends_ifEaten (eatMark_ends _ hreads.beyond.sound) (fun c₂ h₂ => ?_)
          (node_ends (hplaced hbinding))
        refine (hr.assignment _ h₂.sound).bind fun value c₃ h₃ => ?_
        refine (node_first (K := IsPattern) hbinding rfl h₂ (h₃.all h₂.sound)
          h₃.beyond.sound.onward rfl (suits_assigning rfl rfl rfl)
          fun _ => ⟨isPart_node rfl, rfl⟩).bind ?_
        exact fun defaulted c₄ h₄ => node_ends (hplaced h₄)
      case h_2 => exact ends_failure

/-- An element of a pattern may be left out. -/
theorem patternElement_readsAll (hr : r.Sound) (hc : c.Sound) :
    Ends (patternElement r s) c fun n c' => ReadsAll IsElement c [n] c' := by
  unfold patternElement
  have hpart : ∀ {n c'}, Reads IsPattern c n c' → ReadsAll IsElement c [n] c' :=
    fun h => (h.all hc).imp fun n hn => ⟨Nat.le_trans hn.rank (Nat.le_succ 2), hn.takes⟩
  refine ends_position (ends_atMark (ends_ite (fun _ => ?_) fun _ => ?_))
  · exact ends_pure (readsAll_absent hc ⟨Nat.zero_le 3, rfl⟩)
  · refine ends_ifEaten (eatMark_ends _ hc) (fun c₁ h₁ => ?_) ?_
    · refine (hr.pattern s h₁.sound).bind fun pattern c₂ h₂ => ?_
      refine (node_after h₁ (h₂.all h₁.sound) h₂.beyond.sound.onward rfl
        (Node.suits_rest h₂.stands.kind.takes) fun _ => ⟨isPart_node rfl, rfl⟩).mono
        fun _ _ h => hpart h
    · exact (patternWithDefault_reads hr hc).mono fun _ _ h => hpart h

/-- The entries of an object pattern whose rest, if it has one, comes last. -/
theorem hasShape_of_restIsLast {role : PatternRole} {ns : List Node} {comma : Bool}
    (hlast : restIsLast ns comma = true) (hns : ∀ n ∈ ns, IsPatternEntry n) :
    Node.HasShape (.objectPattern role) ns := by
  induction ns with
  | nil => exact ⟨nofun, nofun⟩
  | cons n ns ih =>
      cases ns with
      | nil => exact ⟨nofun, fun k hk => (hns k (by simpa using hk.symm)).kind⟩
      | cons m ns =>
          simp only [restIsLast, Bool.and_eq_true, bne_iff_ne] at hlast
          obtain ⟨hinit, hend⟩ := ih hlast.2 fun k hk => hns k (List.mem_cons_of_mem _ hk)
          refine ⟨fun k hk => ?_, hend⟩
          rcases List.mem_cons.mp hk with rfl | hk
          · exact (hns k List.mem_cons_self).kind.resolve_right hlast.1
          · exact hinit k hk

/-- A pattern is read as something that takes a value. -/
theorem bindingPattern_reads (hr : r.Sound) (hc : c.Sound) :
    Ends (bindingPattern r s) c (Reads IsPattern c) := by
  unfold bindingPattern
  refine ends_position (ends_ifEaten (eatMark_ends _ hc) (fun c₁ h₁ => ?_) ?_)
  · refine (listed_readsAll (fun hc => (patternProperty_reads hr hc).mono
      fun _ _ h => h.all hc) r.fuel h₁.sound).bind fun properties c₂ h₂ => ?_
    refine ends_unless fun hlast => (mark_ends _ h₂.onward.sound).bind fun _ c₃ h₃ => ?_
    exact node_after h₁ h₂ (h₃.onward h₂.onward.sound) rfl
      (Node.suits_of_entries rfl (fun n hn => (h₂.kinds n hn).rank) nofun
        (hasShape_of_restIsLast (by simpa using hlast) h₂.kinds)) fun _ => ⟨isPart_node rfl, rfl⟩
  · refine ends_ifEaten (eatMark_ends _ hc) (fun c₁ h₁ => ?_)
      ((bindingName_reads hc).mono fun _ _ h => h.imp fun hn => hn.toIsPattern)
    refine (listed_readsAll (patternElement_readsAll hr) r.fuel h₁.sound).bind
      fun elements c₂ h₂ => ?_
    refine ends_unless fun _ => (mark_ends _ h₂.onward.sound).bind fun _ c₃ h₃ => ?_
    exact node_after h₁ h₂ (h₃.onward h₂.onward.sound) rfl
      (Node.suits_of_entries rfl (fun n hn => (h₂.kinds n hn).rank)
        (fun n hn => (h₂.kinds n hn).takes) trivial) fun _ => ⟨isPart_node rfl, rfl⟩

/-- A parameter is read as one child of the parameters. -/
theorem parameter_reads (hr : r.Sound) (hc : c.Sound) :
    Ends (parameter r s) c (Reads (IsPart 2) c) := by
  unfold parameter
  refine ends_position (ends_ifEaten (eatMark_ends _ hc) (fun c₁ h₁ => ?_) ?_)
  · refine (hr.pattern s h₁.sound).bind fun pattern c₂ h₂ => ?_
    exact node_after h₁ (h₂.all h₁.sound) h₂.beyond.sound.onward rfl
      (Node.suits_rest h₂.stands.kind.takes) fun _ => isPart_node rfl
  · exact (patternWithDefault_reads hr hc).mono fun _ _ h => h.imp fun hn => hn.toIsPart

/-- Parameters are read between their parentheses, with what takes the rest at the end. -/
theorem parameters_reads (hr : r.Sound) (hc : c.Sound) :
    Ends (parameters r s) c (Reads (IsPart 3) c) := by
  unfold parameters
  refine ends_position ((mark_ends _ hc).bind fun _ c₁ h₁ => ?_)
  refine (listed_readsAll (fun hc => (parameter_reads hr hc).mono fun _ _ h => h.all hc) r.fuel
    h₁.sound).bind fun items c₂ h₂ => ?_
  refine ends_unless fun _ => (mark_ends _ h₂.onward.sound).bind fun _ c₃ h₃ => ?_
  exact node_after h₁ h₂ (h₃.onward h₂.onward.sound) rfl (suits rfl) fun _ => isPart_node rfl

end Parse

-- ============================================== patterns that assign

namespace Node

/-- What becomes of a value that is assigned to. -/
structure Converts (n t : Node) : Prop where
  span : t.span = n.span
  wellPlaced : t.WellPlaced
  closed : t.isClosed = true
  present : t.isAbsent = false
  rank : t.form.rank ≤ max 2 n.form.rank
  /-- A name or an access has become a place. -/
  takes : t.form.takesValue = true

/-- What is no declarator becomes none. -/
theorem Converts.free {n t : Node} (h : n.Converts t) (hn : n.form.rank < Form.rank .declarator) :
    t.form.rank < Form.rank .declarator :=
  Nat.lt_of_le_of_lt h.rank (Nat.max_lt.mpr ⟨by decide, hn⟩)

theorem place_of_converts {n t : Node} (h : n.Converts t) (hp : n.isAbsent = false) :
    t.place = n.place := by
  rw [place, place, h.span, h.present, hp]

/-- The elements of a literal are converted one by one, and missing ones stay. -/
theorem targetElements_eq_some {convert : Node → Option Node} {P : Node → Prop}
    {ks ts : List Node} (h : targetElements (ks.map fun k => (k, convert k)) = some ts)
    (hP : ∀ k ∈ ks, k.isAbsent = false → ∀ t, convert k = some t → t.place = k.place ∧ P t)
    (hA : ∀ k ∈ ks, k.isAbsent = true → P k) :
    ts.map place = ks.map place ∧ ∀ t ∈ ts, P t := by
  induction ks generalizing ts with
  | nil =>
      obtain rfl : ts = [] := by simpa [targetElements] using h.symm
      exact ⟨rfl, fun _ h => absurd h List.not_mem_nil⟩
  | cons k ks ih =>
      -- one element, and what the others become
      have hmore : ∀ {t ts'}, targetElements (ks.map fun k => (k, convert k)) = some ts' →
          t.place = k.place → P t →
          (t :: ts').map place = (k :: ks).map place ∧ ∀ t' ∈ t :: ts', P t' := by
        intro t ts' hts hplace ht
        obtain ⟨hplaces, hall⟩ := ih hts (fun k hk => hP k (List.mem_cons_of_mem _ hk))
          fun k hk => hA k (List.mem_cons_of_mem _ hk)
        refine ⟨by rw [List.map_cons, List.map_cons, hplace, hplaces], fun t' ht' => ?_⟩
        rcases List.mem_cons.mp ht' with rfl | ht'
        · exact ht
        · exact hall t' ht'
      simp only [List.map_cons, targetElements] at h
      split at h
      case isTrue habsent =>
        obtain ⟨ts', hts, rfl⟩ := Option.map_eq_some_iff.mp h
        exact hmore hts rfl (hA k List.mem_cons_self habsent)
      case isFalse habsent =>
        split at h
        · cases h
        case h_2 t heq =>
          split at h
          · cases h
          · obtain ⟨ts', hts, rfl⟩ := Option.map_eq_some_iff.mp h
            obtain ⟨hplace, ht⟩ := hP k List.mem_cons_self (eq_false_of_ne_true habsent) t heq
            exact hmore hts hplace ht

/-- What a node becomes as an element of a pattern, given what its children become. -/
def elementAlgebra (loose : List Nat) : Algebra (Option Node) := fun form span children =>
  match form, children with
  | .array, _ => literalTarget loose span (.arrayPattern .assigns) children
  | .object, _ => (literalTarget loose span (.objectPattern .assigns) children).filter restIsPlace
  | .spread, [(_, some target)] =>
      if target.form == .defaulted then none else some (.node .rest span [target])
  | .property computed shorthand, [(key, _), (_, some target)] =>
      some (.node (.patternProperty computed shorthand) span [key, target])
  | .defaultedProperty, [(name, some target), (value, _)] =>
      let key := match name.form with
        | .identifier text => Node.node (.key text) name.span []
        | _ => name
      some (.node (.patternProperty false true) span [key, .node .defaulted span [target, value]])
  | .assign .plain, [(target, _), (value, _)] =>
      some (.node .defaulted span [target, value])
  | _, _ => asPlace? (.node form span (children.map Prod.fst))

/-- What a value is as an element of a pattern, from what its children are. -/
theorem asElement?_node (loose : List Nat) (form : Form) (span : Span) (children : List Node) :
    (node form span children).asElement? loose
      = elementAlgebra loose form span (children.map fun k => (k, k.asElement? loose)) := by
  rw [asElement?, fold_node]
  rfl

/-- Nothing absent becomes an element of a pattern. -/
theorem present_of_asElement? {loose : List Nat} {n t : Node}
    (h : n.asElement? loose = some t) : n.isAbsent = false := by
  cases n with
  | node form span children =>
      rw [asElement?_node] at h
      cases form with
      | absent => cases h
      | _ => rfl

/-- A member of an object becomes a property, or the rest if it is a spread. -/
theorem form_of_asElement? {loose : List Nat} {k t : Node} (hk : k.form.isObjectEntry = true)
    (h : k.asElement? loose = some t) :
    t.form.isPatternProperty = true ∨ k.form = .spread ∧ t.form = .rest := by
  cases k with
  | node form span children =>
      rw [asElement?_node] at h
      unfold elementAlgebra at h
      split at h
      case h_1 => cases hk
      case h_2 => cases hk
      case h_3 =>
        split at h
        · cases h
        · obtain rfl := by simpa using h
          exact .inr ⟨rfl, rfl⟩
      case h_4 =>
        obtain rfl := by simpa using h
        exact .inl rfl
      case h_5 =>
        obtain rfl := by simpa using h
        exact .inl rfl
      case h_6 => cases hk
      case h_7 =>
        unfold asPlace? at h
        simp only [Node.form] at hk h
        split at h
        case h_5 => cases h
        all_goals cases hk

/-- The elements of an object become the entries of a pattern. -/
theorem hasShape_targetElements {loose : List Nat} {role : PatternRole} {ks ts : List Node}
    (h : targetElements (ks.map fun k => (k, k.asElement? loose)) = some ts)
    (hks : ∀ k ∈ ks, k.form.isObjectEntry = true) : HasShape (.objectPattern role) ts := by
  induction ks generalizing ts with
  | nil =>
      obtain rfl : ts = [] := by simpa [targetElements] using h.symm
      exact ⟨nofun, nofun⟩
  | cons k ks ih =>
      have hk := hks k List.mem_cons_self
      have hpresent : k.isAbsent = false := by
        unfold isAbsent
        split
        case h_1 heq =>
          rw [heq] at hk
          cases hk
        case h_2 => rfl
      simp only [List.map_cons, targetElements, hpresent, Bool.false_eq_true, if_false] at h
      split at h
      case h_1 => cases h
      case h_2 t heq =>
        have hform := form_of_asElement? hk heq
        split at h
        case isTrue => cases h
        case isFalse hspread =>
          obtain ⟨ts', hts, rfl⟩ := Option.map_eq_some_iff.mp h
          obtain ⟨hinit, hend⟩ := ih hts fun k hk => hks k (List.mem_cons_of_mem _ hk)
          cases ts' with
          | nil =>
              refine ⟨nofun, fun t' ht' => ?_⟩
              obtain rfl : t = t' := by simpa using ht'
              exact hform.imp_right And.right
          | cons t' ts' =>
              refine ⟨fun t'' ht'' => ?_, hend⟩
              rcases List.mem_cons.mp ht'' with rfl | ht''
              · -- a spread has nothing after it
                refine hform.resolve_right fun hs => hspread ?_
                cases ks with
                | nil => simp [targetElements] at hts
                | cons k' ks => simp [hs.1]
              · exact hinit t'' ht''

/-- A literal becomes a pattern in its place. -/
theorem literalTarget_converts {loose : List Nat} {form : Form} {span : Span}
    {children : List Node} {role : Form} {t : Node}
    (h : literalTarget loose span role (children.map fun k => (k, k.asElement? loose)) = some t)
    (hw : (node form span children).WellPlaced) (hform : form.isWhole = true
      ∧ form.holdsEntries = true ∧ form.rank = 1)
    (hrole : role.isWhole = true ∧ role.holdsEntries = true ∧ role.rank = 1)
    (htakes : role.takesValue = true)
    (hshape : ∀ ts, targetElements (children.map fun k => (k, k.asElement? loose)) = some ts →
      HasShape role ts)
    (hclosed : ∀ k ∈ children, k.isClosed = true)
    (hchild : ∀ k ∈ children, k.isAbsent = false → ∀ t, k.asElement? loose = some t →
      k.Converts t) : (node form span children).Converts t := by
  obtain ⟨hwhole, hentries, hrank⟩ := hform
  obtain ⟨hwhole', hentries', hrank'⟩ := hrole
  cases hw with
  | node fits parts =>
  have hplaced := placed_of_isWhole hwhole children
  unfold literalTarget at h
  split at h
  · cases h
  · obtain ⟨ts, hts, rfl⟩ := Option.map_eq_some_iff.mp h
    obtain ⟨hplaces, hall⟩ := targetElements_eq_some
      (P := fun t => t.WellPlaced ∧ t.isClosed = true ∧ Parse.IsElement t) hts
      (fun k hk hp t ht =>
        have hconv := hchild k hk hp t ht
        have hk3 := fits.entries hentries k hk
        ⟨place_of_converts hconv hp, hconv.wellPlaced, hconv.closed,
          Nat.le_trans hconv.rank (Nat.max_le.mpr ⟨Nat.le_succ 2, hk3⟩), hconv.takes⟩)
      fun k hk ha => ⟨parts k hk, hclosed k hk, fits.entries hentries k hk, by
        rw [form_of_isAbsent ha]
        rfl⟩
    have hsuits := suits_of_entries hentries' (fun k hk => (hall k hk).2.2.rank)
      (fun k hk => (hall k (role.targets_subset ts hk)).2.2.takes) (hshape ts hts)
    refine ⟨rfl, .node (fits_of_isWhole hwhole' hsuits (fun _ k hk => ?_) ?_ ?_)
      fun k hk => (hall k hk).1, ?_, isAbsent_eq_false ?_, ?_, htakes⟩
    · exact Parse.free_of_rank (by decide) (hall k hk).2.2.rank
    · exact (hplaced ▸ fits.row).congr hplaces
    · -- whatever covers the pattern would have covered the literal
      intro t ht hp heq
      obtain ⟨k, hk, hplace⟩ := List.mem_map.mp (hplaces ▸ List.mem_map_of_mem ht)
      obtain ⟨hspan, habsent⟩ := Prod.mk.inj hplace
      exact absurd (hspan.trans heq)
        (fits.span_ne hrank k (hplaced.symm ▸ hk) (habsent.trans hp))
    · refine isClosed_of_all ?_ fun k hk => (hall k hk).2.1
      rintro name rfl
      cases hentries'
    · exact Nat.lt_of_lt_of_eq Nat.one_pos hrank'.symm
    · exact Nat.le_trans (Nat.le_of_eq hrank') (by omega)

section

variable {loose : List Nat} {span : Span} {k t : Node}

/-- A value that is spread becomes one that takes the rest. -/
theorem spread_converts (hw : (node .spread span [k]).WellPlaced) (hp : k.isAbsent = false)
    (h : k.Converts t) : (node .spread span [k]).Converts (node .rest span [t]) := by
  cases hw with
  | node fits parts =>
    refine ⟨rfl, .node (fits_of_isWhole rfl (suits_rest h.takes) (fun _ m hm => ?_) ?_ ?_) ?_,
      isClosed_of_all (fun _ h => by cases h) ?_, rfl, Nat.le_trans (Nat.le_succ 1)
        (Nat.le_max_left 2 _), rfl⟩
    · exact List.mem_singleton.mp hm ▸ h.free (fits.free rfl k List.mem_cons_self)
    · exact fits.row.congr (by simp [Form.placed, place_of_converts h hp])
    · intro m hm _ heq
      obtain rfl := List.mem_singleton.mp hm
      exact absurd (h.span.symm.trans heq) (fits.span_ne rfl k List.mem_cons_self hp)
    · exact fun m hm => List.mem_singleton.mp hm ▸ h.wellPlaced
    · exact fun m hm => List.mem_singleton.mp hm ▸ h.closed

/-- A property of an object becomes a property of a pattern. -/
theorem property_converts {isComputed isShorthand : Bool} {key : Node}
    (hw : (node (.property isComputed isShorthand) span [key, k]).WellPlaced)
    (hp : k.isAbsent = false) (hkey : key.isClosed = true) (h : k.Converts t) :
    (node (.property isComputed isShorthand) span [key, k]).Converts
      (node (.patternProperty isComputed isShorthand) span [key, t]) := by
  cases hw with
  | node fits parts =>
    -- even where the target covers the whole entry, its rank is under that of a property
    have hrank : ∀ m, m = t → m.span = span → m.form.rank < 3 := by
      rintro m rfl heq
      have h₁ : k.form.rank < 3 :=
        fits.inner k (by cases isShorthand <;> simp [Form.placed]) hp (h.span.symm.trans heq)
      have h₂ := h.rank
      omega
    have hbare : isComputed = false → key.isBare = true := fun h =>
      fits.key (by simp [Form.isKeyed, h]) key rfl
    -- the fields of a conversion in turn; a shorthand's key and value share one place
    refine ⟨rfl, .node ⟨suits_patternProperty hbare h.takes, ?_, ?_, ?_, fun h => (by cases h),
      fun _ m hm => ?_⟩ ?_, isClosed_of_all (fun _ h => by cases h) ?_, rfl, Nat.le_max_right ..,
      rfl⟩
    · cases isShorthand with
      | true => exact fits.row.congr (by simp [Form.placed, place_of_converts h hp])
      | false => exact fits.row.congr (by simp [Form.placed, place_of_converts h hp])
    · cases isShorthand with
      | true => exact fun m hm _ heq => hrank m (List.mem_singleton.mp hm) heq
      | false =>
          intro m hm hpm heq
          rcases List.mem_cons.mp hm with rfl | hm
          · exact fits.inner m List.mem_cons_self hpm heq
          · exact hrank m (List.mem_singleton.mp hm) heq
    · cases isShorthand with
      | true => exact fun m hm => fits.aside m hm
      | false => exact fun m hm => absurd hm List.not_mem_nil
    · -- for each condition over the parts, the key keeps its own and the target has the value's
      rcases List.mem_cons.mp hm with rfl | hm
      · exact fits.free rfl m List.mem_cons_self
      · exact List.mem_singleton.mp hm ▸ h.free (fits.free rfl k (by simp))
    · intro m hm
      rcases List.mem_cons.mp hm with rfl | hm
      · exact parts m List.mem_cons_self
      · exact List.mem_singleton.mp hm ▸ h.wellPlaced
    · intro m hm
      rcases List.mem_cons.mp hm with rfl | hm
      · exact hkey
      · exact List.mem_singleton.mp hm ▸ h.closed

/-- A property with a default becomes a name and its default under the same key. -/
theorem defaultedProperty_converts {text : String} {value : Node}
    (hw : (node .defaultedProperty span [k, value]).WellPlaced) (hspan : span.start < span.stop)
    (hp : k.isAbsent = false) (hvalue : value.isClosed = true) (h : k.Converts t) :
    (node .defaultedProperty span [k, value]).Converts (node (.patternProperty false true) span
      [node (.key text) k.span [], node .defaulted span [t, value]]) := by
  cases hw with
  | node fits parts =>
    have hne := (fits.default rfl).2
    have hdefaulted : (node .defaulted span [t, value]).WellPlaced := by
      refine .node
        (fits_of_isWhole rfl (Parse.suits_assigning rfl rfl h.takes) (fun _ m hm => ?_) ?_ ?_) ?_
      · rcases List.mem_cons.mp hm with rfl | hm
        · exact h.free (fits.free rfl k List.mem_cons_self)
        · exact fits.free rfl m (List.mem_cons_of_mem _ hm)
      · exact fits.row.congr (by simp [Form.placed, place_of_converts h hp])
      · intro m hm hpm heq
        rcases List.mem_cons.mp hm with rfl | hm
        · exact absurd (h.span.symm.trans heq) (hne k List.mem_cons_self hp)
        · exact absurd heq (hne m (List.mem_cons_of_mem _ hm) hpm)
      · intro m hm
        rcases List.mem_cons.mp hm with rfl | hm
        · exact h.wellPlaced
        · exact parts m (List.mem_cons_of_mem _ hm)
    have hclosed : ∀ m ∈ [t, value], m.isClosed = true := by
      intro m hm
      rcases List.mem_cons.mp hm with rfl | hm
      · exact h.closed
      · exact List.mem_singleton.mp hm ▸ hvalue
    refine ⟨rfl, Parse.wellPlaced_shorthand rfl (wellPlaced_leaf rfl)
      (laid_singleton ⟨Nat.le_refl _, hspan, Nat.le_refl _⟩ hdefaulted) (Nat.le_refl 2) rfl
      (Nat.le_refl _) (Nat.le_refl _), isClosed_of_all (fun _ h => by cases h) ?_, rfl,
      Nat.le_max_right 2 3, rfl⟩
    intro m hm
    rcases List.mem_cons.mp hm with rfl | hm
    · rfl
    · exact List.mem_singleton.mp hm ▸ isClosed_of_all (fun _ h => by cases h) hclosed

/-- An assignment becomes a pattern with a default. -/
theorem assign_converts {op : AssignOp} {children : List Node}
    (hw : (node (.assign op) span children).WellPlaced)
    (hclosed : ∀ k ∈ children, k.isClosed = true) :
    (node (.assign op) span children).Converts (node .defaulted span children) := by
  cases hw with
  | node fits parts =>
    refine ⟨rfl, .node (fits_of_isWhole rfl (suits_of_isAssigning rfl fits.targets) fits.free
      fits.row ?_) parts, isClosed_of_all (fun _ h => by cases h) hclosed, rfl,
      Nat.le_max_left 2 _, rfl⟩
    exact fun m hm hp heq => absurd heq (fits.span_ne rfl m hm hp)

/-- A name or an access becomes a place around itself. -/
theorem asPlace?_converts {n : Node} (h : n.asPlace? = some t) (hw : n.WellPlaced)
    (hspan : n.span.start < n.span.stop) (hclosed : n.isClosed = true) : n.Converts t := by
  have hplace : t = node .place n.span [n] ∧ n.form.rank = 1 ∧ n.form.isTarget = true := by
    unfold asPlace? at h
    split at h
    case h_5 => cases h
    all_goals
      rename_i hf
      exact ⟨(Option.some.inj h).symm, by rw [hf]; rfl, by rw [hf]; rfl⟩
  obtain ⟨rfl, hrank, htarget⟩ := hplace
  have hone : ∀ m ∈ [n], m = n := fun _ hm => List.mem_singleton.mp hm
  refine ⟨rfl, .node (fits_of_isWhole rfl (suits_place htarget) (fun _ m hm => ?_) ?_ ?_) ?_,
    isClosed_of_all (fun _ h => by cases h) ?_, rfl, Nat.le_max_left 2 _, rfl⟩
  · exact hone m hm ▸ hrank.symm ▸ Nat.lt_of_sub_eq_succ rfl
  · exact row_singleton ⟨Nat.le_refl _, hspan, Nat.le_refl _⟩
  · exact fun m hm _ _ => hone m hm ▸ Nat.lt_of_le_of_lt (Nat.le_of_eq hrank) (Nat.lt_succ_self 1)
  · exact fun m hm => hone m hm ▸ hw
  · exact fun m hm => hone m hm ▸ hclosed

end

/-- What a value becomes as an element of a pattern stands in its place. -/
theorem asElement?_converts {loose : List Nat} {n : Node} :
    ∀ {t}, n.asElement? loose = some t → n.WellPlaced → n.span.start < n.span.stop →
      n.isClosed = true → n.Converts t := by
  induction n with
  | node form span children ih =>
      intro t h hw hspan hclosed
      -- the hypothesis is about children in the row; the key of a shorthand property is not in it
      have hconv : (∀ k ∈ children, k.isClosed = true) → ∀ k ∈ form.placed children,
          ∀ t, k.asElement? loose = some t → k.Converts t := by
        intro hall k hk t ht
        have hmem := (form.placed_sublist children).subset hk
        cases hw with
        | node fits parts =>
            obtain ⟨-, hlt, -⟩ := fits.row.sits k hk (present_of_asElement? ht)
            exact ih k hmem ht (parts k hmem) hlt (hall k hmem)
      have hall := hclosed
      rw [isClosed_node] at hall
      rw [asElement?_node] at h
      unfold elementAlgebra at h
      split at h
      -- an array, with the elements that are left out
      case h_1 =>
        have hall := isClosed_of_all_id hall
        exact literalTarget_converts h hw ⟨rfl, rfl, rfl⟩ ⟨rfl, rfl, rfl⟩ rfl (fun _ _ => trivial) hall
          fun k hk _ => hconv hall k hk
      -- an object, whose members become entries
      case h_2 =>
        have hall := isClosed_of_all_id hall
        have hentries : ∀ k ∈ children, k.form.isObjectEntry = true := by
          cases hw with
          | node fits parts => exact fits.shape
        exact literalTarget_converts (Option.filter_eq_some_iff.mp h).1 hw ⟨rfl, rfl, rfl⟩
          ⟨rfl, rfl, rfl⟩ rfl (fun _ hts => hasShape_targetElements hts hentries) hall
          fun k hk _ => hconv hall k hk
      -- a value that is spread
      case h_3 value target heq =>
        obtain ⟨k, rfl, hk⟩ := List.map_eq_singleton_iff.mp heq
        have htarget : k.asElement? loose = some target := (Prod.mk.inj hk).2
        have hall := isClosed_of_all_id hall
        split at h
        · cases h
        · obtain rfl := by simpa using h
          exact spread_converts hw (present_of_asElement? htarget)
            (hconv hall k List.mem_cons_self target htarget)
      -- a property, whose key stays what it is
      case h_4 isComputed isShorthand key keyTarget value target heq =>
        obtain ⟨key', rest, rfl, hkey, hrest⟩ := List.map_eq_cons_iff.mp heq
        obtain ⟨k, rfl, hk⟩ := List.map_eq_singleton_iff.mp hrest
        obtain rfl : key' = key := (Prod.mk.inj hkey).1
        have htarget : k.asElement? loose = some target := (Prod.mk.inj hk).2
        have hall := isClosed_of_all_id hall
        obtain rfl := by simpa using h
        exact property_converts hw (present_of_asElement? htarget) (hall key' List.mem_cons_self)
          (hconv hall k (by cases isShorthand <;> simp [Form.placed]) target htarget)
      -- a name with a default, as it is written in an object that turns out to be a pattern
      case h_5 name target value valueTarget heq =>
        obtain ⟨k, rest, rfl, hk, hrest⟩ := List.map_eq_cons_iff.mp heq
        obtain ⟨value', rfl, hvalue⟩ := List.map_eq_singleton_iff.mp hrest
        obtain rfl : k = name := (Prod.mk.inj hk).1
        obtain rfl : value' = value := (Prod.mk.inj hvalue).1
        have htarget : k.asElement? loose = some target := (Prod.mk.inj hk).2
        have hall := isClosed_of_all_id hall
        have hname : ∃ text, k.form = .identifier text := by
          cases hw with
          | node fits parts => exact (fits.default rfl).1 k rfl
        obtain ⟨text, hform⟩ := hname
        rw [hform] at h
        obtain rfl := by simpa using h
        exact defaultedProperty_converts hw hspan (present_of_asElement? htarget)
          (hall value' (by simp)) (hconv hall k List.mem_cons_self target htarget)
      -- an assignment, whose target has become a pattern before
      case h_6 target targetTarget value valueTarget heq =>
        obtain ⟨target', rest, rfl, htarget, hrest⟩ := List.map_eq_cons_iff.mp heq
        obtain ⟨value', rfl, hvalue⟩ := List.map_eq_singleton_iff.mp hrest
        obtain rfl : target' = target := (Prod.mk.inj htarget).1
        obtain rfl : value' = value := (Prod.mk.inj hvalue).1
        obtain rfl := by simpa using h
        exact assign_converts hw (isClosed_of_all_id hall)
      -- anything else has to be a place
      case h_7 =>
        rw [List.map_map] at h
        exact asPlace?_converts (by simpa [Function.comp_def] using h) hw hspan hclosed

end Node

namespace Parse

theorem IsValue.of_converts {n t : Node} (hn : IsValue n) (h : n.Converts t) : IsPlace t :=
  ⟨⟨⟨h.present, Nat.le_trans h.rank (Nat.max_le.mpr ⟨Nat.le_refl _, hn.rank⟩)⟩, h.closed⟩, h.takes⟩

/-- What a value becomes when it is assigned to stands in its place. -/
theorem stands_of_converts {lo : Nat} {n t : Node} {c : Cursor} (hn : Stands IsValue lo n c)
    (h : n.Converts t) : Stands IsPlace lo t c :=
  ⟨hn.laid.replace hn.kind.present h.span h.wellPlaced, hn.kind.of_converts h⟩

/-- What an assignment assigns to stands where it was read. -/
theorem asTarget?_stands {loose : List Nat} {lo : Nat} {n t : Node} {c : Cursor}
    (hn : Stands IsValue lo n c) (h : n.asTarget? loose = some t) : Stands IsPlace lo t c := by
  obtain ⟨-, hlt, -⟩ := hn.laid.row.sits n List.mem_cons_self hn.kind.present
  exact stands_of_converts hn (Node.asElement?_converts (Option.filter_eq_some_iff.mp h).1
    (hn.laid.wellPlaced n List.mem_cons_self) hlt hn.kind.closed)

/-- What is counted up or down stands where it was read. -/
theorem asPlace?_stands {lo : Nat} {n t : Node} {c : Cursor} (hn : Stands IsValue lo n c)
    (h : n.asPlace? = some t) : Stands IsPlace lo t c := by
  obtain ⟨-, hlt, -⟩ := hn.laid.row.sits n List.mem_cons_self hn.kind.present
  exact stands_of_converts hn (Node.asPlace?_converts h
    (hn.laid.wellPlaced n List.mem_cons_self) hlt hn.kind.closed)

end Parse

end Graft
