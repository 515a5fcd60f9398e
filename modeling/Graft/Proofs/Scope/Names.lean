import Graft.Proofs.Scope.Append
/-!
Which symbol a use belongs to.

A use waits in the open scopes under its name, and what a scope holds under a name is the number of
a symbol of that name. `ScopeWalk.Spelled` says so of a walk, and every event keeps it
(`ScopeWalk.Spelled.step`). So a use belongs to a symbol of its own name, if it belongs to any, and
a declaration of the program introduces that name (`Bindings.name_of_use`).

Every use of a program is recorded. Inside of some scope the events of a node come back to that
scope, and record every use on their way (`ScopeEvent.meets_fold`), for what waits in a scope is
settled or handed on when the scope closes. So a name that nothing in the program declares is global
wherever it is used (`Bindings.isGlobalUse_of_undeclared`).
-/
namespace Graft

namespace ScopeEvent

-- ============================================================ what events are about

/-- Whether an event is about a word of a tree. -/
def About (t : Node) : ScopeEvent → Prop
  | .use name start _ => ∃ n ∈ t.identifiers, n.form = .identifier name ∧ n.span.start = start
  | .introduce name span _ => ∃ b ∈ t.bindings, b.form = .binding name ∧ b.span = span
  | .enter _ | .leave => True

/-- What is about a word of a child is about a word of the node. -/
theorem About.of_child {form : Form} {span : Span} {children : List Node} {k : Node} {e : ScopeEvent}
    (h : About k e) (hk : k ∈ children) : About (.node form span children) e := by
  have hsub : ∀ {m : Node}, m ∈ k.parts → m ∈ (Node.node form span children).parts :=
    fun hm => Node.mem_parts_of_child hk hm
  cases e with
  | enter isWide => trivial
  | leave => trivial
  | use name start isWrite =>
      obtain ⟨n, hn, hform, hstart⟩ := h
      obtain ⟨hn, hname⟩ := List.mem_filter.mp hn
      exact ⟨n, List.mem_filter.mpr ⟨hsub hn, hname⟩, hform, hstart⟩
  | introduce name span how =>
      obtain ⟨b, hb, hform, hspan⟩ := h
      obtain ⟨hb, hname⟩ := List.mem_filter.mp hb
      exact ⟨b, List.mem_filter.mpr ⟨hsub hb, hname⟩, hform, hspan⟩

/-- The events of a node are those of its children, and the ends of a scope. -/
theorem Layered.cases {form : Form} {how : Introduction} {children : List (Child Meaning)}
    {events : List ScopeEvent} {e : ScopeEvent} (h : Layered form how children events)
    (he : e ∈ events) : (∃ isWide, e = .enter isWide) ∨ e = .leave
      ∨ ∃ c ∈ children, ∃ how', e ∈ c.2 how' := by
  obtain ⟨before, inside, rfl, -, hrow⟩ := h
  have htold : ∀ {ps : List Told}, (∀ p ∈ ps, p ∈ before ++ inside) → e ∈ told ps →
      ∃ c ∈ (before ++ inside).map Prod.fst, ∃ how', e ∈ c.2 how' := by
    intro ps hps hmem
    obtain ⟨p, hp, he⟩ := List.mem_flatMap.mp hmem
    exact ⟨p.1, List.mem_map_of_mem (hps p hp), p.2, he⟩
  rcases hrow with ⟨rfl, rfl⟩ | ⟨isWide, rfl⟩
  · exact .inr (.inr (htold (fun p hp => List.mem_append_left _ hp) he))
  · simp only [inScope, List.cons_append, List.mem_append, List.mem_cons, List.not_mem_nil,
      or_false] at he
    rcases he with he | rfl | he | rfl
    · exact .inr (.inr (htold (fun p hp => List.mem_append_left _ hp) he))
    · exact .inl ⟨isWide, rfl⟩
    · exact .inr (.inr (htold (fun p hp => List.mem_append_right _ hp) he))
    · exact .inr (.inl rfl)

/-- Every event of a tree is about a word of the tree. -/
theorem about_of_mem {t : Node} {how : Introduction} {e : ScopeEvent}
    (h : e ∈ t.fold algebra how) : About t e := by
  induction t generalizing how with
  | node form span children ih =>
      rw [Node.fold_node] at h
      rcases algebra_layers form span (children.map fun k => (k, k.fold algebra)) how with
        ⟨name, rfl, heq⟩ | ⟨name, target, rfl, hchildren, htarget, heq⟩ | ⟨name, rfl, heq⟩ | hlayered
      · rw [heq, List.mem_singleton] at h
        subst h
        exact ⟨_, List.mem_filter.mpr ⟨Node.self_mem_parts _, rfl⟩, rfl, rfl⟩
      · obtain ⟨k, rfl, rfl⟩ := List.map_eq_singleton_iff.mp hchildren
        rw [heq, List.mem_singleton] at h
        subst h
        have hform : k.form = .identifier name := htarget
        have hself : About k (.use name k.span.start true) :=
          ⟨k, List.mem_filter.mpr ⟨Node.self_mem_parts k, by rw [Node.isIdentifier, hform]⟩, hform,
            rfl⟩
        exact hself.of_child List.mem_cons_self
      · rw [heq, List.mem_singleton] at h
        subst h
        exact ⟨_, List.mem_filter.mpr ⟨Node.self_mem_parts _, rfl⟩, rfl, rfl⟩
      · rcases hlayered.cases h with ⟨isWide, rfl⟩ | rfl | ⟨c, hc, how', he⟩
        · trivial
        · trivial
        · obtain ⟨k, hk, rfl⟩ := List.mem_map.mp hc
          exact (ih k hk he).of_child hk

end ScopeEvent

-- ============================================================ names and numbers

namespace Bindings

/-- The name of the symbol with a number. -/
def nameOf? (b : Bindings) (n : Nat) : Option String := (b.symbols[n]?).map Symbol.name

end Bindings

namespace OpenScope

/-- What a scope holds: names, each with the number that it stands for. -/
def entries (s : OpenScope) : List (String × Nat) := s.names ++ s.passing

theorem mem_of_lookup {entries : List (String × Nat)} {name : String} {n : Nat}
    (h : entries.lookup name = some n) : (name, n) ∈ entries := by
  obtain ⟨before, after, rfl, -⟩ := List.lookup_eq_some_iff.mp h
  exact List.mem_append_right _ List.mem_cons_self

/-- What is found in a scope is an entry of it. -/
theorem mem_entries_of_find? {s : OpenScope} {name : String} {n : Nat} (h : s.find? name = some n) :
    (name, n) ∈ s.entries := by
  unfold find? at h
  cases hnames : s.names.lookup name with
  | none =>
      rw [hnames] at h
      exact List.mem_append_right _ (mem_of_lookup h)
  | some m =>
      rw [hnames] at h
      obtain rfl : m = n := by simpa using h
      exact List.mem_append_left _ (mem_of_lookup hnames)

/-- To declare a name adds one entry at most. -/
theorem mem_entries_put {s : OpenScope} {name : String} {n : Nat} {e : String × Nat}
    (h : e ∈ (s.put name n).entries) : e = (name, n) ∨ e ∈ s.entries := by
  rcases List.mem_append.mp h with h | h
  · rcases List.mem_cons.mp h with rfl | h
    · exact .inl rfl
    · exact .inr (List.mem_append_left _ (List.mem_filter.mp h).1)
  · exact .inr (List.mem_append_right _ h)

end OpenScope

namespace ScopeWalk

open OpenScope

/-- So does passing a name on to a wider scope. -/
theorem mem_entries_pass {name : String} {n : Nat} {s : OpenScope} {e : String × Nat}
    (h : e ∈ (pass name n s).entries) : e = (name, n) ∨ e ∈ s.entries := by
  rcases List.mem_append.mp h with h | h
  · exact .inr (List.mem_append_left _ h)
  · rcases List.mem_cons.mp h with rfl | h
    · exact .inl rfl
    · exact .inr (List.mem_append_right _ h)

/-- To drop a name adds none. -/
theorem mem_entries_drop {name : String} {n : Nat} {s : OpenScope} {e : String × Nat}
    (h : e ∈ (drop name n s).entries) : e ∈ s.entries := by
  rcases List.mem_append.mp h with h | h
  · exact List.mem_append_left _ (List.mem_filter.mp h).1
  · exact List.mem_append_right _ h

/-- What an open scope holds after a name was introduced: what one held before, or the name with the
number of a new symbol. No use is moved. -/
theorem of_mem_introduce {w : ScopeWalk} {name : String} {span : Span} {how : Introduction}
    {s : OpenScope} (hs : s ∈ (step w (.introduce name span how)).opened) :
    (∃ t ∈ w.opened, s.waiting = t.waiting)
      ∧ ∀ e ∈ s.entries, (∃ t ∈ w.opened, e ∈ t.entries)
        ∨ e = (name, w.found.symbols.length)
          ∧ (step w (.introduce name span how)).found = withSymbol w.found name span how := by
  by_cases hreach : how.reach = .wide
  · rw [step_introduce_wide hreach] at hs ⊢
    rcases introduceWide_cases name span how w.found w.opened with
      ⟨-, heq⟩ | ⟨inner, target, outer, htake, hdrop, hcases⟩
    · rw [heq] at hs
      exact ⟨⟨s, hs, rfl⟩, fun e he => .inl ⟨s, hs, he⟩⟩
    have hall : w.opened = inner ++ target :: outer := by
      rw [← htake, ← hdrop, List.takeWhile_append_dropWhile]
    -- every way to introduce a name changes the scopes one by one
    have hdone : ∀ {f : OpenScope → OpenScope} {target' : OpenScope} {b : Bindings} (n : Nat),
        introduceWide name span how w.found w.opened = (inner.map f ++ target' :: outer, b) →
        (∀ t, (f t).waiting = t.waiting) → target'.waiting = target.waiting →
        (∀ t, ∀ e ∈ (f t).entries, e = (name, n) ∨ e ∈ t.entries) →
        (∀ e ∈ target'.entries, e = (name, n) ∨ e ∈ target.entries) →
        ((∃ t ∈ w.opened, t.find? name = some n)
          ∨ n = w.found.symbols.length ∧ b = withSymbol w.found name span how) →
        (∃ t ∈ w.opened, s.waiting = t.waiting)
          ∧ ∀ e ∈ s.entries, (∃ t ∈ w.opened, e ∈ t.entries)
            ∨ e = (name, w.found.symbols.length)
              ∧ (introduceWide name span how w.found w.opened).2
                = withSymbol w.found name span how := by
      intro f target' b n heq hf htarget hfe hte hn
      rw [heq] at hs ⊢
      have hnew : ∀ t ∈ w.opened, ∀ e, e = (name, n) ∨ e ∈ t.entries →
          (∃ t ∈ w.opened, e ∈ t.entries)
            ∨ e = (name, w.found.symbols.length) ∧ b = withSymbol w.found name span how := by
        rintro t ht e (rfl | he)
        · rcases hn with ⟨t', ht', hfind⟩ | ⟨rfl, hb⟩
          · exact .inl ⟨t', ht', mem_entries_of_find? hfind⟩
          · exact .inr ⟨rfl, hb⟩
        · exact .inl ⟨t, ht, he⟩
      rcases List.mem_append.mp hs with hs | hs
      · obtain ⟨t, ht, rfl⟩ := List.mem_map.mp hs
        have ht : t ∈ w.opened := hall ▸ List.mem_append_left _ ht
        exact ⟨⟨t, ht, hf t⟩, fun e he => hnew t ht e (hfe t e he)⟩
      rcases List.mem_cons.mp hs with rfl | hs
      · have ht : target ∈ w.opened := hall ▸ List.mem_append_right _ List.mem_cons_self
        exact ⟨⟨target, ht, htarget⟩, fun e he => hnew target ht e (hte e he)⟩
      · have ht : s ∈ w.opened := hall ▸ List.mem_append_right _ (List.mem_cons_of_mem _ hs)
        exact ⟨⟨s, ht, rfl⟩, fun e he => .inl ⟨s, ht, he⟩⟩
    have hinner : ∀ {t : OpenScope}, t ∈ inner → t ∈ w.opened := fun ht =>
      hall ▸ List.mem_append_left _ ht
    have htarget : target ∈ w.opened := hall ▸ List.mem_append_right _ List.mem_cons_self
    rcases hcases with ⟨n, ⟨t, ht, hn⟩, heq | heq⟩ | ⟨n, hn, heq⟩ | heq
    · exact hdone n heq (fun _ => rfl) rfl (fun _ _ => mem_entries_pass) (fun _ => .inr)
        (.inl ⟨t, hinner ht, hn⟩)
    · exact hdone n heq (fun _ => rfl) rfl
        (fun _ _ he => (mem_entries_pass he).imp_right mem_entries_drop) (fun _ => mem_entries_put)
        (.inl ⟨t, hinner ht, hn⟩)
    · exact hdone n heq (fun _ => rfl) rfl (fun _ _ => mem_entries_pass) (fun _ => .inr)
        (.inl ⟨target, htarget, hn⟩)
    · exact hdone _ heq (fun _ => rfl) rfl (fun _ _ => mem_entries_pass) (fun _ => mem_entries_put)
        (.inr ⟨rfl, rfl⟩)
  · cases hw : w.opened with
    | nil =>
        rw [step_introduce_nil hreach hw, hw] at hs
        cases hs
    | cons t outer =>
        rw [step_introduce_cons hreach hw] at hs ⊢
        rcases introduceIn_eq t w.found name span how with ⟨n, hn, heq⟩ | heq
        · rw [heq] at hs
          exact ⟨⟨s, hs, rfl⟩, fun e he => .inl ⟨s, hs, he⟩⟩
        · rw [heq] at hs ⊢
          rcases List.mem_cons.mp hs with rfl | hs
          · refine ⟨⟨t, List.mem_cons_self, rfl⟩, fun e he => ?_⟩
            rcases mem_entries_put he with rfl | he
            · exact .inr ⟨rfl, rfl⟩
            · exact .inl ⟨t, List.mem_cons_self, he⟩
          · have ht := List.mem_cons_of_mem t hs
            exact ⟨⟨s, ht, rfl⟩, fun e he => .inl ⟨s, ht, he⟩⟩

-- ============================================================ the walk

/-- A symbol keeps its name. -/
theorem nameOf?_step {w : ScopeWalk} {n : Nat} {name : String} (h : w.found.nameOf? n = some name)
    (e : ScopeEvent) : (step w e).found.nameOf? n = some name := by
  rcases step_found_cases w e with ⟨hsymbols, -⟩ | ⟨_, span, how, rfl, ⟨k, heq⟩ | heq⟩
  · rw [Bindings.nameOf?, hsymbols]
    exact h
  · rw [heq, Bindings.nameOf?, again, redeclare, List.getElem?_modify]
    obtain ⟨s, hs, hname⟩ := Option.map_eq_some_iff.mp h
    rw [hs]
    by_cases hk : k = n
    · simpa [hk] using hname
    · simpa [hk] using hname
  · obtain ⟨s, hs, hname⟩ := Option.map_eq_some_iff.mp h
    rw [heq, Bindings.nameOf?, withSymbol,
      List.getElem?_append_left (List.getElem?_eq_some_iff.mp hs).1, hs]
    exact congrArg some hname

/-- Whatever a walk along some events holds under a name is a symbol of that name, and every use
belongs to a symbol of its name, if to any. -/
structure Spelled (events : List ScopeEvent) (w : ScopeWalk) : Prop where
  entries : ∀ s ∈ w.opened, ∀ e ∈ s.entries, w.found.nameOf? e.2 = some e.1
  waiting : ∀ s ∈ w.opened, ∀ u ∈ s.waiting, .use u.name u.start u.isWrite ∈ events
  uses : ∀ u ∈ w.found.uses, ∃ name, .use name u.start u.isWrite ∈ events
    ∧ ∀ n, u.symbol = some n → w.found.nameOf? n = some name

theorem spelled_start : Spelled [] start := ⟨nofun, nofun, nofun⟩

/-- More events spell no less. -/
theorem Spelled.mono {events events' : List ScopeEvent} {w : ScopeWalk} (h : Spelled events w)
    (hsub : events ⊆ events') : Spelled events' w where
  entries := h.entries
  waiting s hs u hu := hsub (h.waiting s hs u hu)
  uses u hu := by
    obtain ⟨name, hmem, hname⟩ := h.uses u hu
    exact ⟨name, hsub hmem, hname⟩

/-- The uses that settle when a scope closes belong to symbols of their names. -/
theorem Spelled.settled {events : List ScopeEvent} {w : ScopeWalk} (h : Spelled events w)
    {s : OpenScope} (hs : s ∈ w.opened) {u : Use} (hu : u ∈ (settle s).1) :
    ∃ name, .use name u.start u.isWrite ∈ events
      ∧ ∀ n, u.symbol = some n → w.found.nameOf? n = some name := by
  obtain ⟨a, ha, heq⟩ := List.mem_filterMap.mp hu
  obtain ⟨n, hn, rfl⟩ := Option.map_eq_some_iff.mp heq
  refine ⟨a.name, h.waiting s hs a ha, fun k hk => ?_⟩
  obtain rfl := Option.some.inj hk
  exact h.entries s hs _ (List.mem_append_left _ (mem_of_lookup hn))

/-- One event keeps every entry and every use with a symbol of its name. -/
theorem Spelled.step {events : List ScopeEvent} {w : ScopeWalk} (h : Spelled events w)
    (e : ScopeEvent) : Spelled (events ++ [e]) (step w e) := by
  have hold := h.mono (List.subset_append_left events [e])
  cases e with
  | enter isWide =>
      refine ⟨fun s hs => ?_, fun s hs => ?_, hold.uses⟩
      · rcases List.mem_cons.mp hs with rfl | hs
        · exact fun _ he => absurd he List.not_mem_nil
        · exact hold.entries s hs
      · rcases List.mem_cons.mp hs with rfl | hs
        · exact fun _ hu => absurd hu List.not_mem_nil
        · exact hold.waiting s hs
  | use name start isWrite =>
      cases hw : w.opened with
      | nil =>
          rw [step_use_nil hw]
          exact hold
      | cons s outer =>
          rw [step_use_cons hw]
          have hs : s ∈ w.opened := hw ▸ List.mem_cons_self
          have houter : ∀ t ∈ outer, t ∈ w.opened := fun t ht => hw ▸ List.mem_cons_of_mem _ ht
          refine ⟨fun t ht => ?_, fun t ht u hu => ?_, hold.uses⟩
          · rcases List.mem_cons.mp ht with rfl | ht
            · exact hold.entries s hs
            · exact hold.entries t (houter t ht)
          · rcases List.mem_cons.mp ht with rfl | ht
            · -- the use waits under the name that it was met with
              rcases List.mem_cons.mp hu with rfl | hu
              · exact List.mem_append_right _ List.mem_cons_self
              · exact hold.waiting s hs u hu
            · exact hold.waiting t (houter t ht) u hu
  | leave =>
      rcases hw : w.opened with _ | ⟨s, _ | ⟨t, outer⟩⟩
      case nil =>
          have hsame : ScopeWalk.step w .leave = w := by simp [ScopeWalk.step, hw]
          rw [hsame]
          exact hold
      case cons.nil =>
          have hs : s ∈ w.opened := hw ▸ List.mem_cons_self
          rw [step_leave_last hw]
          refine ⟨fun _ ht => absurd ht List.not_mem_nil, fun _ ht => absurd ht List.not_mem_nil,
            fun u hu => ?_⟩
          rcases List.mem_append.mp hu with hu | hu
          · rcases List.mem_append.mp hu with hu | hu
            · -- what no scope has settled is global, and belongs to no symbol
              obtain ⟨a, ha, rfl⟩ := List.mem_map.mp hu
              exact ⟨a.name, hold.waiting s hs a (List.mem_filter.mp ha).1, fun n hn => by cases hn⟩
            · exact hold.settled hs hu
          · exact hold.uses u hu
      case cons.cons =>
          have hs : s ∈ w.opened := hw ▸ List.mem_cons_self
          have ht : t ∈ w.opened := hw ▸ List.mem_cons_of_mem _ List.mem_cons_self
          have houter : ∀ r ∈ outer, r ∈ w.opened := fun r hr =>
            hw ▸ List.mem_cons_of_mem _ (List.mem_cons_of_mem _ hr)
          rw [step_leave_cons hw]
          refine ⟨fun r hr => ?_, fun r hr u hu => ?_, fun u hu => ?_⟩
          · rcases List.mem_cons.mp hr with rfl | hr
            · exact hold.entries t ht
            · exact hold.entries r (houter r hr)
          · rcases List.mem_cons.mp hr with rfl | hr
            · -- what does not settle waits in the next scope, under its name
              rcases List.mem_append.mp hu with hu | hu
              · exact hold.waiting s hs u (List.mem_filter.mp hu).1
              · exact hold.waiting t ht u hu
            · exact hold.waiting r (houter r hr) u hu
          · rcases List.mem_append.mp hu with hu | hu
            · exact hold.settled hs hu
            · exact hold.uses u hu
  | introduce name span how =>
      refine ⟨fun s hs e he => ?_, fun s hs u hu => ?_, fun u hu => ?_⟩
      · rcases (of_mem_introduce hs).2 e he with ⟨t, ht, he⟩ | ⟨rfl, heq⟩
        · exact nameOf?_step (h.entries t ht e he) _
        · -- the new symbol bears the name that it is put under
          rw [heq, Bindings.nameOf?, withSymbol, List.getElem?_concat_length]
          rfl
      · obtain ⟨⟨t, ht, hwaiting⟩, -⟩ := of_mem_introduce hs
        exact hold.waiting t ht u (hwaiting ▸ hu)
      · obtain ⟨name', hmem, hname⟩ := hold.uses u (uses_introduce w name span how ▸ hu)
        exact ⟨name', hmem, fun n hn => nameOf?_step (hname n hn) _⟩

/-- So does any row of events. -/
theorem Spelled.walk {events more : List ScopeEvent} {w : ScopeWalk} (h : Spelled events w) :
    Spelled (events ++ more) (more.foldl ScopeWalk.step w) := by
  induction more generalizing events w with
  | nil => exact (List.append_nil events).symm ▸ h
  | cons e more ih =>
      rw [List.append_cons]
      exact ih (h.step e)

-- ============================================================ uses are recorded

/-- A use that was met is not forgotten. -/
theorem useStarts_subset_step (w : ScopeWalk) (e : ScopeEvent) :
    w.useStarts ⊆ (ScopeWalk.step w e).useStarts := by
  intro a ha
  cases e with
  | enter isWide => exact ha
  | use name start isWrite =>
      cases hw : w.opened with
      | nil => rwa [step_use_nil hw]
      | cons s outer =>
          rw [step_use_cons hw]
          simp only [useStarts, hw, List.flatMap_cons, List.map_cons, List.mem_append,
            List.mem_cons] at ha ⊢
          exact ha.imp_right fun h => h.imp_left .inr
  | introduce name span how =>
      rwa [useStarts_introduce]
  | leave =>
      -- what waits in a scope is settled or handed on when the scope closes
      have hsettle : ∀ s : OpenScope, a ∈ s.waiting.map WaitingUse.start →
          a ∈ (settle s).1.map Use.start ∨ a ∈ (settle s).2.map WaitingUse.start := fun s hs => by
        have hcount := count_settle s a
        have hpos := List.count_pos_iff.mpr hs
        by_cases hzero : 0 < ((settle s).1.map Use.start).count a
        · exact .inl (List.count_pos_iff.mp hzero)
        · exact .inr (List.count_pos_iff.mp (by omega))
      rcases hw : w.opened with _ | ⟨s, _ | ⟨t, outer⟩⟩
      case nil =>
          have hsame : ScopeWalk.step w .leave = w := by simp [ScopeWalk.step, hw]
          rwa [hsame]
      case cons.nil =>
          have hglobal : ((settle s).2.map fun u => (⟨u.start, u.isWrite, none⟩ : Use)).map
              Use.start = (settle s).2.map WaitingUse.start := List.map_map ..
          have hs := hsettle s
          rw [step_leave_last hw]
          simp only [useStarts, hw, List.flatMap_cons, List.flatMap_nil, List.map_append, hglobal,
            List.mem_append] at ha ⊢
          grind
      case cons.cons =>
          have hs := hsettle s
          rw [step_leave_cons hw]
          simp only [useStarts, hw, List.flatMap_cons, List.map_append, List.mem_append] at ha ⊢
          grind

end ScopeWalk

namespace ScopeEvent

open ScopeWalk

/-- Whether, inside of some scope, a walk along some events comes back to that scope and records
every use on its way. -/
def Meets (events : List ScopeEvent) : Prop :=
  ∀ w : ScopeWalk, w.opened ≠ [] →
    (events.foldl step w).opened.length = w.opened.length
      ∧ w.useStarts ⊆ (events.foldl step w).useStarts
      ∧ events.filterMap useStart? ⊆ (events.foldl step w).useStarts

theorem meets_nil : Meets [] := fun _ _ => ⟨rfl, List.Subset.refl _, List.nil_subset _⟩

/-- Rows of events that come back can be put one after the other. -/
theorem Meets.append {as bs : List ScopeEvent} (ha : Meets as) (hb : Meets bs) :
    Meets (as ++ bs) := by
  intro w hw
  obtain ⟨hlength, hold, hmet⟩ := ha w hw
  have hw' : (as.foldl step w).opened ≠ [] := by
    rw [← List.length_pos_iff] at hw ⊢
    omega
  obtain ⟨hlength', hold', hmet'⟩ := hb _ hw'
  rw [List.foldl_append]
  refine ⟨hlength'.trans hlength, List.Subset.trans hold hold', ?_⟩
  rw [List.filterMap_append]
  exact List.append_subset.mpr ⟨List.Subset.trans hmet hold', hmet'⟩

/-- The events of the children come back if those of each child do. -/
theorem meets_told {children : List Told} (h : ∀ p ∈ children, Meets (p.1.2 p.2)) :
    Meets (told children) := by
  induction children with
  | nil => exact meets_nil
  | cons p ps ih =>
      exact (h p List.mem_cons_self).append (ih fun q hq => h q (List.mem_cons_of_mem _ hq))

/-- A scope around some events gives back the scopes that it found. -/
theorem Meets.inScope {inside : List ScopeEvent} (h : Meets inside) (isWide : Bool) :
    Meets (inScope isWide inside) := by
  intro w hw
  obtain ⟨hlength, hold, hmet⟩ := h (step w (.enter isWide)) (List.cons_ne_nil _ _)
  have hall : (ScopeEvent.inScope isWide inside).foldl step w
      = step (inside.foldl step (step w (.enter isWide))) .leave := by
    rw [ScopeEvent.inScope, List.cons_append, List.foldl_cons, List.foldl_append]
    rfl
  have hlast := useStarts_subset_step (inside.foldl step (step w (.enter isWide))) .leave
  have hstarts : (ScopeEvent.inScope isWide inside).filterMap useStart?
      = inside.filterMap useStart? := by
    rw [ScopeEvent.inScope, List.cons_append, List.filterMap_cons_none rfl, List.filterMap_append]
    exact List.append_nil _
  rw [hall, hstarts]
  refine ⟨?_, List.Subset.trans hold hlast, List.Subset.trans hmet hlast⟩
  have hopen : (step w (.enter isWide)).opened.length = w.opened.length + 1 := rfl
  rw [hopen] at hlength
  rw [← List.length_pos_iff] at hw
  rcases hv : (inside.foldl step (step w (.enter isWide))).opened with _ | ⟨s, _ | ⟨t, outer⟩⟩
  case nil =>
      rw [hv] at hlength
      cases hlength
  case cons.nil =>
      rw [hv] at hlength
      exact absurd hlength (by simp only [List.length_cons, List.length_nil]; omega)
  case cons.cons =>
      rw [hv] at hlength
      rw [step_leave_cons hv]
      simpa using hlength

/-- Inside of some scope every use in a tree is recorded. -/
theorem meets_fold (t : Node) (how : Introduction) : Meets (t.fold algebra how) := by
  induction t generalizing how with
  | node form span children ih =>
      have huse : ∀ name start isWrite, Meets [.use name start isWrite] := by
        intro name start isWrite w hw
        cases hopened : w.opened with
        | nil => exact absurd hopened hw
        | cons s outer =>
            refine ⟨?_, useStarts_subset_step w (.use name start isWrite), ?_⟩
            · simp [step_use_cons hopened]
            · simp [step_use_cons hopened, useStarts, useStart?]
      rw [Node.fold_node]
      rcases algebra_layers form span (children.map fun k => (k, k.fold algebra)) how with
        ⟨name, -, heq⟩ | ⟨name, target, -, -, -, heq⟩ | ⟨name, -, heq⟩ | hlayered
      · rw [heq]
        exact huse _ _ _
      · rw [heq]
        exact huse _ _ _
      · rw [heq]
        intro w hw
        refine ⟨?_, useStarts_subset_step w (.introduce name span how), List.nil_subset _⟩
        -- an introduction changes what scopes hold, not how many there are
        show (step w (.introduce name span how)).opened.length = _
        cases hfits : fits how.reach (w.opened.map (·.isWide)) with
        | false => rw [step_introduce_of_not_fits hfits]
        | true =>
            obtain ⟨near, n, hopened, hshape, -, -⟩ :=
              step_introduce_of_fits name span (List.append_nil w.opened).symm hfits
            rw [hopened, List.append_nil]
            simpa using congrArg List.length hshape
      · obtain ⟨before, inside, hall, -, hrow⟩ := hlayered
        have hchild : ∀ p ∈ before ++ inside, Meets (p.1.2 p.2) := by
          intro p hp
          have hmem : p.1 ∈ children.map fun k => (k, k.fold algebra) :=
            hall ▸ List.mem_map_of_mem hp
          obtain ⟨k, hk, heq⟩ := List.mem_map.mp hmem
          rw [← heq]
          exact ih k hk p.2
        rcases hrow with ⟨-, heq⟩ | ⟨isWide, heq⟩
        · rw [heq]
          exact meets_told fun p hp => hchild p (List.mem_append_left _ hp)
        · rw [heq]
          exact (meets_told fun p hp => hchild p (List.mem_append_left _ hp)).append
            (Meets.inScope (meets_told fun p hp => hchild p (List.mem_append_right _ hp)) isWide)

end ScopeEvent

namespace Bindings

open ScopeEvent ScopeWalk Node

variable {tree n : Node} {name : String}

/-- Every use in a program is recorded. -/
theorem exists_use (ht : tree.WellPlaced) (hform : ∃ hashbang, tree.form = .program hashbang)
    (hn : n ∈ tree.identifiers) : ∃ u, (ofProgram tree).useAt? n.span.start = some u := by
  -- the events of the program use the name, and a walk that has come back to the scope of the
  -- program has recorded every use that it has met
  have hstart : n.span.start ∈ (ScopeEvent.ofProgram tree).filterMap useStart? := by
    rw [ScopeEvent.ofProgram, useStarts_fold ht]
    exact List.mem_map_of_mem hn
  have hmet : n.span.start ∈ (ofProgram tree).uses.map Use.start := by
    obtain ⟨form, span, children⟩ := tree
    obtain ⟨hashbang, rfl⟩ := hform
    have hevents : ScopeEvent.ofProgram (.node (.program hashbang) span children)
        = .enter true :: (all (children.map fun k => (k, k.fold algebra)) (plain .near)
          ++ [.leave]) := by
      rw [ScopeEvent.ofProgram, fold_node]
      rfl
    have hmeets : Meets (all (children.map fun k => (k, k.fold algebra)) (plain .near)) := by
      rw [all_eq_told]
      refine meets_told fun p hp => ?_
      obtain ⟨c, hc, rfl⟩ := List.mem_map.mp hp
      obtain ⟨k, hk, rfl⟩ := List.mem_map.mp hc
      exact meets_fold k (plain .near)
    obtain ⟨s, found, hlast⟩ := exists_scope children
    obtain ⟨-, -, hmet⟩ := hmeets (step .start (.enter true)) (List.cons_ne_nil _ _)
    have hmem : n.span.start ∈ (step ⟨[s], found⟩ .leave).useStarts := by
      refine useStarts_subset_step _ _ (hlast ▸ hmet ?_)
      rw [hevents, List.filterMap_cons_none rfl, List.filterMap_append] at hstart
      simpa [useStart?] using hstart
    have hwhole : ofProgram (.node (.program hashbang) span children)
        = (step ⟨[s], found⟩ .leave).found := by
      rw [ofProgram, hevents, List.foldl_cons, List.foldl_append, hlast]
      rfl
    rw [hwhole]
    simpa [ScopeWalk.useStarts, step_leave_last] using hmem
  obtain ⟨u, hu, hsame⟩ := List.mem_map.mp hmet
  have hfound : ((ofProgram tree).useAt? n.span.start).isSome = true :=
    List.find?_isSome.mpr ⟨u, hu, by simp [hsame]⟩
  exact Option.isSome_iff_exists.mp hfound

/-- A use belongs to a symbol of its own name, if it belongs to any, and a declaration of the
program introduces that name. -/
theorem name_of_use (ht : tree.WellPlaced) (hn : n ∈ tree.identifiers)
    (hname : n.form = .identifier name) {k : Nat}
    (hk : (ofProgram tree).symbolOfUse? n.span.start = some k) :
    (ofProgram tree).nameOf? k = some name ∧ ∃ b ∈ tree.bindings, b.form = .binding name := by
  obtain ⟨u, hu, hsymbol⟩ := Option.bind_eq_some_iff.mp hk
  have hspelled : Spelled (ScopeEvent.ofProgram tree)
      ((ScopeEvent.ofProgram tree).foldl ScopeWalk.step ScopeWalk.start) := spelled_start.walk
  obtain ⟨name', hmem, hnames⟩ := hspelled.uses u (List.mem_of_find?_eq_some hu)
  -- the identifiers of a program start at different offsets
  obtain ⟨n', hn', hname', hstart'⟩ := about_of_mem hmem
  have hstart : u.start = n.span.start := by simpa using List.find?_some hu
  obtain rfl := ht.identifier_eq hn' hn (hstart'.trans hstart)
  obtain rfl := Form.identifier.inj (hname.symm.trans hname')
  have hfound : (ofProgram tree).nameOf? k = some name := hnames k hsymbol
  refine ⟨hfound, ?_⟩
  obtain ⟨s, hs, hsname⟩ := Option.map_eq_some_iff.mp hfound
  rcases origin_of_mem_walk (List.mem_of_getElem? hs) with ⟨s', hs', -⟩ | ⟨how, hintroduced, -⟩
  · exact absurd hs' List.not_mem_nil
  · obtain ⟨b, hb, hform, -⟩ := about_of_mem hintroduced
    exact ⟨b, hb, hsname ▸ hform⟩

/-- A name that nothing in a program declares is global wherever it is used. -/
theorem isGlobalUse_of_undeclared (ht : tree.WellPlaced)
    (hform : ∃ hashbang, tree.form = .program hashbang)
    (hfree : ∀ b ∈ tree.bindings, b.form ≠ .binding name) (hn : n ∈ tree.identifiers)
    (hname : n.form = .identifier name) : (ofProgram tree).isGlobalUse n.span.start = true := by
  obtain ⟨u, hu⟩ := exists_use ht hform hn
  cases hsymbol : u.symbol with
  | none => simp [isGlobalUse, hu, hsymbol]
  | some k =>
      obtain ⟨-, b, hb, hbname⟩ :=
        name_of_use ht hn hname (k := k) (by simp [symbolOfUse?, hu, hsymbol])
      exact absurd hbname (hfree b hb)

end Bindings

end Graft
