import Graft.Proofs.Scope.Words
/-!
Parts of a program that keep their names to themselves.

# Enclosed segments

A segment of the events is enclosed if every name in it goes to a scope that the segment opens
itself, and it closes the scopes that it opens and no others (`ScopeEvent.Encloses`). The events of
a closed tree are enclosed (`ScopeEvent.encloses_of_isClosed`), and those of any part of a tree
stand together in those of the tree (`ScopeEvent.exists_segment`).

# Walks inside of one

The scopes around such a segment hold the same symbols before and after, and the scopes that it
opens hold symbols of its own (`ScopeWalk.Inside`), one event after the other. So what it declares
is out of reach once it is over: the uses of its symbols stand in the segment
(`ScopeWalk.use_of_segment`). A name that a closed part of a program declares is therefore used in
that part only (`Bindings.mem_of_isClosed`).
-/
namespace Graft

namespace ScopeEvent

/-- The scopes that a segment has opened itself and not closed yet, after one event more. -/
def flags : List Bool → ScopeEvent → Option (List Bool)
  | fs, .enter isWide => some (isWide :: fs)
  | _ :: fs, .leave => some fs
  | [], .leave => none
  | fs, .use .. => some fs
  | fs, .introduce _ _ how => if ScopeWalk.fits how.reach fs then some fs else none

/-- Whether some events, given the scopes that are open, close the scopes that they open and no
other ones, and introduce no name outside of all of these. -/
def Encloses (fs : List Bool) (events : List ScopeEvent) : Prop :=
  events.foldlM flags fs = some fs

theorem encloses_nil (fs : List Bool) : Encloses fs [] := rfl

/-- Enclosed rows of events can be put one after the other. -/
theorem Encloses.append {fs : List Bool} {as bs : List ScopeEvent} (ha : Encloses fs as)
    (hb : Encloses fs bs) : Encloses fs (as ++ bs) := by
  rw [Encloses, List.foldlM_append, ha]
  exact hb

/-- Events that are enclosed inside of a scope are enclosed with the scope around them. -/
theorem Encloses.inScope {fs : List Bool} {isWide : Bool} {inside : List ScopeEvent}
    (h : Encloses (isWide :: fs) inside) : Encloses fs (inScope isWide inside) := by
  rw [Encloses, ScopeEvent.inScope, List.cons_append, List.foldlM_cons]
  show (inside ++ [ScopeEvent.leave]).foldlM flags (isWide :: fs) = some fs
  rw [List.foldlM_append, h]
  rfl

/-- The events of the children are enclosed if those of each child are. -/
theorem encloses_told {fs : List Bool} {children : List Told}
    (h : ∀ p ∈ children, Encloses fs (p.1.2 p.2)) : Encloses fs (told children) := by
  induction children with
  | nil => exact encloses_nil fs
  | cons p ps ih =>
      exact (h p List.mem_cons_self).append (ih fun q hq => h q (List.mem_cons_of_mem _ hq))

/-- What the events of all children are under some condition on the open scopes, which a scope more
does not break, the events of the node are too. -/
theorem Layered.encloses {P : List Bool → Prop} {form : Form} {how : Introduction}
    {children : List (Child Meaning)} {events : List ScopeEvent}
    (h : Layered form how children events)
    (hopen : ∀ isWide fs, P fs → P (isWide :: fs))
    (hchild : ∀ c ∈ children, ∀ fs, P fs → ∀ how, Encloses fs (c.2 how)) {fs : List Bool}
    (hfs : P fs) : Encloses fs events := by
  obtain ⟨before, inside, hall, -, hrow⟩ := h
  have hmem : ∀ p ∈ before ++ inside, p.1 ∈ children := fun p hp =>
    hall ▸ List.mem_map_of_mem hp
  have hbefore : Encloses fs (told before) := encloses_told fun p hp =>
    hchild p.1 (hmem p (List.mem_append_left _ hp)) fs hfs p.2
  rcases hrow with ⟨-, rfl⟩ | ⟨isWide, rfl⟩
  · exact hbefore
  · refine hbefore.append (.inScope (encloses_told fun p hp => ?_))
    exact hchild p.1 (hmem p (List.mem_append_right _ hp)) _ (hopen isWide fs hfs) p.2

theorem encloses_use (fs : List Bool) (name : String) (start : Nat) (isWrite : Bool) :
    Encloses fs [.use name start isWrite] := by
  cases fs <;> rfl

/-- A name that fits one of the open scopes is introduced there. -/
theorem encloses_introduce {fs : List Bool} {how : Introduction}
    (h : ScopeWalk.fits how.reach fs = true) (name : String) (span : Span) :
    Encloses fs [.introduce name span how] := by
  cases fs <;> simp [Encloses, flags, h]

/-- Inside of a wide scope there is a place for every name. -/
theorem encloses_of_wide (t : Node) {fs : List Bool} (h : true ∈ fs) (how : Introduction) :
    Encloses fs (t.fold algebra how) := by
  induction t generalizing fs how with
  | node form own children ih =>
      rw [Node.fold_node]
      rcases algebra_layers form own (children.map fun k => (k, k.fold algebra)) how with
        ⟨name, -, heq⟩ | ⟨name, target, -, -, -, heq⟩ | ⟨name, -, heq⟩ | hlayered
      · exact heq ▸ encloses_use ..
      · exact heq ▸ encloses_use ..
      · have hfits : ScopeWalk.fits how.reach fs = true := by
          cases how.reach with
          | wide => exact List.contains_iff_mem.mpr h
          | near => cases fs with
            | nil => cases h
            | cons => rfl
          | own => cases fs with
            | nil => cases h
            | cons => rfl
        exact heq ▸ encloses_introduce hfits name own
      · refine hlayered.encloses (P := (true ∈ ·)) (fun _ _ => List.mem_cons_of_mem _) ?_ h
        intro c hc fs hfs how
        obtain ⟨k, hk, rfl⟩ := List.mem_map.mp hc
        exact ih k hk hfs how

/-- The events of all children are enclosed if those of each child are. -/
theorem encloses_all {fs : List Bool} {children : List Node} {how : Introduction}
    (h : ∀ k ∈ children, Encloses fs (k.fold algebra how)) :
    Encloses fs (all (children.map fun k => (k, k.fold algebra)) how) := by
  rw [all_eq_told]
  refine encloses_told fun p hp => ?_
  obtain ⟨c, hc, rfl⟩ := List.mem_map.mp hp
  obtain ⟨k, hk, rfl⟩ := List.mem_map.mp hc
  exact h k hk

/-- Children in a wide scope. -/
theorem encloses_wide_all (fs : List Bool) (children : List Node) (how : Introduction) :
    Encloses (true :: fs) (all (children.map fun k => (k, k.fold algebra)) how) :=
  encloses_all fun k _ => encloses_of_wide k List.mem_cons_self how

/-- The events of a closed tree introduce no name outside of the scopes of the tree. -/
theorem encloses_of_isClosed {t : Node} (ht : t.WellPlaced) (hclosed : t.isClosed = true)
    (fs : List Bool) (how : Introduction) : Encloses fs (t.fold algebra how) := by
  induction t generalizing fs how with
  | node form own children ih =>
      cases ht with
      | node fits parts =>
      rw [Node.isClosed_node] at hclosed
      rw [Node.fold_node]
      -- nothing special about the form: all children are closed
      have hplain : (∀ k ∈ children, k.isClosed = true) → (∀ name, form ≠ .binding name) →
          Encloses fs
            (algebra form own (children.map fun k => (k, k.fold algebra)) how) := by
        intro hall hform
        rcases algebra_layers form own (children.map fun k => (k, k.fold algebra)) how with
          ⟨name, -, heq⟩ | ⟨name, target, -, -, -, heq⟩ | ⟨name, rfl, -⟩ | hlayered
        · exact heq ▸ encloses_use ..
        · exact heq ▸ encloses_use ..
        · exact absurd rfl (hform name)
        · refine hlayered.encloses (P := fun _ => True) (fun _ _ _ => trivial) ?_ trivial
          intro c hc fs _ how
          obtain ⟨k, hk, rfl⟩ := List.mem_map.mp hc
          exact ih k hk (parts k hk) (hall k hk) fs how
      cases form with
      | binding name => cases hclosed
      | function flags inert parenthesized =>
          cases children with
          | nil => exact encloses_nil fs
          | cons name rest =>
              exact .inScope ((encloses_of_wide name List.mem_cons_self _).append
                (encloses_wide_all fs rest _))
      | arrow isAsync isExpression inert parenthesized =>
          exact .inScope (encloses_wide_all fs children _)
      | staticBlock => exact .inScope (encloses_wide_all fs children _)
      | method kind flags computed isStatic =>
          cases children with
          | nil => exact encloses_nil fs
          | cons key rest =>
              exact (ih key List.mem_cons_self (parts key List.mem_cons_self) hclosed fs how).append
                (.inScope (encloses_wide_all fs rest _))
      | classValue =>
          refine .inScope ?_
          cases children with
          | nil => exact encloses_nil _
          | cons name others =>
              have hothers := Node.isClosed_of_all_id hclosed
              have hrest : Encloses (false :: fs)
                  (all (others.map fun k => (k, k.fold algebra)) (plain .near)) :=
                encloses_all fun k hk => ih k (List.mem_cons_of_mem _ hk)
                  (parts k (List.mem_cons_of_mem _ hk)) (hothers k hk) _ _
              refine Encloses.append ?_ hrest
              -- the name goes to the scope of the class, if there is one
              have hname := fits.shape name rfl
              cases parts name List.mem_cons_self with
              | @node form' span' children' fits' parts' =>
                obtain rfl := fits'.word hname
                cases form' with
                | absent => exact encloses_nil _
                | identifier => exact encloses_use ..
                | binding => exact encloses_introduce rfl _ _
                | key => exact encloses_nil _
                | _ => cases hname
      | _ => exact hplain (Node.isClosed_of_all_id hclosed) nofun

-- ================================================================ segments

/-- The events of a part stand together in those of the tree. -/
theorem exists_segment {t m : Node} (ht : t.WellPlaced) (hm : m ∈ t.parts)
    (hword : m.isIdentifier = false) (how : Introduction) :
    ∃ before how' after, t.fold algebra how = before ++ m.fold algebra how' ++ after := by
  induction t generalizing how with
  | node form own children ih =>
      rcases Node.mem_parts_node.mp hm with rfl | ⟨k, hk, hmk⟩
      · -- the part is the tree itself
        exact ⟨[], how, [], by simp⟩
      · cases ht with
        | node fits parts =>
        rw [Node.fold_node]
        rcases algebra_layers form own (children.map fun k => (k, k.fold algebra)) how with
          ⟨name, rfl, -⟩ | ⟨name, target, -, hchildren, htarget, -⟩ | ⟨name, rfl, -⟩
            | ⟨before, inside, hall, -, hrow⟩
        · -- a lone identifier has no children, and so no part strictly inside
          rw [fits.word rfl] at hk
          cases hk
        · -- an identifier that is assigned to has no part but itself, and the part is no identifier
          obtain ⟨k', rfl, rfl⟩ := List.map_eq_singleton_iff.mp hchildren
          obtain rfl := List.mem_singleton.mp hk
          have hform : k.form = .identifier name := htarget
          rw [(parts k hk).parts_of_isWord (by rw [hform]; rfl), List.mem_singleton] at hmk
          rw [hmk, Node.isIdentifier, hform] at hword
          cases hword
        · rw [fits.word rfl] at hk
          cases hk
        · have hmem : (k, k.fold algebra) ∈ (before ++ inside).map Prod.fst :=
            hall ▸ List.mem_map_of_mem hk
          obtain ⟨p, hp, hpk⟩ := List.mem_map.mp hmem
          obtain ⟨as, how', bs, hsegment⟩ := ih k hk (parts k hk) hmk p.2
          -- where the child tells its events once, what stands around them is told before and after
          have htold : ∀ ps : List Told, p ∈ ps → ∃ as' bs',
              told ps = as' ++ m.fold algebra how' ++ bs' := by
            intro ps hps
            obtain ⟨front, back, rfl⟩ := List.append_of_mem hps
            refine ⟨told front ++ as, bs ++ told back, ?_⟩
            have hevents : p.1.2 p.2 = as ++ m.fold algebra how' ++ bs := by
              rw [hpk]
              exact hsegment
            simp [told, hevents]
          -- the events of a layer stand in one row, or some of them in a scope opened after the
          -- others
          rcases hrow with ⟨rfl, heq⟩ | ⟨isWide, heq⟩
          · obtain ⟨as', bs', htold⟩ := htold before (by simpa using hp)
            exact ⟨as', how', bs', heq.trans htold⟩
          · rcases List.mem_append.mp hp with hp | hp
            · obtain ⟨as', bs', htold⟩ := htold before hp
              exact ⟨as', how', bs' ++ inScope isWide (told inside), by simp [heq, htold]⟩
            · obtain ⟨as', bs', htold⟩ := htold inside hp
              exact ⟨told before ++ .enter isWide :: as', how', bs' ++ [.leave],
                by simp [heq, htold, inScope]⟩

end ScopeEvent

namespace ScopeWalk

open OpenScope

-- ================================================= walks inside a segment

/-- A scope without the uses at some offsets that wait in it. -/
def without (starts : List Nat) (s : OpenScope) : OpenScope :=
  { s with waiting := s.waiting.filter fun u => !starts.contains u.start }

/-- Waiting uses are no numbers. -/
theorem numbersOf_without {starts : List Nat} {as bs : List OpenScope}
    (h : as.map (without starts) = bs.map (without starts)) : numbersOf as = numbersOf bs := by
  have hmap : ∀ scopes, numbersOf (scopes.map (without starts)) = numbersOf scopes := by
    intro scopes
    rw [numbersOf, List.flatMap_map]
    rfl
  rw [← hmap as, h, hmap]

/-- A walk inside a segment that began with `n` symbols among the scopes `base`: the scopes that
the segment has opened hold symbols of its own, and uses at some of its offsets; those around it
are what they were, but for uses at such offsets. -/
structure Inside (base : List OpenScope) (n : Nat) (starts : List Nat) (fs : List Bool)
    (w : ScopeWalk) : Prop where
  opened : ∃ inner outer, w.opened = inner ++ outer ∧ inner.map (·.isWide) = fs
    ∧ (∀ k ∈ numbersOf inner, n ≤ k)
    ∧ (∀ s ∈ inner, ∀ u ∈ s.waiting, u.start ∈ starts)
    ∧ outer.map (without starts) = base.map (without starts)
  length : n ≤ w.found.symbols.length

/-- What an event of a segment records is the segment's own. -/
structure Records (n : Nat) (starts : List Nat) (w w' : ScopeWalk) : Prop where
  uses : (w'.found.uses.filter fun u => !starts.contains u.start)
    = w.found.uses.filter fun u => !starts.contains u.start
  declared : ∀ d ∈ w'.found.declared, d ∈ w.found.declared ∨ n ≤ d.2

theorem Records.refl (n : Nat) (starts : List Nat) (w : ScopeWalk) : Records n starts w w :=
  ⟨rfl, fun _ => .inl⟩

/-- What two walks record is the segment's own if it is so for each. -/
theorem Records.trans {n : Nat} {starts : List Nat} {u v w : ScopeWalk}
    (h : Records n starts u v) (h' : Records n starts v w) : Records n starts u w where
  uses := h'.uses.trans h.uses
  declared d hd := (h'.declared d hd).elim (h.declared d) .inr

/-- A use that a segment records, if it is not at an offset of the segment, was recorded before. -/
theorem Records.use {n : Nat} {starts : List Nat} {w w' : ScopeWalk} (h : Records n starts w w')
    {u : Use} (hu : u ∈ w'.found.uses) : u ∈ w.found.uses ∨ u.start ∈ starts := by
  by_cases hstart : u.start ∈ starts
  · exact .inr hstart
  · have hmem : u ∈ w'.found.uses.filter fun u => !starts.contains u.start :=
      List.mem_filter.mpr ⟨hu, by simpa using hstart⟩
    rw [h.uses] at hmem
    exact .inl (List.mem_filter.mp hmem).1

/-- One event of a segment. -/
theorem Inside.step {base : List OpenScope} {n : Nat} {starts : List Nat} {fs fs' : List Bool}
    {w : ScopeWalk} {e : ScopeEvent} (h : Inside base n starts fs w)
    (hflags : ScopeEvent.flags fs e = some fs')
    (hstarts : ∀ start, e.useStart? = some start → start ∈ starts) :
    Inside base n starts fs' (step w e) ∧ Records n starts w (step w e) := by
  obtain ⟨⟨inner, outer, hw, rfl, hnumbers, hwaiting, houter⟩, hlength⟩ := h
  cases e with
  | enter isWide =>
      obtain rfl : isWide :: inner.map (·.isWide) = fs' := Option.some.inj hflags
      refine ⟨⟨⟨⟨isWide, [], [], []⟩ :: inner, outer, by simp [ScopeWalk.step, hw], rfl, ?_, ?_,
        houter⟩, hlength⟩, ⟨rfl, fun _ => .inl⟩⟩
      · exact fun k hk => hnumbers k (by simpa [OpenScope.numbers] using hk)
      · intro s hs u hu
        rcases List.mem_cons.mp hs with rfl | hs
        · cases hu
        · exact hwaiting s hs u hu
  | use name start isWrite =>
      obtain rfl : inner.map (·.isWide) = fs' := Option.some.inj hflags
      have hstart := hstarts start rfl
      cases inner with
      | nil =>
          cases outer with
          | nil =>
              rw [step_use_nil hw]
              exact ⟨⟨⟨[], [], hw, rfl, fun _ h => absurd h List.not_mem_nil,
                fun _ h => absurd h List.not_mem_nil, houter⟩, hlength⟩, .refl ..⟩
          | cons t outer =>
              rw [step_use_cons hw]
              refine ⟨⟨⟨[], _, rfl, rfl, fun _ h => absurd h List.not_mem_nil,
                fun _ h => absurd h List.not_mem_nil, ?_⟩, hlength⟩, rfl, fun _ => .inl⟩
              rw [← houter]
              simp [without, hstart]
      | cons s inner =>
          rw [step_use_cons hw]
          refine ⟨⟨⟨_ :: inner, outer, rfl, rfl, hnumbers, ?_, houter⟩, hlength⟩,
            rfl, fun _ => .inl⟩
          intro t ht u hu
          rcases List.mem_cons.mp ht with rfl | ht
          · rcases List.mem_cons.mp hu with rfl | hu
            · exact hstart
            · exact hwaiting s List.mem_cons_self u hu
          · exact hwaiting t (List.mem_cons_of_mem _ ht) u hu
  | leave =>
      cases inner with
      | nil => cases hflags
      | cons s inner =>
          obtain rfl : inner.map (·.isWide) = fs' := Option.some.inj hflags
          have hmoving : ∀ u ∈ (settle s).2, u.start ∈ starts := fun u hu =>
            hwaiting s List.mem_cons_self u (List.mem_filter.mp hu).1
          have hsettled : ∀ u ∈ (settle s).1, u.start ∈ starts := by
            intro u hu
            obtain ⟨-, a, ha, hstart⟩ := symbol_of_mem_settle hu
            exact hstart ▸ hwaiting s List.mem_cons_self a ha
          have hinner : ∀ k ∈ numbersOf inner, n ≤ k := fun k hk =>
            hnumbers k (List.mem_append_right _ hk)
          have hrest : ∀ t ∈ inner, ∀ u ∈ t.waiting, u.start ∈ starts := fun t ht =>
            hwaiting t (List.mem_cons_of_mem _ ht)
          have hrecords : ((settle s).1 ++ w.found.uses).filter (fun u => !starts.contains u.start)
              = w.found.uses.filter fun u => !starts.contains u.start := by
            rw [List.filter_append, List.filter_eq_nil_iff.mpr (by simpa using hsettled),
              List.nil_append]
          -- what moves on goes to the next scope, which may be one around the segment
          cases inner with
          | cons t inner =>
              rw [step_leave_cons hw]
              refine ⟨⟨⟨_ :: inner, outer, rfl, rfl, hinner, ?_, houter⟩, hlength⟩,
                hrecords, fun _ => .inl⟩
              intro t' ht' u hu
              rcases List.mem_cons.mp ht' with rfl | ht'
              · rcases List.mem_append.mp hu with hu | hu
                · exact hmoving u hu
                · exact hrest t List.mem_cons_self u hu
              · exact hrest t' (List.mem_cons_of_mem _ ht') u hu
          | nil =>
              cases outer with
              | cons t outer =>
                  rw [step_leave_cons hw]
                  refine ⟨⟨⟨[], _, rfl, rfl, fun _ h => absurd h List.not_mem_nil,
                    fun _ h => absurd h List.not_mem_nil, ?_⟩, hlength⟩, hrecords, fun _ => .inl⟩
                  have hgone : (settle s).2.filter (fun u => !starts.contains u.start) = [] :=
                    List.filter_eq_nil_iff.mpr (by simpa using hmoving)
                  rw [← houter, List.map_cons, List.map_cons, without, List.filter_append, hgone]
                  rfl
              | nil =>
                  rw [step_leave_last hw]
                  refine ⟨⟨⟨[], [], rfl, rfl, fun _ h => absurd h List.not_mem_nil,
                    fun _ h => absurd h List.not_mem_nil, houter⟩, hlength⟩, ?_, fun _ => .inl⟩
                  rw [List.append_assoc, List.filter_append, hrecords,
                    List.filter_eq_nil_iff.mpr (by simpa using hmoving), List.nil_append]
  | introduce name span how =>
      have hfits : fits how.reach (inner.map (·.isWide)) = true ∧ inner.map (·.isWide) = fs' := by
        simp only [ScopeEvent.flags] at hflags
        split at hflags
        case isTrue h => exact ⟨h, Option.some.inj hflags⟩
        case isFalse => cases hflags
      obtain ⟨hfits, rfl⟩ := hfits
      obtain ⟨inner', m, hopened, hshape, hnew, hfound⟩ :=
        step_introduce_of_fits name span hw hfits
      have hm : n ≤ m := by
        rcases hfound with ⟨hm, -⟩ | ⟨rfl, -⟩
        · exact hnumbers m hm
        · exact hlength
      have hflags' : inner'.map (·.isWide) = inner.map (·.isWide) := by
        have := congrArg (List.map Prod.fst) hshape
        simpa [shape, Function.comp_def] using this
      refine ⟨⟨⟨inner', outer, hopened, hflags', fun k hk => ?_, fun s hs u hu => ?_, houter⟩, ?_⟩,
        ?_, fun d hd => ?_⟩
      · rcases hnew k hk with rfl | hk
        · exact hm
        · exact hnumbers k hk
      · obtain ⟨s', hs', heq⟩ := List.mem_map.mp (hshape ▸ List.mem_map_of_mem hs)
        exact hwaiting s' hs' u ((Prod.mk.inj heq).2 ▸ hu)
      · rcases hfound with ⟨-, heq⟩ | ⟨-, heq⟩
        · simpa [heq, again, redeclare] using hlength
        · rw [heq]
          simp [withSymbol]
          omega
      · rcases hfound with ⟨-, heq⟩ | ⟨-, heq⟩
        · rw [heq]
          rfl
        · rw [heq]
          rfl
      · have hdeclared : d = (span.start, m) ∨ d ∈ w.found.declared := by
          rcases hfound with ⟨-, heq⟩ | ⟨rfl, heq⟩
          · rw [heq] at hd
            exact List.mem_cons.mp hd
          · rw [heq] at hd
            exact List.mem_cons.mp hd
        rcases hdeclared with rfl | hd
        · exact .inr hm
        · exact .inl hd

/-- All events of a segment. -/
theorem Inside.walk {base : List OpenScope} {n : Nat} {starts : List Nat} {fs fs' : List Bool}
    {w : ScopeWalk} {events : List ScopeEvent} (h : Inside base n starts fs w)
    (hflags : events.foldlM ScopeEvent.flags fs = some fs')
    (hstarts : ∀ start ∈ events.filterMap ScopeEvent.useStart?, start ∈ starts) :
    Inside base n starts fs' (events.foldl ScopeWalk.step w)
      ∧ Records n starts w (events.foldl ScopeWalk.step w) := by
  induction events generalizing w fs with
  | nil =>
      obtain rfl : fs = fs' := Option.some.inj hflags
      exact ⟨h, .refl ..⟩
  | cons e events ih =>
      obtain ⟨fs₁, he, hes⟩ := Option.bind_eq_some_iff.mp hflags
      obtain ⟨h₁, hr₁⟩ := h.step he fun start hs => hstarts start (by simp [hs])
      obtain ⟨h₂, hr₂⟩ := ih h₁ hes fun start hs => by
        refine hstarts start ?_
        rw [List.filterMap_cons]
        split
        · exact hs
        · exact List.mem_cons_of_mem _ hs
      exact ⟨h₂, hr₁.trans hr₂⟩

/-- What uses a symbol that an enclosed segment declares stands in the segment. -/
theorem use_of_segment {before segment after : List ScopeEvent}
    (hclosed : ScopeEvent.Encloses [] segment)
    (hnames : ((before ++ segment ++ after).filterMap ScopeEvent.nameStart?).Nodup)
    {start n : Nat} (hstart : start ∈ segment.filterMap ScopeEvent.nameStart?)
    (hdeclared : (start, n)
      ∈ ((before ++ segment ++ after).foldl ScopeWalk.step ScopeWalk.start).found.declared)
    {u : Use} (hu : u ∈ ((before ++ segment ++ after).foldl ScopeWalk.step .start).found.uses)
    (hsymbol : u.symbol = some n) : u.start ∈ segment.filterMap ScopeEvent.useStart? := by
  rw [List.foldl_append, List.foldl_append] at hdeclared hu
  rw [List.filterMap_append, List.filterMap_append] at hnames
  -- the offset of the declaration is that of no name before or after the segment
  obtain ⟨hfront, -, hafter⟩ := List.nodup_append.mp hnames
  obtain ⟨-, -, hbefore⟩ := List.nodup_append.mp hfront
  have hnotafter : start ∉ after.filterMap ScopeEvent.nameStart? := fun h =>
    hafter start (List.mem_append_right _ hstart) start h rfl
  have hnotbefore : start ∉ before.filterMap ScopeEvent.nameStart? := fun h =>
    hbefore start h start hstart rfl
  have hgrows₀ := grows_walk before ScopeWalk.start
  generalize before.foldl ScopeWalk.step ScopeWalk.start = w₀ at *
  have hvalid₀ := valid_start.walk hgrows₀
  have hgrows₁ := grows_walk segment w₀
  have hvalid₁ := hvalid₀.walk hgrows₁
  have hinside : Inside w₀.opened w₀.found.symbols.length
      (segment.filterMap ScopeEvent.useStart?) [] w₀ :=
    ⟨⟨[], w₀.opened, rfl, rfl, nofun, nofun, rfl⟩, Nat.le_refl _⟩
  obtain ⟨⟨⟨inner, outer, hopened, hflags, -, -, houter⟩, -⟩, hrecords⟩ :=
    hinside.walk hclosed fun _ h => h
  have hgrows₂ := grows_walk after (segment.foldl ScopeWalk.step w₀)
  generalize segment.foldl ScopeWalk.step w₀ = w₁ at *
  obtain rfl : inner = [] := List.map_eq_nil_iff.mp hflags
  have hnumbers : ∀ k ∈ numbersOf w₁.opened, k < w₀.found.symbols.length := by
    intro k hk
    rw [hopened, List.nil_append, numbersOf_without houter] at hk
    exact hvalid₀.numbers k hk
  -- so the symbol is one of the segment's own
  have hown : w₀.found.symbols.length ≤ n ∧ n < w₁.found.symbols.length := by
    have hd₁ : (start, n) ∈ w₁.found.declared := by
      rcases hgrows₂.declared _ hdeclared with h | ⟨h, -⟩
      · exact h
      · exact absurd h hnotafter
    refine ⟨?_, hvalid₁.declared _ hd₁⟩
    rcases hrecords.declared _ hd₁ with hd₀ | h
    · rcases hgrows₀.declared _ hd₀ with h | ⟨h, -⟩
      · cases h
      · exact absurd h hnotbefore
    · exact h
  have hu₁ : u ∈ w₁.found.uses := by
    rcases hgrows₂.uses u hu with h | h
    · exact h
    · rcases h n hsymbol with h | h
      · have := hnumbers n h
        omega
      · omega
  rcases hrecords.use hu₁ with hu₀ | h
  · have := hvalid₀.uses u hu₀ n hsymbol
    omega
  · exact h

end ScopeWalk

namespace Bindings

/-- What uses a symbol that a closed part of a program declares stands in that part. -/
theorem mem_of_isClosed {tree st b n : Node} {s : Nat} (ht : tree.WellPlaced)
    (hst : st ∈ tree.parts) (hword : st.isIdentifier = false) (hclosed : st.isClosed = true)
    (hb : b ∈ st.bindings) (hname : (ofProgram tree).symbolOfName? b.span.start = some s)
    (hn : n ∈ tree.identifiers) (huse : (ofProgram tree).symbolOfUse? n.span.start = some s) :
    n ∈ st.identifiers := by
  obtain ⟨before, how, after, hevents⟩ :=
    ScopeEvent.exists_segment ht hst hword (ScopeEvent.plain .near)
  have hstw := ht.part hst
  have hnames : ((before ++ st.fold ScopeEvent.algebra how ++ after).filterMap
      ScopeEvent.nameStart?).Nodup := by
    rw [← hevents, ScopeEvent.nameStarts_fold ht]
    exact ht.nodup_nameStarts
  obtain ⟨u, hu, hsymbol⟩ := Option.bind_eq_some_iff.mp huse
  have hstart : u.start = n.span.start := by simpa using List.find?_some hu
  have hu := List.mem_of_find?_eq_some hu
  have hd := (symbolOfName?_eq_some ht).mp hname
  rw [ofProgram, ScopeEvent.ofProgram, hevents] at hu hd
  have hin := ScopeWalk.use_of_segment
    (ScopeEvent.encloses_of_isClosed hstw hclosed [] how) hnames
    (by rw [ScopeEvent.nameStarts_fold hstw]; exact Node.mem_nameStarts.mpr ⟨b, hb, rfl⟩)
    hd hu hsymbol
  rw [ScopeEvent.useStarts_fold hstw] at hin
  obtain ⟨m, hm, heq⟩ := Node.mem_useStarts.mp hin
  obtain ⟨hmparts, hmid⟩ := List.mem_filter.mp hm
  have hmt : m ∈ tree.identifiers :=
    List.mem_filter.mpr ⟨Node.mem_parts_trans hmparts hst, hmid⟩
  exact ht.identifier_eq hmt hn (heq.trans hstart) ▸ hm

end Bindings

end Graft
